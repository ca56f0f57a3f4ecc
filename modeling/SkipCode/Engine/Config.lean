import SkipCode.Json.Decode

/-!
# Limits of the engine
-/

namespace SkipCode.Engine

structure Config where
  /-- Slots of the store that all units share. -/
  globalCapacity : UInt32
  /-- Slots of the store of each actor. -/
  actorCapacity : UInt32
  /-- The longest array that a write may leave in a slot. -/
  maxArrayLength : Nat
  /-- How many actions a run may execute, if that is limited. -/
  maxSteps : Option Nat
deriving DecidableEq, Repr, Inhabited

namespace Config

def default : Config := ⟨1000, 1000, 1000, some 1000000⟩

/-- Reads a configuration; what is missing has its default. -/
def ofJson? (j : Json) : Option Config := do
  let fields ← j.fields? ["global_capacity", "actor_capacity", "max_array_len", "max_steps"]
  return {
    globalCapacity := ← fields.withDefault "global_capacity" Json.uint32? default.globalCapacity
    actorCapacity := ← fields.withDefault "actor_capacity" Json.uint32? default.actorCapacity
    maxArrayLength := ← fields.withDefault "max_array_len" Json.count? default.maxArrayLength
    maxSteps := ← fields.withDefault "max_steps" (Json.nullable? Json.count?) default.maxSteps }

def toJson (c : Config) : Json :=
  .object
    [("global_capacity", .ofNat c.globalCapacity.toNat),
      ("actor_capacity", .ofNat c.actorCapacity.toNat), ("max_array_len", .ofNat c.maxArrayLength),
      ("max_steps", .ofOption .ofNat c.maxSteps)]

end Config

end SkipCode.Engine
