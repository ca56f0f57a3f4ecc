import SkipCode.Json.Decode

/-!
# Settings of the lowering
-/

namespace SkipCode

structure LowerConfig where
  /-- Slots of the shared store. -/
  globalCapacity : UInt32
  /-- Slots of the store of each actor. -/
  actorCapacity : UInt32
  /-- How many instances can be live at a time; one more aborts the unit that makes it. -/
  classCapacity : UInt32
  /-- Whether the slots of a scope are used again when it is closed. -/
  reuseSlots : Bool
  /-- Whether the handles of deleted instances are used again. -/
  reuseHandles : Bool
  /-- The number of elements above which a program is warned about. -/
  elementCeiling : Nat
deriving DecidableEq, Repr, Inhabited

namespace LowerConfig

def default : LowerConfig := ⟨1000, 1000, 1000, false, true, 32768⟩

/-- Reads a configuration; what is missing has its default. -/
def ofJson? (j : Json) : Option LowerConfig := do
  let fields ← j.fields?
    ["global_capacity", "actor_capacity", "class_capacity", "reuse_slots", "reuse_handles",
      "element_ceiling"]
  return {
    globalCapacity := ← fields.withDefault "global_capacity" Json.uint32? default.globalCapacity
    actorCapacity := ← fields.withDefault "actor_capacity" Json.uint32? default.actorCapacity
    classCapacity := ← fields.withDefault "class_capacity" Json.uint32? default.classCapacity
    reuseSlots := ← fields.withDefault "reuse_slots" Json.bool? default.reuseSlots
    reuseHandles := ← fields.withDefault "reuse_handles" Json.bool? default.reuseHandles
    elementCeiling := ← fields.withDefault "element_ceiling" Json.count? default.elementCeiling }

def toJson (c : LowerConfig) : Json :=
  .object
    [("global_capacity", .ofNat c.globalCapacity.toNat),
      ("actor_capacity", .ofNat c.actorCapacity.toNat),
      ("class_capacity", .ofNat c.classCapacity.toNat), ("reuse_slots", .bool c.reuseSlots),
      ("reuse_handles", .bool c.reuseHandles), ("element_ceiling", .ofNat c.elementCeiling)]

end LowerConfig

end SkipCode
