import SkipCode.Action.Flaw
import SkipCode.Binary64.Text
import SkipCode.Engine.Memory

/-!
# Why a run stops early
-/

namespace SkipCode.Engine

/-- What went wrong at an action. -/
inductive Fault where
  | slotOutOfRange (store : StoreKey) (slot capacity : UInt32)
  | badIndex (index : Binary64)
  | arrayTooLong (length limit : Nat)
  | stepLimit (limit : Nat)
deriving DecidableEq, Repr

inductive RuntimeError where
  | unknownUnit (name : String)
  | malformed (error : CheckError)
  | fault (ip : Nat) (fault : Fault)
deriving DecidableEq, Repr

def Fault.message : Fault → String
  | slotOutOfRange store slot capacity =>
    s!"{store.toText} slot {slot} is outside capacity {capacity}"
  | badIndex index => s!"cannot write index {index}"
  | arrayTooLong length limit => s!"array would grow to {length} elements (limit {limit})"
  | stepLimit limit => s!"execution step limit exceeded ({limit})"

def Fault.kind : Fault → String
  | slotOutOfRange .. => "SlotOutOfRange"
  | badIndex _ => "BadIndex"
  | arrayTooLong .. => "ArrayTooLong"
  | stepLimit _ => "StepLimit"

namespace RuntimeError

def message : RuntimeError → String
  | unknownUnit name => s!"runtime error: no unit named '{name}'"
  | malformed error => s!"runtime error: {error.message}"
  | fault ip f => s!"runtime error at {positionText ip}: {f.message}"

def kind : RuntimeError → String
  | unknownUnit _ => "UnknownUnit"
  | malformed _ => "Malformed"
  | fault _ f => f.kind

/-- The position of the action that failed, if there is one. -/
def ip? : RuntimeError → Option Nat
  | unknownUnit _ => none
  | malformed error => some error.position
  | fault ip _ => some ip

end RuntimeError

end SkipCode.Engine
