import SkipCode.Action.Text

/-!
# Flaws of actions

What makes a list unfit to run: a skip without a count, a skip that leads out of the list, and a
skip that always skips and leads back to itself. All three can be told from the position of the
action and the length of its list.
-/

namespace SkipCode

inductive Flaw where
  | unresolved
  | leavesUnit (count : Int32) (len : Nat)
  | ontoItself
  /-- A skip that is taken and leads nowhere. -/
  | noTarget
deriving DecidableEq, Repr

structure CheckError where
  position : Nat
  flaw : Flaw
deriving DecidableEq, Repr

def Flaw.message : Flaw → String
  | unresolved => "skip was never resolved"
  | leavesUnit count len => s!"skip {signedText count} leaves the unit ({len} actions)"
  | ontoItself => "unconditional skip onto itself"
  | noTarget => "skip has no valid target"

def CheckError.message (e : CheckError) : String :=
  s!"action-check error at {e.position}: {e.flaw.message}"

namespace Action

/-- What is wrong with the action at `ip` of a list of length `len`. -/
def flaw? (ip len : Nat) (a : Action) : Option Flaw :=
  match a.skipCount? with
  | none => none
  | some none => some .unresolved
  | some (some count) =>
    if (skipTarget? ip count len).isNone then some (.leavesUnit count len)
    else
      match a with
      | skip _ => if count == -1 then some .ontoItself else none
      | _ => none

end Action

end SkipCode
