import SkipCode.Action.List

/-!
# Checking a list before it runs

A list is fit to run when none of its actions has a flaw. `ActionList.check` reports the first
one that has.
-/

namespace SkipCode

namespace ActionList

/-- Checks the actions from position `ip` on, of a list of length `len`. -/
def checkFrom (len : Nat) : (ip : Nat) → List Action → Except CheckError Unit
  | _, [] => .ok ()
  | ip, a :: rest =>
    match a.flaw? ip len with
    | some flaw => .error ⟨ip, flaw⟩
    | none => checkFrom len (ip + 1) rest

def check (l : ActionList) : Except CheckError Unit := checkFrom l.length 0 l.toList

end ActionList

end SkipCode
