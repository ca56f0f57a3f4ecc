import SkipCode.Action.List
import SkipCode.Storage.Variable

/-!
# Conditionals

A guarded block is a skip over its code, taken when the condition fails:

    skip_if !condition → end
    <body>
    end:

In a chain of arms every arm but the last ends with a skip to the end of the whole chain.
-/

namespace SkipCode

/-- Fails unless a block is at the stage that a step needs. -/
def expectStage (actual expected : Stage) (step : String) : Except LowerError Unit :=
  if actual = expected then .ok () else .error (.defect (.wrongStage step actual expected))

/-- A guarded block that is being written; `exit` is the position of its skip. -/
structure IfBlock where
  stage : Stage
  exit : Option Nat
deriving Repr, Inhabited, DecidableEq

namespace IfBlock

def new : IfBlock := ⟨.unset, none⟩

/-- Pushes the skip over the body. -/
def setup (b : IfBlock) (condition : Element) (list : ActionList) :
    Except LowerError (IfBlock × ActionList) := do
  expectStage b.stage .unset "if setup"
  return (⟨.setup, some list.length⟩, list.pushSkip (some condition.negate))

/-- Lets the skip lead to the end of the list, behind the body. -/
def finish (b : IfBlock) (list : ActionList) : Except LowerError (IfBlock × ActionList) := do
  expectStage b.stage .setup "if finish"
  match b.exit with
  | none => .error (.defect (.noExitSkip "if"))
  | some exit => return (⟨.finished, none⟩, ← list.resolveHere exit)

end IfBlock

namespace ActionList

/-- Lets several skips lead to the end of the list. -/
def resolveAllHere (list : ActionList) (positions : List Nat) : Except LowerError ActionList :=
  positions.foldlM resolveHere list

end ActionList

/-- The skips to the end of a chain of arms. -/
structure IfChain where
  ends : List Nat
deriving Repr, Inhabited, DecidableEq

namespace IfChain

def new : IfChain := ⟨[]⟩

/-- Pushes a skip to the end of the chain. -/
def skipToEnd (c : IfChain) (list : ActionList) : IfChain × ActionList :=
  (⟨c.ends ++ [list.length]⟩, list.pushSkip none)

def finish (c : IfChain) (list : ActionList) : Except LowerError ActionList :=
  list.resolveAllHere c.ends

end IfChain

end SkipCode
