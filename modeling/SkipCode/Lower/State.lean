import SkipCode.Control.Loop
import SkipCode.Lower.Session

/-!
# The state of a unit

While a unit is lowered its state has the list that is written, the scopes that are open with the
variables they declare, the loops, and the *frames*: the unit itself and the bodies of methods
that are being expanded in it. Everything that outlives the unit is in the session.

`Lower` is the monad of lowering. A failing step leaves what it did before, and there is no answer
at all when the expansion of a program has no end.
-/

namespace SkipCode

open Source (Span)

/-- What one block declares, and what closing it has to undo. All lists have the latest first. -/
structure Scope where
  bindings : List (String × Variable)
  /-- The stacks that were pushed here. -/
  exits : List RecursiveVar
  /-- The slots to give back. -/
  owned : List (Pool × UInt32)
deriving Repr, Inhabited

def Scope.empty : Scope := ⟨[], [], []⟩

/-- A body that is being lowered: the one of the unit, or one expanded in it. -/
structure Frame where
  /-- The key of the method. -/
  method : Option String
  /-- Scopes below this one belong to the caller, whose names are not seen. -/
  lookupFloor : Nat
  /-- `return` leaves every scope from this one up. -/
  scopeDepth : Nat
  /-- Loops below this one belong to the caller. -/
  loopFloor : Nat
  /-- Whether the variables of the body are stacks. -/
  recursive : Bool
  /-- The skips that wait for the end of the body. -/
  returns : List Nat
  /-- Where the value of a `return` goes. -/
  result : Option IndexedVar
deriving Repr, Inhabited

/-- The code of a recursive method that is being written. -/
structure Region where
  key : String
  bodyStart : Nat
  params : List RecursiveVar
  this : Option RecursiveVar
  returnAddress : RecursiveVar
  argumentTemps : List IndexedVar
  thisTemp : Option IndexedVar
  result : IndexedVar
  /-- Where each call inside the region goes on; its place in the list is its number. -/
  callSites : List Nat
deriving Repr, Inhabited

/-- A name of the unit and the slot it was given. -/
structure Symbol where
  name : String
  pool : Pool
  slot : UInt32
  /-- Whether the slot holds a stack. -/
  stacked : Bool
  /-- How many scopes were open. -/
  depth : Nat
  /-- How many bodies were open. -/
  bodies : Nat
  /-- Where the outermost open region starts. -/
  region : Option Nat
deriving Repr, Inhabited, DecidableEq

structure UnitState where
  session : Session
  unit : String
  /-- The pool of the variables of the unit. -/
  pool : Pool
  list : ActionList
  /-- Innermost first, as are the frames and the regions. -/
  scopes : List Scope
  loops : LoopStack
  frames : List Frame
  regions : List Region
  /-- Exhaustions that lowering went past, latest first. -/
  deferred : List LowerError
  /-- The position of the statement that is being lowered. -/
  span : Span
  /-- How many hidden names were made. -/
  hidden : Nat
  /-- Every name that was given a slot, latest first. -/
  symbols : List Symbol
deriving Repr, Inhabited

namespace UnitState

def new (session : Session) (unit : String) (pool : Pool) : UnitState :=
  { session, unit, pool, list := .empty, scopes := [], loops := .empty, frames := [],
    regions := [], deferred := [], span := .unknown, hidden := 0, symbols := [] }

/-- The scopes from `floor` up, innermost first; scopes are counted from the outermost. -/
def scopesFrom (s : UnitState) (floor : Nat) : List Scope := s.scopes.take (s.scopes.length - floor)

/-- Whether the variables of the innermost frame are stacks. -/
def inRecursiveFrame (s : UnitState) : Bool :=
  match s.frames with
  | frame :: _ => frame.recursive
  | [] => false

end UnitState

/-- The monad of lowering. -/
abbrev Lower := ExceptT LowerError (StateT UnitState Option)

namespace Lower

variable {α β : Type}

/-- Runs a step: its answer and the state it leaves, or nothing when it has no end. -/
def run (m : Lower α) (s : UnitState) : Option (Except LowerError α × UnitState) :=
  (ExceptT.run m).run s

@[simp] theorem run_pure (a : α) (s : UnitState) : run (pure a) s = some (.ok a, s) := rfl

@[simp] theorem run_throw (e : LowerError) (s : UnitState) :
    run (throw e : Lower α) s = some (.error e, s) := rfl

/-- A step goes on where the one before succeeded, with the state it left. -/
theorem run_bind (m : Lower α) (f : α → Lower β) (s : UnitState) :
    run (m >>= f) s =
      match run m s with
      | none => none
      | some (.ok a, s) => run (f a) s
      | some (.error e, s) => some (.error e, s) := by
  simp only [run, ExceptT.run_bind, StateT.run_bind]
  cases h : (ExceptT.run m).run s with
  | none => rfl
  | some p =>
    obtain ⟨r, t⟩ := p
    cases r <;> rfl

/-- A step that has no end. -/
def endless : Lower α := ExceptT.mk fun _ => none

/-- A step on the storage of instances. -/
def onStorage (m : ClassStorage.Step α) : Lower α :=
  ExceptT.mk fun s =>
    let (r, t) := Attempt.run m ⟨s.session.classData, s.session.global, s.list⟩
    some (r,
      { s with
        session := { s.session with classData := t.data, global := t.pool }
        list := t.list })

/-- A step of a loop, with the loop it leaves. -/
def onLoop (block : LoopBlock) (m : LoopBlock.Step Unit) : Lower LoopBlock :=
  ExceptT.mk fun s =>
    let (r, block, flow) := Attempt.run m (block, ⟨s.list, s.loops⟩)
    some (r.map fun _ => block, { s with list := flow.list, loops := flow.loops })

/-- Changes the list. -/
def modifyList (f : ActionList → ActionList) : Lower Unit :=
  modify fun s => { s with list := f s.list }

def emit (actions : List Action) : Lower Unit := modifyList (·.extend actions)

/-- The position that the next action gets. -/
def position : Lower Nat := do return (← get).list.length

/-- Pushes a skip without a count and gives its position. -/
def pushSkip : Lower Nat := do
  let position ← position
  modifyList (·.pushSkip none)
  return position

/-- Lets a skip lead to the end of the list. -/
def resolveHere (position : Nat) : Lower Unit := do
  let list ← ((← get).list.resolveHere position : Except LowerError _)
  modifyList fun _ => list

/-- Lowers with the position of a statement. An error without a position gets it; the position
from before comes back in any case. -/
def located (span : Span) (m : Lower α) : Lower α :=
  ExceptT.mk fun s => do
    let (r, t) ← run m { s with span := span }
    return (r.mapError (·.withSpan span), { t with span := s.span })

end Lower

end SkipCode
