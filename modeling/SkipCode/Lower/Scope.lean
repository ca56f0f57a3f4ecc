import SkipCode.Lower.State

/-!
# Scopes and frames

Declarations take slots from the pool of the unit. When the pool is exhausted the error is noted
and lowering goes on with a placeholder, so that more errors are found; a unit with such a note is
never shipped.

In a recursive frame every variable is a stack: its declaration pushes a value and the end of its
scope pops it. A path that leaves a scope early emits the same pops itself (`unwindTo`), while the
scope stays open for the path that ends it.
-/

namespace SkipCode

/-- The slot of a variable that could not be given one. -/
def placeholderSlot : UInt32 := 0xffffffff

namespace Lower

variable {α : Type}

def openScope : Lower Unit := modify fun s => { s with scopes := .empty :: s.scopes }

/-- Changes the innermost scope. -/
def modifyScope (f : Scope → Scope) : Lower Unit := do
  let s ← get
  match s.scopes with
  | scope :: rest => set { s with scopes := f scope :: rest }
  | [] => throw (.defect .declarationOutsideScope)

/-- Gives a slot back to its pool. -/
def freeSlot (pool : Pool) (slot : UInt32) : Lower Unit := do
  let s ← get
  let p ← ((s.session.slotPool pool).release slot : Except LowerError _)
  set { s with session := s.session.setSlotPool p pool }

/-- Closes the innermost scope: pops its stacks, the latest first, and gives its slots back. -/
def closeScope : Lower Unit := do
  let s ← get
  match s.scopes with
  | [] => throw (.defect .scopeClosedTwice)
  | scope :: rest =>
    set { s with scopes := rest }
    scope.exits.forM fun var => do
      let (pops, _) ← (var.exit none : Except LowerError _)
      emit pops
    scope.owned.forM fun (pool, slot) => freeSlot pool slot

/-- Lowers in a scope of its own. -/
def inScope (m : Lower α) : Lower α := do
  openScope
  let a ← m
  closeScope
  return a

/-- The pops for leaving every scope from `depth` up, innermost first. -/
def pendingPops (s : UnitState) (depth : Nat) : List Action :=
  (s.scopesFrom depth).flatMap fun scope => scope.exits.flatMap fun var => var.popActions none

/-- Emits the pops for leaving every scope from `depth` up, and leaves the scopes open. -/
def unwindTo (depth : Nat) : Lower Unit := do emit (pendingPops (← get) depth)

def bind (name : String) (v : Variable) : Lower Unit :=
  modifyScope fun scope => { scope with bindings := (name, v) :: scope.bindings }

/-- What a name stands for: the latest declaration in the innermost scope that has one, of the
scopes that belong to the frame. -/
def lookup (name : String) : Lower Variable := do
  let s ← get
  let floor := match s.frames with
    | frame :: _ => frame.lookupFloor
    | [] => 0
  match (s.scopesFrom floor).findSome? fun scope => scope.bindings.lookup name with
  | some v => return v
  | none => throw (.defect (.unresolvedName name))

/-- A name for a variable that the source has not named. -/
def hiddenName (what : String) : Lower String := do
  modify fun s => { s with hidden := s.hidden + 1 }
  return s!"__{what}{(← get).hidden}"

/-- Takes a slot for the current scope, or the placeholder when there is none left. -/
def allocate (owner : String) : Lower UInt32 := do
  let s ← get
  match (s.session.slotPool s.pool).allocate owner with
  | .ok (slot, p) =>
    set { s with session := s.session.setSlotPool p s.pool }
    modifyScope fun scope => { scope with owned := (s.pool, slot) :: scope.owned }
    return slot
  | .error e =>
    set { s with deferred := e.withSpan s.span :: s.deferred }
    return placeholderSlot

/-- Notes the slot that a name was given. -/
def addSymbol (name : String) (slot : UInt32) (stacked : Bool) : Lower Unit :=
  modify fun s =>
    let region := s.regions.getLast?.map (·.bodyStart)
    { s with
      symbols := ⟨name, s.pool, slot, stacked, s.scopes.length, s.frames.length, region⟩ ::
        s.symbols }

/-- A plain variable without a name in the source. -/
def temp (what : String) : Lower IndexedVar := do
  let name ← hiddenName what
  let slot ← allocate name
  addSymbol name slot false
  return .plain name (← get).pool slot

/-- Declares a stack and pushes its first value. -/
def declareStack (name : String) (initial : Option Element) : Lower RecursiveVar := do
  let slot ← allocate name
  addSymbol name slot true
  let (push, var) := (RecursiveVar.new name (← get).pool slot).enter (initial.getD .neutral) none
  emit push
  modifyScope fun scope => { scope with exits := var :: scope.exits }
  bind name (.recursive var)
  return var

/-- Declares a plain variable. -/
def declarePlain (name : String) (initial : Option Element) : Lower IndexedVar := do
  let slot ← allocate name
  addSymbol name slot false
  let var := IndexedVar.plain name (← get).pool slot
  match initial with
  | some value => emit (var.set value none [])
  | none => pure ()
  bind name (.indexed var)
  return var

/-- Declares a name in the current scope: a stack when it is meant to be one or the frame is
recursive, else a plain variable. -/
def declare (name : String) (initial : Option Element) (stacked : Bool) : Lower Variable := do
  if stacked || (← get).inRecursiveFrame then return .recursive (← declareStack name initial)
  else return .indexed (← declarePlain name initial)

/-- Keeps a value that later code must not change. In a recursive frame that takes a stack, since
every activation uses the same temporaries. -/
def materialize (value : Element) : Lower Element := do
  if (← get).inRecursiveFrame then
    let name ← hiddenName "result"
    return (← declareStack name (some value)).get none
  else return value

/-- The innermost frame. -/
def frame : Lower Frame := do
  match (← get).frames with
  | frame :: _ => return frame
  | [] => throw (.defect .noFrame)

def pushFrame (frame : Frame) : Lower Unit := modify fun s => { s with frames := frame :: s.frames }

/-- Closes the innermost frame; its returns lead here. -/
def closeFrame : Lower Unit := do
  let s ← get
  match s.frames with
  | [] => throw (.defect .frameClosedTwice)
  | frame :: rest =>
    set { s with frames := rest }
    frame.returns.forM resolveHere

/-- The frame of a unit. -/
def unitFrame : Frame := ⟨none, 0, 0, 0, false, [], none⟩

/-- The frame of a body expanded at this place: it sees no scope and no loop of its caller. -/
def expandedFrame (method : Option String) (result : Option IndexedVar) : Lower Frame := do
  let s ← get
  return ⟨method, s.scopes.length, s.scopes.length, s.loops.depth, s.inRecursiveFrame, [], result⟩

end Lower

end SkipCode
