import SkipCode.Control.If
import SkipCode.Lower.Attempt

/-!
# Loops

Every loop has one shape:

    [index = 0]                  a loop over an array only
    start:  <condition>
            skip_if !condition → exit
            <body>
    cont:   <step>               or index += 1
            skip → start
    exit:   <tail>
    end:

`continue` leads to `cont` and `break` to `end`, both not written yet when they are met. So each
open loop has a frame on the *loop stack*, in which their skips wait. They name a loop by how many
loops lie between; the loops below a floor belong to a caller and cannot be named.
-/

namespace SkipCode

/-- What is known of an open loop: where it starts, how many scopes were open outside it, and the
skips that wait for its end. -/
structure LoopFrame where
  start : Nat
  scopeDepth : Nat
  continues : List Nat
  breaks : List Nat
deriving Repr, Inhabited, DecidableEq

def LoopFrame.new (start scopeDepth : Nat) : LoopFrame := ⟨start, scopeDepth, [], []⟩

/-- The open loops, innermost first. -/
structure LoopStack where
  frames : List LoopFrame
deriving Repr, Inhabited, DecidableEq

namespace LoopStack

def empty : LoopStack := ⟨[]⟩

def depth (s : LoopStack) : Nat := s.frames.length

def push (s : LoopStack) (frame : LoopFrame) : LoopStack := ⟨frame :: s.frames⟩

/-- The innermost frame and the others. -/
def pop (s : LoopStack) : Except LowerError (LoopFrame × LoopStack) :=
  match s.frames with
  | frame :: rest => .ok (frame, ⟨rest⟩)
  | [] => .error (.defect .noLoopFrame)

/-- The frame `depth` loops out, not below the floor. -/
def frame (s : LoopStack) (depth : UInt32) (floor : Nat) (exit : String) :
    Except LowerError LoopFrame :=
  if floor + depth.toNat < s.frames.length then
    match s.frames[depth.toNat]? with
    | some frame => .ok frame
    | none => .error (.unsupported (.noSuchLoop exit depth))
  else .error (.unsupported (.noSuchLoop exit depth))

/-- Lets a skip wait for the end of the loop `depth` loops out. -/
def addBreak (s : LoopStack) (depth : UInt32) (floor skip : Nat) : Except LowerError LoopStack := do
  let frame ← s.frame depth floor "break"
  return ⟨s.frames.set depth.toNat { frame with breaks := frame.breaks ++ [skip] }⟩

/-- Lets a skip wait for the next round of the loop `depth` loops out. -/
def addContinue (s : LoopStack) (depth : UInt32) (floor skip : Nat) :
    Except LowerError LoopStack := do
  let frame ← s.frame depth floor "continue"
  return ⟨s.frames.set depth.toNat { frame with continues := frame.continues ++ [skip] }⟩

end LoopStack

inductive LoopKind where
  | while
  | for
  /-- Walks an array with an index; the element is the item at the index. -/
  | forEach (array : Element) (index : Variable)
deriving BEq, Repr, Inhabited

/-- What blocks write to: the list and the loops that are open. -/
structure Flow where
  list : ActionList
  loops : LoopStack
deriving Repr, Inhabited

/-- A loop that is being written. -/
structure LoopBlock where
  kind : LoopKind
  stage : Stage
  start : Nat
  exit : Option Nat
  breaks : List Nat
deriving Repr, Inhabited

namespace LoopBlock

def new (kind : LoopKind) : LoopBlock := ⟨kind, .unset, 0, none, []⟩

/-- What the body of a loop over an array sees as the element. -/
def element? (b : LoopBlock) : Option Element :=
  match b.kind with
  | .forEach array index => some (.itemAt array index.get)
  | _ => none

/-- A step of a loop works on the loop and on what it writes to. -/
abbrev Step := Attempt (LoopBlock × Flow)

/-- Fails unless the loop is at the stage that a step needs. -/
def expect (expected : Stage) (step : String) : Step Unit := do
  let (b, _) ← get
  (expectStage b.stage expected step : Except LowerError Unit)

def modifyBlock (f : LoopBlock → LoopBlock) : Step Unit := modify fun (b, flow) => (f b, flow)

def modifyList (f : ActionList → ActionList) : Step Unit :=
  modify fun (b, flow) => (b, { flow with list := f flow.list })

/-- Lets several skips lead to the end of the list. -/
def resolveAllHere (positions : List Nat) : Step Unit :=
  positions.forM fun position => do
    let (b, flow) ← get
    set (b, { flow with list := ← (flow.list.resolveHere position : Except LowerError _) })

/-- Writes the index of a loop over an array; other loops have none. -/
def setIndex (value : Element → Element) : Step Unit := do
  let (b, _) ← get
  match b.kind with
  | .forEach _ index =>
    let actions ← (index.set "foreach index" (value index.get) [] : Except LowerError _)
    modifyList (·.extend actions)
  | _ => pure ()

/-- Starts the index, notes the start of the loop and opens its frame. What computes the condition
comes after it. -/
def setup (scopeDepth : Nat) : Step Unit := do
  expect .unset "loop setup"
  setIndex fun _ => .ofNat 0
  modify fun (b, flow) =>
    let start := flow.list.length
    ({ b with start := start, stage := .setup },
      { flow with loops := flow.loops.push (.new start scopeDepth) })

/-- The condition under which the loop is left: a loop over an array has its own, any other is
given one to negate. -/
def exitCondition (kind : LoopKind) (condition : Option Element) : Except LowerError Element :=
  match kind, condition with
  | .forEach array index, none => .ok (.compare index.get .greaterEqual (.countOf array))
  | .forEach _ _, some _ => .error (.defect .conditionForForEach)
  | _, some condition => .ok condition.negate
  | _, none => .error (.defect .guardWithoutCondition)

/-- Pushes the skip that leaves the loop. -/
def guard (condition : Option Element) : Step Unit := do
  expect .setup "loop guard"
  let (b, _) ← get
  let exit ← (exitCondition b.kind condition : Except LowerError Element)
  modify fun (b, flow) =>
    ({ b with exit := some flow.list.length, stage := .guarded },
      { flow with list := flow.list.pushSkip (some exit) })

/-- Takes the innermost frame from the loop stack. -/
def takeFrame : Step LoopFrame := do
  let (b, flow) ← get
  let (frame, loops) ← (flow.loops.pop : Except LowerError _)
  set (b, { flow with loops })
  return frame

/-- Closes the body: what waits for the next round leads here. The innermost frame has to start
where this loop starts. -/
def epilogue : Step Unit := do
  expect .guarded "loop epilogue"
  let frame ← takeFrame
  let (b, _) ← get
  if frame.start ≠ b.start then
    throw (.defect (.loopsOutOfOrder b.start frame.start))
  resolveAllHere frame.continues
  modifyBlock ({ · with breaks := frame.breaks, stage := .epilogue })

/-- Closes the loop: the next index, the skip back, and the tail, which runs only when the
condition fails. What waits for the end leads behind the tail. -/
def finish (tail : List Action) : Step Unit := do
  let (b, _) ← get
  if b.stage = .guarded then epilogue
  expect .epilogue "loop finish"
  setIndex fun index => index.add (.ofNat 1)
  let (b, _) ← get
  modifyList (·.pushSkipTo b.start)
  match b.exit with
  | none => throw (.defect (.noExitSkip "loop"))
  | some exit =>
    modifyBlock ({ · with exit := none })
    resolveAllHere [exit]
    modifyList (·.extend tail)
    modifyBlock ({ · with breaks := [] })
    resolveAllHere b.breaks
    modifyBlock ({ · with stage := .finished })

end LoopBlock

end SkipCode
