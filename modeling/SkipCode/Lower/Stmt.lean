import SkipCode.Lower.Expr

/-!
# Lowering statements

A condition is lowered in a scope of its own, which stays open until the guard has read it. The
path on which the condition holds then pops what the condition pushed, and the path that skips has
to do the same: that is the *tail* of a conditional or a loop.
-/

namespace SkipCode

open Source (AssignOp Branch Expr Place Stmt StmtKind)

namespace Lower

/-! ## Assignments -/

/-- The value that an assignment writes: the new one, or the old one at the index combined with
it. -/
def combine (op : AssignOp) (current : Element) (index : List Element) (value : Element) :
    Element :=
  match op.binary? with
  | none => value
  | some op => .binary op (IndexedVar.descend current index) value

/-- Writes an assignment whose index is lowered already. -/
def assign (into : Expander) (target : Place) (index : List Element) (op : AssignOp)
    (value : Expr) : Lower Unit :=
  match target with
  | .var name => do
    let v ← lookup name
    let value := combine op v.get index (← lowerExpr into value)
    emit (← (v.set name value index : Except LowerError _))
  | .field object className field => do
    let handle ← lowerExpr into object
    let v ← fieldVar className field handle
    let value := combine op (v.get none) index (← lowerExpr into value)
    emit (v.set value none index)
  | .staticField className field => do
    let v ← staticVar className field
    let value := combine op (v.get none) index (← lowerExpr into value)
    emit (v.set value none index)
  | .actorVar actor name => do
    let v ← actorVar name
    let actor ← lowerExpr into actor
    let value := combine op (v.getFor (some actor)) index (← lowerExpr into value)
    emit (← (v.setFor name value (some actor) index : Except LowerError _))

/-- Writes a `delete`. -/
def delete (into : Expander) (object : Expr) (className : String) : Lower Unit := do
  let handle ← lowerExpr into object
  let handle := (← declare (← hiddenName "delete") (some handle) false).get
  onStorage (ClassStorage.release (← get).session.classes className handle)

/-! ## Conditions -/

/-- Lowers a condition in a scope that stays open. -/
def openCondition (into : Expander) (condition : Expr) : Lower Element := do
  openScope
  lowerExpr into condition

/-- Closes the scope of a condition where it holds, and gives the pops for where it does not. -/
def closeCondition : Lower (List Action) := do
  let s ← get
  let tail := pendingPops s (s.scopes.length - 1)
  closeScope
  return tail

/-! ## Conditionals -/

/-- Opens one arm of a conditional: its condition and the skip over its body. -/
def openArm (into : Expander) (condition : Expr) : Lower (IfBlock × List Action) := do
  let condition ← openCondition into condition
  let (block, list) ← (IfBlock.new.setup condition (← get).list : Except LowerError _)
  modifyList fun _ => list
  return (block, ← closeCondition)

/-- Closes an arm. Where its condition failed the tail runs; the path through the body goes round
it, by the skip to the end of the chain when there is more to come, else by a skip of its own. -/
def closeArm (block : IfBlock) (tail : List Action) (chain : IfChain) (more : Bool) :
    Lower IfChain := do
  let (chain, overTail) ←
    if more then do
      let (chain, list) := chain.skipToEnd (← get).list
      modifyList fun _ => list
      pure (chain, none)
    else if tail.isEmpty then pure (chain, none)
    else do pure (chain, some (← pushSkip))
  let (_, list) ← (block.finish (← get).list : Except LowerError _)
  modifyList fun _ => list
  emit tail
  match overTail with
  | some skip => resolveHere skip
  | none => pure ()
  return chain

def closeChain (chain : IfChain) : Lower Unit := do
  let list ← (chain.finish (← get).list : Except LowerError _)
  modifyList fun _ => list

/-! ## Loops -/

/-- Opens a loop with a condition: its start, the condition and the skip out of it. -/
def openLoop (into : Expander) (kind : LoopKind) (condition : Expr) :
    Lower (LoopBlock × List Action) := do
  let block ← onLoop (.new kind) (LoopBlock.setup (← get).scopes.length)
  let condition ← openCondition into condition
  let block ← onLoop block (LoopBlock.guard (some condition))
  return (block, ← closeCondition)

def closeLoop (block : LoopBlock) (tail : List Action) : Lower Unit :=
  discard (onLoop block (LoopBlock.finish tail))

/-- Opens a loop over an array, with its index declared; gives the element its body sees. -/
def openForEach (index : Option String) (array : Element) : Lower (LoopBlock × Element) := do
  let name ← match index with
    | some name => pure name
    | none => hiddenName "index"
  let index ← declare name none false
  let block ← onLoop (.new (.forEach array index)) (LoopBlock.setup (← get).scopes.length)
  let block ← onLoop block (LoopBlock.guard none)
  match block.element? with
  | some element => return (block, element)
  | none => throw (.defect .noLoopElement)

/-- Leaves a loop, or its round, in the middle: pops what was pushed since the loop began, pushes a
skip, and lets it wait as `wait` says. -/
def leaveLoop (depth : UInt32) (exit : String)
    (wait : LoopStack → (floor skip : Nat) → Except LowerError LoopStack) : Lower Unit := do
  let floor := (← frame).loopFloor
  let target ← ((← get).loops.frame depth floor exit : Except LowerError LoopFrame)
  unwindTo target.scopeDepth
  let skip ← pushSkip
  let loops ← (wait (← get).loops floor skip : Except LowerError _)
  modify fun s => { s with loops }

/-! ## Returns -/

/-- Lets a skip wait for the end of the innermost frame. -/
def addReturn (skip : Nat) : Lower Unit := do
  let s ← get
  match s.frames with
  | frame :: rest =>
    set { s with frames := { frame with returns := frame.returns ++ [skip] } :: rest }
  | [] => throw (.defect .returnOutsideFrame)

/-- Leaves the innermost frame: stores the value where the frame wants it, pops what was pushed,
and skips to the end of the frame. -/
def leaveFrame (value : Option Element) : Lower Unit := do
  let frame ← frame
  match value, frame.result with
  | some value, some result => emit (result.set value none [])
  | _, _ => pure ()
  unwindTo frame.scopeDepth
  addReturn (← pushSkip)

end Lower

open Lower in
mutual

/-- Lowers a statement; what fails in it is reported at its position. -/
def lowerStmt (into : Expander) : Stmt → Lower Unit
  | .mk kind span => located span (lowerKind into kind)

def lowerKind (into : Expander) : StmtKind → Lower Unit
  | .define name initial recursive => do
    let initial ← initial.mapM (lowerExpr into)
    discard (declare name initial recursive)
  | .assign target index op value => do
    let index ← lowerExprs into index
    assign into target index op value
  | .cond branches otherwise => do
    let chain ← lowerBranches into otherwise.isSome .new branches
    match otherwise with
    | some body => inScope (lowerStmts into body)
    | none => pure ()
    closeChain chain
  | .while condition body => do
    let (block, tail) ← openLoop into .while condition
    inScope (lowerStmts into body)
    closeLoop block tail
  | .for start condition step body => inScope do
    match start with
    | some s => lowerStmt into s
    | none => pure ()
    let (block, tail) ← openLoop into .for condition
    inScope (lowerStmts into body)
    let block ← onLoop block LoopBlock.epilogue
    match step with
    | some s => inScope (lowerStmt into s)
    | none => pure ()
    closeLoop block tail
  | .forEach element index array body => do
    let array ← lowerExpr into array
    inScope do
      let (block, current) ← openForEach index array
      inScope do
        bind element (.reference current)
        lowerStmts into body
      closeLoop block []
  | .break depth => leaveLoop depth "break" (·.addBreak depth)
  | .continue depth => leaveLoop depth "continue" (·.addContinue depth)
  | .return value => do leaveFrame (← value.mapM (lowerExpr into))
  | .delete object className => delete into object className
  | .block body => inScope (lowerStmts into body)
  | .expr value => discard (lowerExpr into value)

def lowerStmts (into : Expander) : List Stmt → Lower Unit
  | [] => pure ()
  | s :: rest => do
    lowerStmt into s
    lowerStmts into rest

/-- Lowers the arms of a conditional; `more` says whether something follows the last one. -/
def lowerBranches (into : Expander) (more : Bool) (chain : IfChain) : List Branch → Lower IfChain
  | [] => pure chain
  | .mk condition body :: rest => do
    let (block, tail) ← openArm into condition
    inScope (lowerStmts into body)
    let chain ← closeArm block tail chain (!rest.isEmpty || more)
    lowerBranches into more chain rest

end

/-- Lowers statements in a scope of their own. -/
def lowerBlock (into : Expander) (body : List Stmt) :
    Lower Unit := Lower.inScope (lowerStmts into body)

end SkipCode
