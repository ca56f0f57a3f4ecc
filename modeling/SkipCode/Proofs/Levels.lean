import SkipCode.Proofs.Composition

/-!
# Loops and bodies are closed again

What lowering opens it closes: behind every statement and every expression that is lowered as many
loops are open as before, and the same bodies with the same loops of their callers (`Lower.Level`).
This needs no assumption on the unit, which may have gone past exhaustions.
-/

namespace SkipCode

open Lower
open Source (Branch Expr Place Stmt StmtKind)

/-- How many of the open loops belong to the callers of each open body, the innermost body first. -/
def UnitState.floors (s : UnitState) : List Nat := s.frames.map Frame.loopFloor

namespace Lower

variable {α β γ : Type}

/-- A step behind which the open bodies and the number of open loops follow from those before it. -/
def Levels (floors : List Nat → List Nat) (depth : Nat → Nat) (m : Lower α) : Prop :=
  ∀ (s : UnitState) a t, run m s = some (.ok a, t) →
    t.floors = floors s.floors ∧ t.loops.depth = depth s.loops.depth

/-- A step that leaves open what was open. -/
abbrev Level (m : Lower α) : Prop := Levels id id m

namespace Levels

variable {floors floors' : List Nat → List Nat} {depth depth' : Nat → Nat}

/-- The changes of two steps are made one behind the other. -/
theorem bind {m : Lower α} {f : α → Lower β} (hm : Levels floors depth m)
    (hf : ∀ a, Levels floors' depth' (f a)) :
    Levels (floors' ∘ floors) (depth' ∘ depth) (m >>= f) := by
  intro s b t h
  obtain ⟨a, u, first, second⟩ := run_bind_ok.1 h
  obtain ⟨floors₁, depth₁⟩ := hm s a u first
  obtain ⟨floors₂, depth₂⟩ := hf a u b t second
  exact ⟨by rw [floors₂, floors₁]; rfl, by rw [depth₂, depth₁]; rfl⟩

/-- A frame that is entered has a floor of its own. -/
theorem pushFrame (frame : Frame) : Levels (frame.loopFloor :: ·) id (Lower.pushFrame frame) := by
  intro s a t h
  cases h
  exact ⟨rfl, rfl⟩

theorem pushRegion (region : Region) : Levels id id (Lower.pushRegion region) := by
  intro s a t h
  cases h
  exact ⟨rfl, rfl⟩

/-- It takes its floor along when it is left. -/
theorem closeFrame : Levels List.tail id Lower.closeFrame := by
  intro s a t h
  obtain ⟨frame, frames, list, found, -, rfl⟩ := run_closeFrame_ok h
  refine ⟨?_, rfl⟩
  rw [UnitState.floors, UnitState.floors, UnitState.left, found]
  rfl

end Levels

namespace Level

/-- Level steps one behind the other are level. -/
theorem bind {m : Lower α} {f : α → Lower β} (hm : Level m) (hf : ∀ a, Level (f a)) :
    Level (m >>= f) := Levels.bind hm hf

theorem pure (a : α) : Level (Pure.pure a : Lower α) := by
  intro s b t h
  cases h
  exact ⟨rfl, rfl⟩

/-- With these rules steps are put together of level steps. -/
theorem composes : Composes Lower Level := ⟨pure, bind⟩

/-- A step that adds to the list leaves the bodies and the loops alone. -/
theorem plain {m : Lower α} (hm : Plain m) : Level m := by
  intro s a t h
  obtain ⟨actions, adds⟩ := hm s a t h
  exact ⟨by rw [UnitState.floors, adds.frames]; rfl, by rw [adds.loops]; rfl⟩

theorem get : Level (MonadState.get : Lower UnitState) := plain .get

theorem throw (e : LowerError) : Level (MonadExcept.throw e : Lower α) := plain (.throw e)

theorem lift (x : Except LowerError α) : Level (liftM x : Lower α) := plain (.lift x)

/-- A change of what neither the bodies nor the number of open loops have to do with. -/
theorem change {f : UnitState → UnitState} (floors : ∀ s, (f s).floors = s.floors)
    (depth : ∀ s, (f s).loops.depth = s.loops.depth) : Level (modify f : Lower PUnit) := by
  intro s a t h
  cases h
  exact ⟨floors s, depth s⟩

/-- The list has nothing to do with frames and loops. -/
theorem modifyList (f : ActionList → ActionList) : Level (Lower.modifyList f) :=
  change (fun _ => rfl) fun _ => rfl

theorem emit (actions : List Action) : Level (Lower.emit actions) := modifyList _

theorem position : Level Lower.position := .bind .get fun _ => .pure _

theorem pushSkip : Level Lower.pushSkip :=
  .bind .position fun _ => .bind (.modifyList _) fun _ => .pure _

theorem resolveHere (position : Nat) : Level (Lower.resolveHere position) :=
  .bind .get fun _ => .bind (.lift _) fun _ => .modifyList _

theorem openScope : Level Lower.openScope := change (fun _ => rfl) fun _ => rfl

theorem closeScope : Level Lower.closeScope := by
  intro s a t h
  obtain ⟨scope, rest, σ, -, -, rfl⟩ := run_closeScope_ok h
  exact ⟨rfl, rfl⟩

/-- A step in a scope of its own is level when it is. -/
theorem inScope {m : Lower α} (hm : Level m) : Level (Lower.inScope m) :=
  .bind .openScope fun _ => .bind hm fun _ => .bind .closeScope fun _ => .pure _

/-- A body in a scope of its own is entered and left. -/
theorem inBody {frame : Frame} {m : Lower Unit} (hm : Level m) : Level (do
    Lower.inScope (do
      Lower.pushFrame frame
      m)
    Lower.closeFrame) := by
  have inside : Levels (frame.loopFloor :: ·) id (Lower.inScope (do
      Lower.pushFrame frame
      m)) :=
    Levels.bind Level.openScope fun _ => Levels.bind (Levels.bind (.pushFrame frame) fun _ => hm)
      fun _ => Levels.bind Level.closeScope fun _ => Level.pure _
  exact Levels.bind inside fun _ => .closeFrame

theorem popRegion : Level Lower.popRegion := by
  intro s region t h
  obtain ⟨regions, -, rfl⟩ := run_popRegion_ok h
  exact ⟨rfl, rfl⟩

/-- The end of a region opens no loop. -/
theorem dispatch (address : IndexedVar) (number : Nat) (sites : List Nat) :
    Level (Lower.dispatch address number sites) := by
  induction sites generalizing number with
  | nil => exact .pure _
  | cons site rest ih =>
    exact .bind (.emit _) fun _ => .bind (.modifyList _) fun _ => ih (number + 1)

/-- Nor does a call from inside it. -/
theorem callRegion (index : Nat) (region : Region) (receiver : Option Element)
    (arguments : List Element) : Level (Lower.callRegion index region receiver arguments) := by
  intro s a t h
  rw [run_callRegion] at h
  cases h
  exact ⟨rfl, rfl⟩

/-- The blocks of branches are no loops. -/
theorem closeArm (block : IfBlock) (tail : List Action) (chain : IfChain) (more : Bool) :
    Level (Lower.closeArm block tail chain more) := by
  have rest {last : Lower IfChain} (hlast : Level last) : Level (do
      let finished ← (block.finish (← MonadState.get).list : Except LowerError _)
      Lower.modifyList fun _ => finished.2
      Lower.emit tail
      last) :=
    .bind .get fun _ => .bind (.lift _) fun _ => .bind (.modifyList _) fun _ =>
      .bind (.emit _) fun _ => hlast
  unfold Lower.closeArm
  dsimp only
  split
  · exact .bind .get fun _ => .bind (.modifyList _) fun _ => rest (.pure _)
  · split
    · exact rest (.pure chain)
    · exact .bind .pushSkip fun skip => rest (.bind (.resolveHere skip) fun _ => .pure chain)

theorem closeChain (chain : IfChain) : Level (Lower.closeChain chain) :=
  .bind .get fun _ => .bind (.lift _) fun _ => .modifyList _

/-- A skip that waits for a loop opens and closes none. -/
theorem leaveLoop {depth : UInt32} {exit : String}
    {wait : LoopStack → (floor skip : Nat) → Except LowerError LoopStack}
    (waits : ∀ {s t : LoopStack} {floor skip : Nat}, wait s floor skip = .ok t →
      t.depth = s.depth) :
    Level (Lower.leaveLoop depth exit wait) := by
  intro s a t h
  obtain ⟨frame, frames, target, loops, -, -, added, rfl⟩ := run_leaveLoop_ok h
  exact ⟨rfl, waits added⟩

/-- An exit is noted in a loop, which stays open. -/
theorem «break» (depth : UInt32) : Level (Lower.leaveLoop depth "break" (·.addBreak depth)) :=
  .leaveLoop fun added => (LoopStack.grows_addBreak added).length_eq.symm

theorem «continue» (depth : UInt32) :
    Level (Lower.leaveLoop depth "continue" (·.addContinue depth)) :=
  .leaveLoop fun added => (LoopStack.grows_addContinue added).length_eq.symm

/-- A return is noted in a frame, which stays open. -/
theorem leaveFrame (value : Option Element) : Level (Lower.leaveFrame value) := by
  intro s a t h
  obtain ⟨frame, frames, found, rfl⟩ := run_leaveFrame_ok h
  refine ⟨?_, rfl⟩
  rw [UnitState.floors, UnitState.floors, found]
  rfl

end Level

end Lower

/-- The lowering of bodies leaves open what was open. -/
structure Expander.Level (into : Expander) : Prop where
  block : ∀ body, Lower.Level (into.block body)
  initial : ∀ e, Lower.Level (into.initial e)

namespace Expander.Level

variable {into : Expander}

/-- The frame of an expanded body is closed at its end, with all its loops. -/
theorem expandBody (bodies : into.Level) (key : String) (params : List String) (body : List Stmt)
    (receiver : Option Element) (arguments : List Element) (result : Option IndexedVar) :
    Lower.Level (Lower.expandBody into key params body receiver arguments result) := by
  rw [expandBody_eq]
  exact .bind (.bind .get fun _ => .pure _) fun frame => .inBody
    (.bind (.plain (Plain.rules.bindCall _ _ _)) fun _ => bodies.block _)

/-- So is that of a region. -/
theorem expandRegion (bodies : into.Level) (key : String) (params : List String)
    (body : List Stmt) (receiver : Option Element) (arguments : List Element) :
    Lower.Level (Lower.expandRegion into key params body receiver arguments) := by
  have closed (address : IndexedVar) : Levels List.tail id (closeRegion address) :=
    Levels.bind .closeFrame fun _ => Lower.Level.bind .popRegion fun _ =>
      Lower.Level.bind (.emit _) fun _ => .pure _
  have framed (frame : Frame) (region : Region) (address : IndexedVar) : Lower.Level (do
      pushFrame frame
      pushRegion region
      into.block body
      closeRegion address) := by
    have opened := Levels.bind (.pushRegion region) fun _ =>
      Levels.bind (bodies.block body) fun _ => closed address
    exact Levels.bind (.pushFrame frame) fun _ => opened
  rw [expandRegion_eq]
  refine .bind (.plain (.temp _)) fun result => .bind (.plain (.temp _)) fun address =>
    .bind (.bind .get fun _ => .pure _) fun outer => ?_
  exact .bind (.inScope (.bind (.plain (Plain.rules.openRegion _ _ _ _ _)) fun region =>
    framed _ region address)) fun _ => .bind (.dispatch _ _ _) fun _ => .pure _

/-- Whichever way a call is expanded, it is level. -/
theorem expandCall (bodies : into.Level) (callee : Callee) (receiver : Option Element)
    (arguments : List Element) : Lower.Level (Lower.expandCall into callee receiver arguments) := by
  have result (m : Lower Element) (hm : Lower.Level m) : Lower.Level (m >>= materialize) :=
    .bind hm fun _ => .plain (Plain.rules.materialize _)
  refine .bind .get fun s => ?_
  dsimp only
  split
  · split
    · exact result _ (.callRegion _ _ _ _)
    · exact result _ (bodies.expandRegion _ _ _ _ _)
  · split
    · exact .bind (.throw _) fun _ => .plain (Plain.rules.materialize _)
    · exact .bind (.plain (.temp _)) fun _ => .bind (bodies.expandBody _ _ _ _ _ _) fun _ =>
        .plain (Plain.rules.materialize _)

/-- The initial values of fields are expressions, one by one. -/
theorem initializeFields (bodies : into.Level) (this : Element)
    (fields : List (Nat × Option Expr)) :
    Lower.Level (Lower.initializeFields into this fields) := by
  refine .bind (.bind .get fun _ => .pure _) fun frame =>
    .inBody (.bind (.plain (.bindName _ _)) fun _ =>
    Lower.Level.composes.forM fun field _ => ?_)
  have write (value : Element) : Lower.Level (do
      emit ((← onStorage (ClassStorage.fieldStack field.1)).set value none [this])) :=
    .bind (.plain (.onStorage (.ofKeeps (.fieldStack _)))) fun _ => .emit _
  obtain ⟨stack, initial⟩ := field
  cases initial with
  | none => exact .bind (.pure _) fun _ => write _
  | some e => exact .bind (bodies.initial e) fun _ => write _

/-- A new instance is made by level steps: its fields, then its constructor. -/
theorem expandNew (bodies : into.Level) (className : String) (constructorIndex : Nat)
    (arguments : List Element) :
    Lower.Level (Lower.expandNew into className constructorIndex arguments) := by
  intro s x t h
  obtain ⟨constructor, fields, hidden, s₁, handle, s₂, layout, s₃, s₄, s₅, -, -, hhidden, hdeclare,
    -, hprepare,
    hacquire, hfields, hbody, rfl⟩ := run_expandNew_ok h
  have named := Lower.Level.plain (Plain.hiddenName _) _ _ _ hhidden
  have declared := Lower.Level.plain (Plain.rules.declare _ _ _) _ _ _ hdeclare
  have prepared := Lower.Level.plain (.onStorage (.ofKeeps (.prepare _))) _ _ _ hprepare
  have acquired := Lower.Level.plain (.onStorage (.acquireHandle _ _)) _ _ _ hacquire
  have filled := bodies.initializeFields _ _ _ _ _ hfields
  have constructed := bodies.expandBody _ _ _ _ _ _ _ _ _ hbody
  exact ⟨by rw [constructed.1, filled.1, acquired.1, prepared.1, declared.1, named.1]; rfl,
    by rw [constructed.2, filled.2, acquired.2, prepared.2, declared.2, named.2]; rfl⟩

/-- With these rules expressions are level. -/
theorem exprRules (bodies : into.Level) : Lower.ExprRules into Lower.Level where
  pure := .pure
  bind := .bind
  lookup name := fun s v t h => by
    obtain rfl := run_lookup_ok h
    exact ⟨rfl, rfl⟩
  fieldVar className field handle := fun s v t h =>
    have adds := Silent.fieldVar className field handle s v t h
    ⟨congrArg (List.map Frame.loopFloor) adds.frames, congrArg LoopStack.depth adds.loops⟩
  staticVar className field := fun s v t h =>
    have adds := Silent.staticVar className field s v t h
    ⟨congrArg (List.map Frame.loopFloor) adds.frames, congrArg LoopStack.depth adds.loops⟩
  actorVar name := fun s v t h => by
    obtain ⟨rfl, -⟩ := run_actorVar_ok h
    exact ⟨rfl, rfl⟩
  resolveCallee className method := fun s v t h => by
    obtain rfl := run_resolveCallee_ok h
    exact ⟨rfl, rfl⟩
  checkArity callee arguments := fun s v t h => by
    obtain ⟨-, rfl⟩ := run_checkArity_ok h
    exact ⟨rfl, rfl⟩
  expandNew := bodies.expandNew
  expandCall := bodies.expandCall

end Expander.Level

/-! ## Loops of the source -/

/-- A loop of the source, without what comes before its first round. -/
inductive Source.Loop where
  | while (condition : Expr) (body : List Stmt)
  | for (condition : Expr) (step : Option Stmt) (body : List Stmt)
  | forEach (element : String) (index : Option String) (array : Element) (body : List Stmt)

namespace Source.Loop

def body : Loop → List Stmt
  | .while _ body => body
  | .for _ _ body => body
  | .forEach _ _ _ body => body

/-- What a loop does between its rounds. -/
def step : Loop → Option Stmt
  | .for _ step _ => step
  | _ => none

/-- Opens a loop, and the scope of its body. -/
def enter (into : Expander) : Loop → Lower (LoopBlock × List Action)
  | .while condition _ => do
    let x ← openLoop into .while condition
    openScope
    return x
  | .for condition _ _ => do
    let x ← openLoop into .for condition
    openScope
    return x
  | .forEach element index array _ => do
    let (block, current) ← openForEach index array
    openScope
    bind element (.reference current)
    return (block, [])

/-- Lowers a loop up to the end of its body, which is where its epilogue starts. -/
def round (into : Expander) (l : Loop) : Lower (LoopBlock × List Action) := do
  let x ← l.enter into
  lowerStmts into l.body
  closeScope
  return x

/-- Lowers the step of a loop. -/
def between (into : Expander) (l : Loop) : Lower Unit :=
  match l.step with
  | some s => inScope (lowerStmt into s)
  | none => pure ()

/-- Closes a loop whose body is lowered. -/
def leave (into : Expander) (x : LoopBlock × List Action) : Loop → Lower Unit
  | .for condition step body => do
    let block ← onLoop x.1 LoopBlock.epilogue
    (Loop.for condition step body).between into
    closeLoop block x.2
  | _ => closeLoop x.1 x.2

def lower (into : Expander) (l : Loop) : Lower Unit := do
  let x ← l.round into
  l.leave into x

end Source.Loop

section

variable {into : Expander}

/-- A loop with a condition is lowered as one. -/
theorem lowerKind_while (condition : Expr) (body : List Stmt) :
    lowerKind into (.while condition body) = (Source.Loop.while condition body).lower into := by
  simp only [lowerKind, Source.Loop.lower, Source.Loop.round, Source.Loop.enter, Source.Loop.leave,
    Source.Loop.body,
    inScope, bind_assoc, pure_bind]
  
/-- A loop with a start is lowered in a scope that has the start. -/
theorem lowerKind_for (start : Option Stmt) (condition : Expr) (step : Option Stmt)
    (body : List Stmt) : lowerKind into (.for start condition step body) = inScope (do
      match start with
      | some s => lowerStmt into s
      | none => pure ()
      (Source.Loop.for condition step body).lower into) := by
  cases start <;> cases step <;>
    simp only [lowerKind, Source.Loop.lower, Source.Loop.round, Source.Loop.enter,
      Source.Loop.leave, Source.Loop.body,
      Source.Loop.between, Source.Loop.step, inScope, bind_assoc, pure_bind]

/-- A loop over an array is lowered in a scope that has its variables. -/
theorem lowerKind_forEach (element : String) (index : Option String) (array : Expr)
    (body : List Stmt) : lowerKind into (.forEach element index array body) = (do
      let array ← lowerExpr into array
      inScope ((Source.Loop.forEach element index array body).lower into)) := by
  simp only [lowerKind, Source.Loop.lower, Source.Loop.round, Source.Loop.enter, Source.Loop.leave,
    Source.Loop.body,
    inScope, bind_assoc, pure_bind]

end

namespace Lower

variable {α : Type} {into : Expander}

/-! ### What the steps of a loop open and close -/

/-- A loop that is set up is one more loop. -/
theorem Levels.setup (kind : LoopKind) (scopes : Nat) :
    Levels id (· + 1) (onLoop (.new kind) (LoopBlock.setup scopes)) := by
  intro s block t h
  obtain ⟨flow, begun, rfl⟩ := run_onLoop_ok.1 h
  obtain ⟨zero, -, -, rfl⟩ := LoopBlock.run_setup_ok begun
  exact ⟨rfl, rfl⟩

/-- Its guard opens and closes nothing. -/
theorem Level.guard (block : LoopBlock) (condition : Option Element) :
    Level (onLoop block (LoopBlock.guard condition)) := by
  intro s block' t h
  obtain ⟨flow, guarded, rfl⟩ := run_onLoop_ok.1 h
  obtain ⟨exit, -, -, rfl⟩ := LoopBlock.run_guard_ok guarded
  exact ⟨rfl, rfl⟩

/-- At its epilogue it is not open any more. -/
theorem Levels.epilogue (block : LoopBlock) :
    Levels id (· - 1) (onLoop block LoopBlock.epilogue) := by
  intro s block' t h
  obtain ⟨frame, rest, list, found, -, -, -, rfl⟩ := run_epilogue_ok h
  refine ⟨rfl, ?_⟩
  show s.loops.frames.tail.length = s.loops.frames.length - 1
  rw [found]
  rfl

theorem Level.closeCondition : Level Lower.closeCondition :=
  .bind .get fun _ => .bind .closeScope fun _ => .pure _

theorem Level.expr (bodies : into.Level) (e : Expr) : Level (lowerExpr into e) :=
  bodies.exprRules.expr e

theorem Level.exprs (bodies : into.Level) (es : List Expr) : Level (lowerExprs into es) :=
  bodies.exprRules.exprs es

theorem Level.bindName (name : String) (v : Variable) : Level (Lower.bind name v) :=
  .plain (.bindName _ _)

/-- Behind its test one more loop is open. -/
theorem Levels.openLoop (bodies : into.Level) (kind : LoopKind) (condition : Expr) :
    Levels id (· + 1) (Lower.openLoop into kind condition) := by
  have guarded (block : LoopBlock) : Level (do
      let condition ← openCondition into condition
      let block ← onLoop block (LoopBlock.guard (some condition))
      return (block, ← Lower.closeCondition)) :=
    .bind (.bind .openScope fun _ => .expr bodies condition) fun _ => .bind (.guard _ _) fun _ =>
      .bind .closeCondition fun _ => .pure _
  exact Levels.bind Level.get fun _ => Levels.bind (.setup _ _) guarded

/-- So it is behind the start of a loop over an array. -/
theorem Levels.openForEach (index : Option String) (array : Element) :
    Levels id (· + 1) (Lower.openForEach index array) := by
  intro s x t h
  obtain ⟨name, u, v, w, zero, hname, hdeclare, -, -, -, rfl⟩ := run_openForEach_ok h
  have named := Level.plain (fun s a t h => ⟨[], plain_indexName index s a t h⟩) _ _ _ hname
  have declared := Level.plain (Plain.rules.declare _ _ _) _ _ _ hdeclare
  exact ⟨declared.1.trans named.1, congrArg (· + 1) (declared.2.trans named.2)⟩

end Lower

namespace Source.Loop

variable {into : Expander} {l : Loop} {x : LoopBlock × List Action} {s t : UnitState}

/-- The guard of a loop that is entered is written. -/
theorem guarded_of_enter (h : run (l.enter into) s = some (.ok x, t)) : x.1.stage = .guarded := by
  cases l with
  | «while» condition body =>
    obtain ⟨⟨block, tail⟩, u, opened, h₁⟩ := run_bind_ok.1 h
    cases h₁
    obtain ⟨-, -, -, rfl, -⟩ := run_openLoop_ok (fun _ _ e => by cases e) opened
    rfl
  | «for» condition step body =>
    obtain ⟨⟨block, tail⟩, u, opened, h₁⟩ := run_bind_ok.1 h
    cases h₁
    obtain ⟨-, -, -, rfl, -⟩ := run_openLoop_ok (fun _ _ e => by cases e) opened
    rfl
  | forEach element index array body =>
    obtain ⟨⟨block, current⟩, u, opened, h₁⟩ := run_bind_ok.1 h
    obtain ⟨_, _, ⟨⟩, h₂⟩ := run_bind_ok.1 h₁
    obtain ⟨_, _, -, h₃⟩ := run_bind_ok.1 h₂
    cases h₃
    obtain ⟨-, -, -, -, -, -, -, -, -, rfl, -⟩ := run_openForEach_ok opened
    rfl

/-- A round is the start of the loop and its body, in the scope of the body. -/
theorem run_round_ok {into : Expander} {l : Loop} {x : LoopBlock × List Action} {s t : UnitState} :
    run (l.round into) s = some (.ok x, t) ↔ ∃ o e, run (l.enter into) s = some (.ok x, o) ∧
      run (lowerStmts into l.body) o = some (.ok (), e) ∧ run closeScope e = some (.ok (), t) := by
  constructor
  · intro h
    obtain ⟨x, o, entered, h₁⟩ := run_bind_ok.1 h
    obtain ⟨_, e, lowered, h₂⟩ := run_bind_ok.1 h₁
    obtain ⟨_, u, closed, h₃⟩ := run_bind_ok.1 h₂
    cases h₃
    exact ⟨o, e, entered, lowered, closed⟩
  · rintro ⟨o, e, entered, lowered, closed⟩
    exact run_bind_ok.2 ⟨x, o, entered, run_bind_ok.2 ⟨(), e, lowered,
      run_bind_ok.2 ⟨(), t, closed, rfl⟩⟩⟩

/-- Whatever the loop, its body is closed, its step lowered, and then the loop closed. -/
theorem run_leave_ok (guarded : x.1.stage = .guarded)
    (h : run (l.leave into x) s = some (.ok (), t)) :
    ∃ block u v, run (onLoop x.1 LoopBlock.epilogue) s = some (.ok block, u) ∧
      run (l.between into) u = some (.ok (), v) ∧
        run (closeLoop block x.2) v = some (.ok (), t) := by
  cases l with
  | «for» condition step body =>
    obtain ⟨block, u, closed, h₁⟩ := run_bind_ok.1 h
    obtain ⟨_, v, stepped, ended⟩ := run_bind_ok.1 h₁
    exact ⟨block, u, v, closed, stepped, ended⟩
  | «while» condition body =>
    obtain ⟨block, u, closed, ended⟩ := run_closeLoop_guarded guarded h
    exact ⟨block, u, u, closed, rfl, ended⟩
  | forEach element index array body =>
    obtain ⟨block, u, closed, ended⟩ := run_closeLoop_guarded guarded h
    exact ⟨block, u, u, closed, rfl, ended⟩

/-- A loop is a round, its epilogue, what stands between the rounds, and its end. -/
theorem run_lower_ok (h : run (l.lower into) s = some (.ok (), t)) :
    ∃ x r block u v, run (l.round into) s = some (.ok x, r) ∧
      run (onLoop x.1 LoopBlock.epilogue) r = some (.ok block, u) ∧
      run (l.between into) u = some (.ok (), v) ∧
        run (closeLoop block x.2) v = some (.ok (), t) := by
  obtain ⟨x, r, round, left⟩ := run_bind_ok.1 h
  obtain ⟨o, -, entered, -, -⟩ := run_round_ok.1 round
  obtain ⟨block, u, v, closed, stepped, ended⟩ := run_leave_ok (guarded_of_enter entered) left
  exact ⟨x, r, block, u, v, round, closed, stepped, ended⟩

/-- In its body a loop is open. -/
theorem levels_enter (bodies : into.Level) (l : Loop) : Levels id (· + 1) (l.enter into) := by
  cases l with
  | «while» condition body =>
    exact Levels.bind (.openLoop bodies _ _) fun _ => Level.bind .openScope fun _ => .pure _
  | «for» condition step body =>
    exact Levels.bind (.openLoop bodies _ _) fun _ => Level.bind .openScope fun _ => .pure _
  | forEach element index array body =>
    exact Levels.bind (.openForEach _ _) fun _ => Level.bind .openScope fun _ =>
      Level.bind (.bindName _ _) fun _ => .pure _

/-- Behind its round it still is. -/
theorem levels_round (bodies : into.Level) (inside : Level (lowerStmts into l.body)) :
    Levels id (· + 1) (l.round into) :=
  Levels.bind (levels_enter bodies l) fun _ => Level.bind inside fun _ =>
    Level.bind .closeScope fun _ => .pure _

/-- A loop is closed again when its body and its step leave open what was open. -/
theorem level_lower (bodies : into.Level) (inside : Level (lowerStmts into l.body))
    (between : ∀ s, l.step = some s → Level (lowerStmt into s)) : Level (l.lower into) := by
  intro s _ t h
  obtain ⟨x, r, block, u, v, round, closed, stepped, ended⟩ := run_lower_ok h
  obtain ⟨floors₁, depth₁⟩ := levels_round bodies inside s x r round
  obtain ⟨floors₂, depth₂⟩ := Levels.epilogue x.1 r block u closed
  have step : Level (l.between into) := by
    unfold Loop.between
    split
    · next s e => exact .inScope (between s e)
    · exact .pure _
  obtain ⟨floors₃, depth₃⟩ := step u () v stepped
  -- the loop is off the stack already when it is closed
  have kept : t.floors = v.floors ∧ t.loops.depth = v.loops.depth := by
    obtain ⟨_, _, _, _, -, -, rfl, -⟩ := run_epilogue_ok closed
    obtain ⟨next, exit, list, done, -, -, -, -, rfl⟩ := run_closeLoop_ok rfl ended
    exact ⟨rfl, rfl⟩
  refine ⟨?_, ?_⟩
  · rw [kept.1, floors₃, floors₂, floors₁]
    rfl
  · rw [kept.2, depth₃, depth₂, depth₁]
    rfl

end Source.Loop

namespace Lower.Level

variable {α : Type} {into : Expander}

theorem located (span : Source.Span) {m : Lower α} (hm : Level m) :
    Level (Lower.located span m) := by
  intro s a t h
  obtain ⟨x, u, ran, e, rfl⟩ := run_located h
  cases x with
  | error _ => cases e
  | ok b => exact hm { s with span := span } b u ran

/-- An assignment opens and closes nothing. -/
theorem assign (bodies : into.Level) (target : Place) (index : List Element)
    (op : Source.AssignOp) (value : Expr) : Level (Lower.assign into target index op value) := by
  have rules := bodies.exprRules
  cases target with
  | var name =>
    exact .bind (rules.lookup _) fun _ => .bind (expr bodies value) fun _ =>
      .bind (.lift _) fun _ =>
      .emit _
  | field object className field =>
    exact .bind (expr bodies object) fun _ => .bind (rules.fieldVar _ _ _) fun _ =>
      .bind (expr bodies value) fun _ => .emit _
  | staticField className field =>
    exact .bind (rules.staticVar _ _) fun _ => .bind (expr bodies value) fun _ => .emit _
  | actorVar actor name =>
    exact .bind (rules.actorVar _) fun _ => .bind (expr bodies actor) fun _ =>
      .bind (expr bodies value) fun _ => .bind (.lift _) fun _ => .emit _

theorem delete (bodies : into.Level) (object : Expr) (className : String) :
    Level (Lower.delete into object className) :=
  .bind (expr bodies object) fun _ => .bind (.plain (.hiddenName _)) fun _ =>
    .bind (.plain (Plain.rules.declare _ _ _)) fun _ => .bind .get fun _ =>
      .plain (.onStorage (.release _ _ _))

theorem openArm (bodies : into.Level) (condition : Expr) : Level (Lower.openArm into condition) :=
  .bind (.bind .openScope fun _ => expr bodies condition) fun _ => .bind .get fun _ =>
    .bind (.lift _) fun _ => .bind (.modifyList _) fun _ => .bind .closeCondition fun _ => .pure _

mutual

/-- A statement is level: all loops and frames that it opens it closes. -/
theorem stmt (bodies : into.Level) : (s : Stmt) → Level (lowerStmt into s)
  | .mk k span => by
    rw [lowerStmt]
    exact .located span (kind bodies k)

theorem kind (bodies : into.Level) : (k : StmtKind) → Level (lowerKind into k)
  | .define name initial recursive => by
    rw [lowerKind]
    exact .bind (composes.optionMapM (fun e => expr bodies e) _) fun _ =>
      composes.map _ (.plain (Plain.rules.declare _ _ _))
  | .assign target index op value => by
    rw [lowerKind]
    exact .bind (exprs bodies index) fun _ => assign bodies _ _ _ _
  | .cond branches none => by
    rw [lowerKind]
    exact .bind (arms bodies _ _ branches) fun _ => .closeChain _
  | .cond branches (some body) => by
    rw [lowerKind]
    exact .bind (arms bodies _ _ branches) fun _ => .bind (.inScope (stmts bodies body)) fun _ =>
      .closeChain _
  | .while condition body => by
    rw [lowerKind_while]
    exact Source.Loop.level_lower bodies (stmts bodies body) fun _ e => nomatch e
  | .for start condition step body => by
    have loop : Level ((Source.Loop.for condition step body).lower into) :=
      Source.Loop.level_lower bodies (stmts bodies body) fun s e => by
        cases step with
        | none => cases e
        | some s' =>
          cases e
          exact stmt bodies s
    rw [lowerKind_for]
    refine .inScope ?_
    cases start with
    | none => exact loop
    | some s => exact .bind (stmt bodies s) fun _ => loop
  | .forEach element index array body => by
    rw [lowerKind_forEach]
    exact .bind (expr bodies array) fun _ =>
      .inScope (Source.Loop.level_lower bodies (stmts bodies body) fun _ e => nomatch e)
  | .break depth => by
    rw [lowerKind]
    exact .break depth
  | .continue depth => by
    rw [lowerKind]
    exact .continue depth
  | .return value => by
    rw [lowerKind]
    exact .bind (composes.optionMapM (fun e => expr bodies e) _) fun _ => .leaveFrame _
  | .delete object className => by
    rw [lowerKind]
    exact delete bodies _ _
  | .block body => by
    rw [lowerKind]
    exact .inScope (stmts bodies body)
  | .expr value => by
    rw [lowerKind]
    exact composes.map _ (expr bodies value)

theorem stmts (bodies : into.Level) : (body : List Stmt) → Level (lowerStmts into body)
  | [] => by
    rw [lowerStmts]
    exact .pure _
  | s :: rest => by
    rw [lowerStmts]
    exact .bind (stmt bodies s) fun _ => stmts bodies rest

/-- The branches of a condition are level, one by one. -/
theorem arms (bodies : into.Level) (more : Bool) (chain : IfChain) :
    (branches : List Branch) → Level (lowerBranches into more chain branches)
  | [] => by
    rw [lowerBranches]
    exact .pure _
  | .mk condition body :: rest => by
    rw [lowerBranches]
    exact .bind (openArm bodies _) fun _ => .bind (.inScope (stmts bodies body)) fun _ =>
      .bind (.closeArm _ _ _ _) fun _ => arms bodies _ _ rest

end

end Lower.Level

/-- However deep bodies are nested in each other, an expander is level. -/
theorem Expander.Level.expander : (depth : Nat) → (SkipCode.expander depth).Level
  | 0 => ⟨fun _ => .plain (fun s a t h => by cases h), fun _ => .plain (fun s a t h => by cases h)⟩
  | depth + 1 =>
    ⟨fun body => .inScope (.stmts (expander depth) body), fun e => .expr (expander depth) e⟩

end SkipCode
