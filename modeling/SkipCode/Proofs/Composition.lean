import SkipCode.Proofs.Pools
import SkipCode.Proofs.Slotless

/-!
# What lowering is composed of

All of lowering is composed of a few kinds of steps (`Lower.Composed`): those that have to do with
no slot, those that take a slot, those that open and close a scope, and those on the storage of
instances. What each of these has is had by all of lowering.

`Lower.ComesTo` says which steps, in which state, the run of a composed step comes to on its way. A
step that fails makes all that it is part of fail (`ComesTo.fails`), and behind one that succeeds
what it wrote stays (`ComesTo.ends`).
-/

namespace SkipCode

open Lower
open Source (Branch Expr Place Span Stmt StmtKind)

/-- A step that is composed of the steps that lowering has. -/
inductive Lower.Composed : {α : Type} → Lower α → Prop
  | slotless {α : Type} {m : Lower α} : Slotless m → Composed m
  | openScope : Composed Lower.openScope
  | closeScope : Composed Lower.closeScope
  | bindReference (name : String) (e : Element) : Composed (Lower.bind name (.reference e))
  | temp (what : String) : Composed (Lower.temp what)
  | declareStack (name : String) (initial : Option Element) : Composed
      (Lower.declareStack name initial)
  | declarePlain (name : String) (initial : Option Element) : Composed
      (Lower.declarePlain name initial)
  | onStorage {α : Type} {m : ClassStorage.Step α} : ClassStorage.Orders m → ClassStorage.Adds m →
      Composed (Lower.onStorage m)
  | located {α : Type} {m : Lower α} (span : Span) : Composed m → Composed (Lower.located span m)
  | bind {α β : Type} {m : Lower α} {f : α → Lower β} : Composed m → (∀ a, Composed (f a)) →
      Composed (m >>= f)

namespace Lower.Composed

variable {α β γ : Type}

theorem pure (a : α) : Composed (Pure.pure a : Lower α) := .slotless (.pure a)

/-- With these rules steps are put together of composed ones. -/
theorem composes : Composes Lower Composed := ⟨pure, bind⟩

theorem get : Composed (MonadState.get : Lower UnitState) := .slotless .get

theorem throw (e : LowerError) : Composed (MonadExcept.throw e : Lower α) := .slotless (.throw e)

theorem lift (x : Except LowerError α) : Composed (liftM x : Lower α) := .slotless (.lift x)

theorem emit (actions : List Action) : Composed (Lower.emit actions) := .slotless (.emit actions)

theorem hiddenName (what : String) :
    Composed (Lower.hiddenName what) := .slotless (.hiddenName what)

theorem lookup (name : String) : Composed (Lower.lookup name) := .slotless (.lookup name)

/-- A step without an end. -/
theorem endless : Composed (Lower.endless : Lower α) := by
  refine .slotless ⟨fun s r t h => ?_, fun s a t h => ?_⟩ <;> cases h

/-- A scope around a composed step is composed. -/
theorem inScope {m : Lower α} (hm : Composed m) : Composed (Lower.inScope m) :=
  .bind .openScope fun _ => .bind hm fun _ => .bind .closeScope fun _ => .pure _

/-- With these rules all that declares is composed. -/
theorem rules : DeclareRules Composed where
  toComposes := composes
  get := .get
  hiddenName := .hiddenName
  temp := .temp
  bindReference := .bindReference
  declareStack := .declareStack
  declarePlain := .declarePlain

/-! ## Storage of instances -/

/-- The stacks of a class are made by a step on the storage. -/
theorem prepare (layout : ClassLayout) : Composed (Lower.onStorage (ClassStorage.prepare layout)) :=
  .onStorage (.prepare layout) (.ofKeeps (.prepare layout))

theorem fieldStack (index : Nat) : Composed (Lower.onStorage (ClassStorage.fieldStack index)) :=
  .onStorage (.fieldStack index) (.ofKeeps (.fieldStack index))

/-- The place of a field is found by one. -/
theorem fieldVar (className field : String) (handle : Element) :
    Composed (Lower.fieldVar className field handle) :=
  .bind .get fun _ => .bind (.lift _) fun _ => .bind (.lift _) fun _ => .bind (.prepare _) fun _ =>
    .bind (.fieldStack _) fun _ => .pure _

theorem staticVar (className field : String) : Composed (Lower.staticVar className field) :=
  .bind .get fun _ => .bind (.lift _) fun _ =>
    .onStorage (.staticField _ _) (.ofKeeps (.staticField _ _))

end Lower.Composed

/-- The lowering of bodies is composed of the steps that lowering has. -/
structure Expander.Composed (into : Expander) : Prop where
  block : ∀ body, Lower.Composed (into.block body)
  initial : ∀ e, Lower.Composed (into.initial e)

namespace Expander.Composed

variable {into : Expander}

/-- A body is composed of its frame, its names and its statements. -/
theorem expandBody (bodies : into.Composed) (key : String) (params : List String) (body : List Stmt)
    (receiver : Option Element) (arguments : List Element) (result : Option IndexedVar) :
    Lower.Composed (Lower.expandBody into key params body receiver arguments result) := by
  rw [expandBody_eq]
  exact .bind (.slotless (.expandedFrame _ _)) fun _ =>
    .bind (.inScope (.bind (.slotless (.pushFrame _)) fun _ =>
    .bind (Lower.Composed.rules.bindCall _ _ _) fun _ => bodies.block _)) fun _ =>
      .slotless .closeFrame

/-- A region is composed of its stacks, its statements and its end. -/
theorem expandRegion (bodies : into.Composed) (key : String) (params : List String)
    (body : List Stmt) (receiver : Option Element) (arguments : List Element) :
    Lower.Composed (Lower.expandRegion into key params body receiver arguments) := by
  refine .bind (.temp _) fun _ => .bind (.temp _) fun _ =>
    .bind (.slotless (.expandedFrame _ _)) fun _ =>
    .bind (.inScope (.bind (Lower.Composed.rules.openRegion _ _ _ _ _) fun _ =>
      .bind (.slotless (.pushFrame _)) fun _ =>
      .bind (.slotless (.pushRegion _)) fun _ =>
        .bind (bodies.block _) fun _ => .bind (.slotless .closeFrame) fun _ =>
          .bind (.slotless .popRegion) fun _ =>
          .bind (.emit _) fun _ => .pure _)) fun _ =>
            .bind (.slotless (.dispatch _ _ _)) fun _ => .pure _

/-- What a call comes to, where these bodies and regions are open. -/
theorem expandCallIn (bodies : into.Composed) (s : UnitState) (callee : Callee)
    (receiver : Option Element) (arguments : List Element) : Lower.Composed (do
      let result ←
        if callee.decl.recursive then
          match findRegion? s.regions callee.key with
          | some (index, region) => callRegion index region receiver arguments
          | none =>
            Lower.expandRegion into callee.key callee.decl.params callee.decl.body receiver
              arguments
        else if s.frames.any fun frame => frame.method == some callee.key then
          MonadExcept.throw (.unsupported (.selfCall callee.key))
        else do
          let result ← Lower.temp "ret"
          Lower.expandBody into callee.key callee.decl.params callee.decl.body receiver arguments
            (some result)
          Pure.pure (result.get none)
      Lower.materialize result) := by
  split
  · split
    · exact .bind (.slotless (.callRegion _ _ _ _)) fun _ => Lower.Composed.rules.materialize _
    · exact .bind (bodies.expandRegion _ _ _ _ _) fun _ => Lower.Composed.rules.materialize _
  · split
    · exact .bind (.throw _) fun _ => Lower.Composed.rules.materialize _
    · exact .bind (.temp _) fun _ => .bind (bodies.expandBody _ _ _ _ _ _) fun _ =>
        Lower.Composed.rules.materialize _

/-- A call is composed in whichever way it is expanded. -/
theorem expandCall (bodies : into.Composed) (callee : Callee) (receiver : Option Element)
    (arguments : List Element) :
    Lower.Composed (Lower.expandCall into callee receiver arguments) :=
  .bind .get fun s => bodies.expandCallIn s callee receiver arguments

/-- The initial values of fields are composed of expressions and writes. -/
theorem initializeFields (bodies : into.Composed) (this : Element)
    (fields : List (Nat × Option Expr)) :
    Lower.Composed (Lower.initializeFields into this fields) := by
  refine .bind (.slotless (.expandedFrame _ _)) fun _ =>
    .bind (.inScope (.bind (.slotless (.pushFrame _)) fun _ =>
    .bind (.bindReference _ _) fun _ => Lower.Composed.composes.forM fun field _ => ?_)) fun _ =>
      .slotless .closeFrame
  obtain ⟨stack, initial⟩ := field
  cases initial with
  | none => exact .bind (.pure _) fun _ => .bind (.fieldStack _) fun _ => .emit _
  | some e =>
    exact .bind (bodies.initial e) fun _ => .bind (.fieldStack _) fun _ => .emit _

/-- An instance is composed of its handle, its fields and its constructor. -/
theorem expandNew (bodies : into.Composed) (className : String) (constructorIndex : Nat)
    (arguments : List Element) :
    Lower.Composed (Lower.expandNew into className constructorIndex arguments) := by
  have rest (session : Session) (constructor : Source.ConstructorDecl) : Lower.Composed (do
      let fields ← (fieldInitials session.classes className : Except LowerError _)
      let handle ← Lower.declare (← Lower.hiddenName "new") none false
      let layout ← (session.classes.layout className : Except LowerError _)
      Lower.onStorage (ClassStorage.prepare layout)
      Lower.onStorage (ClassStorage.acquireHandle session.config handle)
      let this := handle.get
      Lower.initializeFields into this fields
      Lower.expandBody into s!"{className}.new#{constructorIndex}" constructor.params
        constructor.body (some this) arguments none
      return this) :=
    .bind (.lift _) fun _ => .bind (.hiddenName _) fun _ =>
      .bind (Lower.Composed.rules.declare _ _ _) fun _ =>
      .bind (.lift _) fun _ => .bind (.prepare _) fun _ =>
        .bind (.onStorage (.acquireHandle _ _) (.acquireHandle _ _)) fun _ =>
          .bind (bodies.initializeFields _ _) fun _ =>
            .bind (bodies.expandBody _ _ _ _ _ _) fun _ => .pure _
  refine .bind .get fun s => .bind (.lift _) fun constructor => ?_
  -- both branches go on with the rest, the first one behind a failure
  split
  · exact .bind (.throw _) fun _ => rest _ _
  · exact rest _ _

/-- What an expression is made of preserves what bodies do. -/
theorem exprRules (bodies : into.Composed) : Lower.ExprRules into Lower.Composed where
  pure := .pure
  bind := .bind
  lookup := .lookup
  fieldVar := .fieldVar
  staticVar := .staticVar
  actorVar name := .slotless (.actorVar name)
  resolveCallee className method := .slotless (.resolveCallee className method)
  checkArity callee arguments := .slotless (.checkArity callee arguments)
  expandNew := bodies.expandNew
  expandCall := bodies.expandCall

end Expander.Composed

namespace Lower.Composed

variable {into : Expander}

/-- Expressions are composed. -/
theorem expr (bodies : into.Composed) (e : Expr) : Composed (lowerExpr into e) :=
  bodies.exprRules.expr e

theorem exprs (bodies : into.Composed) (es : List Expr) : Composed (lowerExprs into es) :=
  bodies.exprRules.exprs es

theorem assign (bodies : into.Composed) (target : Place) (index : List Element)
    (op : Source.AssignOp) (value : Expr) : Composed (Lower.assign into target index op value) := by
  cases target with
  | var name =>
    exact .bind (.lookup _) fun _ => .bind (expr bodies value) fun _ => .bind (.lift _) fun _ =>
      .emit _
  | field object className field =>
    exact .bind (expr bodies object) fun _ => .bind (.fieldVar _ _ _) fun _ =>
      .bind (expr bodies value) fun _ => .emit _
  | staticField className field =>
    exact .bind (.staticVar _ _) fun _ => .bind (expr bodies value) fun _ => .emit _
  | actorVar actor name =>
    exact .bind (.slotless (.actorVar _)) fun _ => .bind (expr bodies actor) fun _ =>
      .bind (expr bodies value) fun _ => .bind (.lift _) fun _ => .emit _

/-- Giving up an instance is composed of its handle and a step on the storage. -/
theorem delete (bodies : into.Composed) (object : Expr) (className : String) :
    Composed (Lower.delete into object className) :=
  .bind (expr bodies object) fun _ => .bind (.hiddenName _) fun _ =>
    .bind (rules.declare _ _ _) fun _ =>
    .bind .get fun _ => .onStorage (.release _ _ _) (.release _ _ _)

theorem openCondition (bodies : into.Composed) (condition : Expr) :
    Composed (Lower.openCondition into condition) := .bind .openScope fun _ => expr bodies condition

theorem closeCondition : Composed Lower.closeCondition :=
  .bind .get fun _ => .bind .closeScope fun _ => .pure _

/-- The guard of an arm is written at once, from the list to the list. -/
theorem guardArm (condition : Element) : Composed (do
    let p ← (IfBlock.new.setup condition (← MonadState.get).list : Except LowerError _)
    Lower.modifyList fun _ => p.2
    return (p.1, ← Lower.closeCondition)) := by
  have guarded := Composed.bind (.slotless (.rewrite (IfBlock.new.setup condition) (·.2)
    fun l p h => by
      cases h
      exact .pushed l _)) fun p => .bind .closeCondition fun tail => .pure (p.1, tail)
  simpa only [bind_assoc, pure_bind] using guarded

theorem openArm (bodies : into.Composed) (condition : Expr) :
    Composed (Lower.openArm into condition) :=
  .bind (.openCondition bodies condition) fun x => .guardArm x

theorem openLoop (bodies : into.Composed) (kind : LoopKind) (condition : Expr) :
    Composed (Lower.openLoop into kind condition) :=
  .bind .get fun _ => .bind (.slotless (.onLoop _ (.setup _))) fun _ =>
    .bind (.openCondition bodies _) fun _ => .bind (.slotless (.onLoop _ (.guard _))) fun _ =>
      .bind .closeCondition fun _ => .pure _

/-- So is the start of a loop over an array. -/
theorem openForEach (index : Option String) (array : Element) :
    Composed (Lower.openForEach index array) := by
  have rest (name : String) : Composed (openForEachAt name array) := by
    refine .bind (rules.declare _ _ _) fun _ => .bind .get fun _ =>
      .bind (.slotless (.onLoop _ (.setup _))) fun _ =>
        .bind (.slotless (.onLoop _ (.guard _))) fun _ => ?_
    split
    · exact .pure _
    · exact .throw _
  cases index with
  | none => exact .bind (.hiddenName _) fun name => rest name
  | some name => exact rest name

mutual

/-- A statement is composed, as its parts are. -/
theorem stmt (bodies : into.Composed) : (s : Stmt) → Composed (lowerStmt into s)
  | .mk k span => by
    rw [lowerStmt]
    exact .located span (kind bodies k)

theorem kind (bodies : into.Composed) : (k : StmtKind) → Composed (lowerKind into k)
  | .define name initial recursive => by
    rw [lowerKind]
    exact .bind (composes.optionMapM (fun e => expr bodies e) _) fun _ =>
      composes.map _ (rules.declare _ _ _)
  | .assign target index op value => by
    rw [lowerKind]
    exact .bind (exprs bodies index) fun _ => assign bodies _ _ _ _
  | .cond branches none => by
    rw [lowerKind]
    exact .bind (arms bodies _ _ branches) fun _ => .slotless (.closeChain _)
  | .cond branches (some body) => by
    rw [lowerKind]
    exact .bind (arms bodies _ _ branches) fun _ => .bind (.inScope (stmts bodies body)) fun _ =>
      .slotless (.closeChain _)
  | .while condition body => by
    rw [lowerKind]
    exact .bind (openLoop bodies _ _) fun _ => .bind (.inScope (stmts bodies body)) fun _ =>
      .slotless (.closeLoop _ _)
  | .for start condition step body => by
    -- behind the first statement, if there is one
    have rest : Composed (do
        let (block, tail) ← Lower.openLoop into .for condition
        Lower.inScope (lowerStmts into body)
        let block ← Lower.onLoop block LoopBlock.epilogue
        match step with
        | some s => Lower.inScope (lowerStmt into s)
        | none => Pure.pure ()
        Lower.closeLoop block tail) := by
      refine .bind (openLoop bodies _ _) fun _ => .bind (.inScope (stmts bodies body)) fun _ =>
        .bind (.slotless (.onLoop _ .epilogue)) fun _ => ?_
      cases step with
      | none => exact .slotless (.closeLoop _ _)
      | some s => exact .bind (.inScope (stmt bodies s)) fun _ => .slotless (.closeLoop _ _)
    rw [lowerKind]
    refine .inScope ?_
    cases start with
    | none => exact rest
    | some s => exact .bind (stmt bodies s) fun _ => rest
  | .forEach element index array body => by
    rw [lowerKind]
    exact .bind (expr bodies array) fun _ => .inScope (.bind (.openForEach _ _) fun _ =>
      .bind (.inScope (.bind (.bindReference _ _) fun _ => stmts bodies body)) fun _ =>
        .slotless (.closeLoop _ _))
  | .break depth => by
    rw [lowerKind]
    exact .slotless (.break depth)
  | .continue depth => by
    rw [lowerKind]
    exact .slotless (.continue depth)
  | .return value => by
    rw [lowerKind]
    exact .bind (composes.optionMapM (fun e => expr bodies e) _) fun _ => .slotless (.leaveFrame _)
  | .delete object className => by
    rw [lowerKind]
    exact delete bodies _ _
  | .block body => by
    rw [lowerKind]
    exact .inScope (stmts bodies body)
  | .expr value => by
    rw [lowerKind]
    exact composes.map _ (expr bodies value)

theorem stmts (bodies : into.Composed) : (body : List Stmt) → Composed (lowerStmts into body)
  | [] => by
    rw [lowerStmts]
    exact .pure _
  | s :: rest => by
    rw [lowerStmts]
    exact .bind (stmt bodies s) fun _ => stmts bodies rest

/-- So are the branches of a condition. -/
theorem arms (bodies : into.Composed) (more : Bool) (chain : IfChain) :
    (branches : List Branch) → Composed (lowerBranches into more chain branches)
  | [] => by
    rw [lowerBranches]
    exact .pure _
  | .mk condition body :: rest => by
    rw [lowerBranches]
    exact .bind (openArm bodies _) fun _ => .bind (.inScope (stmts bodies body)) fun _ =>
      .bind (.slotless (.closeArm _ _ _ _)) fun _ => arms bodies _ _ rest

end

/-- The static initializers are composed of expressions and writes. -/
theorem staticInitials (bodies : into.Composed) (initials : List (String × String × Expr)) :
    Composed (Lower.staticInitials into initials) :=
  composes.forM fun _ _ => .bind (expr bodies _) fun _ => .bind (.staticVar _ _) fun _ => .emit _

theorem finish : Composed Lower.finish := by
  refine .bind .get fun s => ?_
  dsimp only
  split
  · refine .bind (.throw _) fun _ => ?_
    split
    · exact .pure _
    · exact .throw _
  · split
    · exact .pure _
    · exact .throw _

/-- A unit is composed of its frame, a scope, its body and its end. -/
theorem unitBody {body : Lower Unit} (hbody : Composed body) :
    Composed (Lower.unitBody body) :=
  .bind (.slotless (.pushFrame _)) fun _ => .bind (.inScope hbody) fun _ =>
    .bind (.slotless .closeFrame) fun _ => .finish

end Lower.Composed

/-- However deep bodies are nested in each other, what they come to is composed. -/
theorem Expander.Composed.expander : (depth : Nat) → (SkipCode.expander depth).Composed
  | 0 => ⟨fun _ => .endless, fun _ => .endless⟩
  | depth + 1 =>
    ⟨fun body => .inScope (.stmts (expander depth) body), fun e => .expr (expander depth) e⟩

/-! ## What a composed step leaves behind -/

namespace Lower

variable {α β γ : Type}

/-- A property of steps that composition keeps, and that each step has that deals with slots. -/
structure SlotRules (P : {α : Type} → Lower α → Prop) : Prop where
  slotless {α : Type} {m : Lower α} : Slotless m → P m
  bind {α β : Type} {m : Lower α} {f : α → Lower β} : P m → (∀ a, P (f a)) → P (m >>= f)
  located {α : Type} {m : Lower α} (span : Span) : P m → P (Lower.located span m)
  openScope : P Lower.openScope
  closeScope : P Lower.closeScope
  /-- The innermost scope declares something, and owns the same. -/
  modifyScope {f : Scope → Scope} : (∀ scope, (f scope).owned = scope.owned) →
    P (Lower.modifyScope f)
  /-- A slot is taken and noted. -/
  declared {α : Type} {name : String} {stacked : Bool} {f : UInt32 → Lower α} :
    (∀ slot, P (f slot)) →
      P (Lower.allocate name >>= fun slot => Lower.addSymbol name slot stacked >>= fun _ => f slot)
  onStorage {α : Type} {m : ClassStorage.Step α} : ClassStorage.Orders m → ClassStorage.Adds m →
    P (Lower.onStorage m)

namespace SlotRules

variable {P : {α : Type} → Lower α → Prop}

theorem bindName (rules : SlotRules P) (name : String) (v : Variable) : P (Lower.bind name v) :=
  rules.modifyScope fun _ => rfl

/-- A temporary takes a slot and notes it. -/
theorem temp (rules : SlotRules P) (what : String) : P (Lower.temp what) :=
  rules.bind (rules.slotless (.hiddenName what)) fun _ => rules.declared fun _ =>
    rules.slotless (.bind .get fun _ => .pure _)

/-- A stack takes a slot, notes it, pushes and is bound. -/
theorem declareStack (rules : SlotRules P) (name : String) (initial : Option Element) :
    P (Lower.declareStack name initial) :=
  rules.declared fun _ => rules.bind (rules.slotless .get) fun _ =>
    rules.bind (rules.slotless (.emit _)) fun _ =>
      rules.bind (rules.modifyScope fun _ => rfl) fun _ =>
      rules.bind (rules.bindName _ _) fun _ => rules.slotless (.pure _)

theorem declarePlain (rules : SlotRules P) (name : String) (initial : Option Element) :
    P (Lower.declarePlain name initial) := by
  have last (v : IndexedVar) : P (do
      Lower.bind name (.indexed v)
      return v) :=
    rules.bind (rules.bindName _ _) fun _ => rules.slotless (.pure _)
  refine rules.declared fun _ => rules.bind (rules.slotless .get) fun _ => ?_
  cases initial with
  | none => exact last _
  | some value => exact rules.bind (rules.slotless (.emit _)) fun _ => last _

/-- All of lowering has it. -/
theorem composed (rules : SlotRules P) {m : Lower α} (h : Composed m) : P m := by
  induction h with
  | slotless hm => exact rules.slotless hm
  | openScope => exact rules.openScope
  | closeScope => exact rules.closeScope
  | bindReference name e => exact rules.bindName name _
  | temp what => exact rules.temp what
  | declareStack name initial => exact rules.declareStack name initial
  | declarePlain name initial => exact rules.declarePlain name initial
  | onStorage orders adds => exact rules.onStorage orders adds
  | located span _ ih => exact rules.located span ih
  | bind _ _ first second => exact rules.bind first second

end SlotRules

/-- A step with a place in the source runs as it does, and a failure may get the place. -/
theorem run_located {m : Lower α} {span : Span} {s t : UnitState} {r : Except LowerError α}
    (h : run (located span m) s = some (r, t)) :
    ∃ x u, run m { s with span := span } = some (x, u) ∧ r = x.mapError (·.withSpan span) ∧
      t = { u with span := s.span } := by
  obtain ⟨⟨x, u⟩, inside, e⟩ := Option.bind_eq_some_iff.1 h
  cases e
  exact ⟨x, u, inside, rfl, rfl⟩

/-- The place is only set for the step and set back behind it. -/
theorem run_located_some {m : Lower α} {span : Span} {s u : UnitState} {x : Except LowerError α}
    (h : run m { s with span := span } = some (x, u)) :
    run (located span m) s = some (x.mapError (·.withSpan span), { u with span := s.span }) :=
  Option.bind_eq_some_iff.2 ⟨(x, u), h, rfl⟩

/-- What leads from the state before a step to the one behind it, when the step succeeds. -/
def Leads (R : UnitState → UnitState → Prop) (m : Lower α) : Prop :=
  ∀ (s : UnitState) a t, run m s = some (.ok a, t) → R s t

namespace Leads

variable {R : UnitState → UnitState → Prop}

/-- A relation that can be chained holds over two steps. -/
theorem bind (trans : ∀ s t u, R s t → R t u → R s u) {m : Lower α} {f : α → Lower β}
    (hm : Leads R m) (hf : ∀ a, Leads R (f a)) : Leads R (m >>= f) := by
  intro s b t h
  obtain ⟨a, u, first, second⟩ := run_bind_ok.1 h
  exact trans s u t (hm s a u first) (hf a u b t second)

theorem located (inside : ∀ {s t : UnitState} (span : Span),
      R { s with span := span } t → R s { t with span := s.span }) {m : Lower α} (span : Span)
    (hm : Leads R m) : Leads R (Lower.located span m) := by
  intro s a t h
  obtain ⟨x, u, ran, e, rfl⟩ := run_located h
  cases x with
  | error _ => cases e
  | ok b => exact inside span (hm _ b u ran)

end Leads

/-- What a composed step has written stays, and what waits goes on waiting. -/
theorem Composed.evolves {m : Lower α} (composed : Composed m) : Evolves m := by
  refine SlotRules.composed (P := Evolves) ?_ composed
  constructor
  case slotless => exact fun hm => hm.evolves
  case bind => exact .bind
  case located => exact fun span hm => Leads.located (fun _ h => h) span hm
  case openScope =>
    intro s a t h
    cases h
    exact .refl _
  case closeScope =>
    intro s a t h
    obtain ⟨scope, rest, σ, -, -, rfl⟩ := run_closeScope_ok h
    exact .written (.extended _ _) _
  case modifyScope =>
    intro f _ s a t h
    obtain ⟨scope, rest, -, rfl⟩ := run_modifyScope_ok.1 h
    exact .refl _
  case declared =>
    exact fun hf => .bind (.of_plain (.allocate _)) fun slot =>
      .bind (.of_plain (.addSymbol _ _ _)) fun _ => hf slot
  case onStorage => exact fun _ adds => .of_plain (.onStorage adds)

/-! ## What a run comes to -/

/-- The run of the first step from the first state comes to the second step in the second state. -/
inductive ComesTo : {α β : Type} → Lower α → UnitState → Lower β → UnitState → Prop
  | here {α : Type} {m : Lower α} {s : UnitState} : ComesTo m s m s
  | first {α β γ : Type} {m : Lower α} {f : α → Lower β} {m' : Lower γ} {s s' : UnitState} :
      Composed m → (∀ a, Composed (f a)) → ComesTo m s m' s' → ComesTo (m >>= f) s m' s'
  | later {α β γ : Type} {m : Lower α} {f : α → Lower β} {a : α} {m' : Lower γ}
      {s t s' : UnitState} : Composed m → (∀ a, Composed (f a)) → run m s = some (.ok a, t) →
      ComesTo (f a) t m' s' → ComesTo (m >>= f) s m' s'
  | located {α β : Type} {m : Lower α} {m' : Lower β} {span : Span} {s s' : UnitState} :
      Composed m → ComesTo m { s with span := span } m' s' → ComesTo (located span m) s m' s'

namespace ComesTo

variable {m : Lower α} {m' : Lower β} {m'' : Lower γ} {s s' s'' t t' : UnitState}

/-- What a step comes to comes to more in turn. -/
theorem trans (h₁ : ComesTo m s m' s') (h₂ : ComesTo m' s' m'' s'') : ComesTo m s m'' s'' := by
  induction h₁ with
  | here => exact h₂
  | first hm hf _ ih => exact .first hm hf (ih h₂)
  | later hm hf ran _ ih => exact .later hm hf ran (ih h₂)
  | located hm _ ih => exact .located hm (ih h₂)

/-- What a composed step comes to is composed. -/
theorem composed (h : ComesTo m s m' s') (hm : Composed m) : Composed m' := by
  induction h with
  | here => exact hm
  | first part _ _ ih => exact ih part
  | later _ rest _ _ ih => exact ih (rest _)
  | located part _ ih => exact ih part

/-- What is true whatever a composed step does is true wherever a run comes to. -/
theorem holds {P : UnitState → Prop} (h : ComesTo m s m' s')
    (kept : ∀ {α : Type} {m : Lower α} {s t : UnitState} {a : α}, Composed m →
      run m s = some (.ok a, t) → P s → P t)
    (moved : ∀ {s : UnitState} (span : Span), P s → P { s with span := span }) (start : P s) :
      P s' := by
  induction h with
  | here => exact start
  | first _ _ _ ih => exact ih start
  | later hm _ ran _ ih => exact ih (kept hm ran start)
  | located _ _ ih => exact ih (moved _ start)

/-- A run that comes to a failure fails for the same cause. -/
theorem fails {e : LowerError} (h : ComesTo m s m' s')
    (failed : run m' s' = some (.error e, t')) :
    ∃ e' t, run m s = some (.error e', t) ∧ e'.cause = e.cause := by
  induction h with
  | here => exact ⟨e, t', failed, rfl⟩
  | first _ _ _ ih =>
    obtain ⟨e', t, ran, same⟩ := ih failed
    exact ⟨e', t, by rw [run_bind, ran], same⟩
  | later _ _ ran _ ih =>
    obtain ⟨e', t, ran', same⟩ := ih failed
    exact ⟨e', t, by rw [run_bind, ran]; exact ran', same⟩
  | @located _ _ _ _ span _ _ _ _ ih =>
    obtain ⟨e', t, ran, same⟩ := ih failed
    exact ⟨e'.withSpan span, _, run_located_some ran, same⟩

/-- Where a whole run succeeds, so does all that it comes to, and what is written there stays. -/
theorem ends {a : α} (h : ComesTo m s m' s') (done : run m s = some (.ok a, t)) :
    ∃ b t', run m' s' = some (.ok b, t') ∧ t'.flow.Evolves t.flow := by
  induction h generalizing t with
  | here => exact ⟨a, t, done, .refl _⟩
  | first hm hf _ ih =>
    obtain ⟨b, u, first, second⟩ := run_bind_ok.1 done
    obtain ⟨c, t', ran, evolves⟩ := ih first
    exact ⟨c, t', ran, evolves.trans ((hf b).evolves _ _ _ second)⟩
  | later hm hf ran _ ih =>
    obtain ⟨b, u, first, second⟩ := run_bind_ok.1 done
    cases ran.symm.trans first
    exact ih second
  | located hm _ ih =>
    obtain ⟨x, u, inside, e, rfl⟩ := run_located done
    cases x with
    | error _ => cases e
    | ok b =>
      obtain ⟨c, t', ran, evolves⟩ := ih inside
      exact ⟨c, t', ran, evolves⟩

end ComesTo

end Lower

end SkipCode
