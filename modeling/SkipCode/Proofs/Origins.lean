import SkipCode.Proofs.Completeness
import SkipCode.Proofs.Descent
import SkipCode.Proofs.Reports

/-!
# Where reports come from

Every report of a unit has its origin in one statement, of the unit or of a body that is expanded in
it. `Spot.explained` is one step towards it: what is reported at a spot arises there, under the
statement that the spot lies in, or it is reported at a spot right inside. There is one case for
each form of the source; each goes along the steps of lowering and names the spot that it comes to,
as `Proofs.Completeness` does for the runs that succeed. Here a run may fail anywhere, so a spot is
named as soon as what is before it has run.

Followed inwards, a report comes to the innermost statement that makes it, and from there it has its
position:

* `Spot.Reports.exists_raises`: there is an innermost one wherever a statement makes the report;
* `Spot.Raises.span_eq`: the report points at that one;
* `Spot.Reports.eq_of_way`: it is the same report all the way out.
-/

namespace SkipCode

open Lower
open Source (Branch Expr Fragment Loop Part Place Span Stmt StmtKind)

/-! ## Steps with pieces inside -/

namespace Lower

variable {α γ : Type} {into : Expander} {span : Span} {inner : Notice → LowerError → Prop}
  {s t : UnitState}

namespace Explains

/-- A result explains itself. -/
theorem pure (a : α) : Explains span inner (Pure.pure a : Lower α) s := (Direct.pure a).explains

/-- What a scope reports its inside reports. -/
theorem inScope {m : Lower α} (hm : Explains span inner m s.opened) :
    Explains span inner (Lower.inScope m) s := by
  refine Direct.openScope.explains.bind fun _ t ran => ?_
  cases ran
  exact hm.bind fun a u _ => Direct.closeScope.explains.bind fun _ v _ => .pure a

/-- Each step of a row runs behind those before it. -/
theorem forM {f : γ → Lower PUnit} {l : List γ}
    (each : ∀ before a after t, l = before ++ a :: after →
      run (before.forM f) s = some (.ok (), t) → Explains span inner (f a) t) :
    Explains span inner (l.forM f) s := by
  induction l generalizing s with
  | nil => exact .pure _
  | cons a rest ih =>
    refine (each [] a rest s rfl rfl).bind fun _ t ran => ih fun before b after u row passed => ?_
    exact each (a :: before) b after u (by rw [row]; rfl) (run_bind_ok.2 ⟨⟨⟩, t, ran, passed⟩)

/-- A body, where there is depth left for it. -/
theorem block {depth : Nat} {body : List Stmt}
    (inside : ∀ {d}, depth = d + 1 → Explains span inner (lowerStmts (expander d) body) s.opened) :
    Explains span inner ((expander depth).block body) s := by
  cases depth with
  | zero => exact .endless
  | succ d => exact .inScope (inside rfl)

/-- The body of a declaration is lowered behind the names that are bound in it. -/
theorem expandBody {depth : Nat} {key : String} {params : List String} {body : List Stmt}
    {receiver : Option Element} {values : List Element} {result : Option IndexedVar}
    (inside : ∀ {d this u names v}, depth = d + 1 →
      BindsThis receiver (s.opened.entered (s.expanded (some key) result)) this u →
      BindsParams (params.zip values) u names v →
        Explains span inner (lowerStmts (expander d) body) v.opened) :
    Explains span inner (Lower.expandBody (expander depth) key params body receiver values
      result) s := by
  rw [expandBody_eq]
  refine (Direct.aside (Slotless.expandedFrame _ _).aside
    (.bind .get fun _ => .pure _)).explains.bind
    fun frame t ran => ?_
  cases ran
  refine (Explains.inScope ?_).bind fun _ t _ =>
    (Direct.aside Slotless.closeFrame.aside .closeFrame).explains
  refine (Direct.aside (Slotless.pushFrame _).aside (.modify _)).explains.bind fun _ t ran => ?_
  cases ran
  refine (Direct.rules.bindCall _ _ _).explains.bind fun _ v bound => .block fun deep => ?_
  obtain ⟨this, u, names, received, given⟩ := binds_of_run bound
  exact inside deep received given

end Explains

/-! ### Rows of expressions -/

/-- What a row of expressions reports, each lowered behind those before it, comes from further
inside. -/
def Rows (into : Expander) (span : Span) (inner : Notice → LowerError → Prop) (s : UnitState)
    (row : List Expr) : Prop :=
  ∀ before e after values t, row = before ++ e :: after →
    run (lowerExprs into before) s = some (.ok values, t) → Explains span inner (lowerExpr into e) t

namespace Rows

variable {row after : List Expr} {e : Expr}

/-- The first operand of a row is inside. -/
theorem first (rows : Rows into span inner s row) (split : row = e :: after) :
    Explains span inner (lowerExpr into e) s := rows [] e after [] s split (lowered_nothing into s)

/-- So is the second one. -/
theorem second {a : Expr} {x : Element} (rows : Rows into span inner s row)
    (split : row = a :: e :: after) (ran : run (lowerExpr into a) s = some (.ok x, t)) :
    Explains span inner (lowerExpr into e) t := by
  refine rows [a] e after [x] t split ?_
  rw [lowerExprs, lowerExprs]
  exact run_bind_ok.2 ⟨x, t, ran, rfl⟩

/-- A part of the row, behind what is before it. -/
theorem exprs (rows : Rows into span inner s row) (before mid after : List Expr)
    (split : row = before ++ mid ++ after) {values : List Element}
    (passed : run (lowerExprs into before) s = some (.ok values, t)) :
    Explains span inner (lowerExprs into mid) t := by
  induction mid generalizing before values t with
  | nil =>
    rw [lowerExprs]
    exact .pure _
  | cons e mid ih =>
    rw [lowerExprs]
    refine (rows before e (mid ++ after) values t (by simp [split]) passed).bind fun x u ran => ?_
    have longer : run (lowerExprs into (before ++ [e])) s = some (.ok (values ++ [x]), u) := by
      rw [lowerExprs_append]
      refine run_bind_ok.2 ⟨values, t, passed, run_bind_ok.2 ⟨[x], u, ?_, rfl⟩⟩
      rw [lowerExprs, lowerExprs]
      exact run_bind_ok.2 ⟨x, u, ran, rfl⟩
    exact (ih (before ++ [e]) (by simp [split]) longer).bind fun _ _ _ => .pure _

/-- The whole row. -/
theorem whole (rows : Rows into span inner s row) : Explains span inner (lowerExprs into row) s :=
  rows.exprs [] row [] (by simp) (lowered_nothing into s)

/-- So is an operand that may be missing. -/
theorem optional {o : Option Expr} (rows : Rows into span inner s o.toList) :
    Explains span inner (o.mapM (lowerExpr into)) s := by
  cases o with
  | none => exact .pure _
  | some e => exact (rows.first rfl).map

end Rows

end Lower

/-! ## One step inwards -/

namespace Spot

/-- Lowering at a spot is composed of steps. -/
theorem composed (p : Spot) : Composed p.lower := by
  obtain ⟨depth, bodies, names, part, s⟩ := p
  have into : (expander depth).Composed := .expander depth
  cases part with
  | expr e => exact .expr into e
  | fragment p =>
    cases p with
    | stmts body => exact .stmts into body
    | stmt first => exact .stmt into first
    | kind k => exact .kind into k
    | arms more chain branches => exact .arms into more chain branches
    | loop l => exact .loop into l

/-- The report is made at a spot right inside, under the same statement. -/
def Inside (p : Spot) (i : Notice) (e : LowerError) : Prop :=
  ∃ q, p.Inward q ∧ q.state.span = p.state.span ∧ q.lower.Reports q.state i e

/-- What is reported at the spot arises there, or it is reported right inside. -/
def Explained (p : Spot) : Prop := Explains p.state.span p.Inside p.lower p.state

/-- What is reported right inside is explained. -/
theorem Inward.explains {p q : Spot} (step : p.Inward q) :
    Explains p.state.span p.Inside q.lower q.state :=
  .within q.composed fun here _ _ reported => ⟨q, step, here, reported⟩

variable {depth : Nat} {bodies : List OpenBody} {names : List (String × Variable)} {s t : UnitState}

/-! ### Expressions -/

/-- The operands of an expression are rows of it. -/
theorem rows_operands (e : Expr) :
    Rows (expander depth) s.span (Inside ⟨depth, bodies, names, .expr e, s⟩) s (s.operands e) :=
  fun _ _ _ _ _ row passed => (Inward.part row passed).explains

/-- A call whose receiver and arguments are lowered. -/
theorem explains_call {className : Option String} {method : String} {object : Option Expr}
    {arguments : List Expr} {d : Declaration} {callee : Callee} {receiver : Option Element}
    {values : List Element}
    (at' : CallAt (expander depth) className method object arguments s d callee receiver values t) :
    Explains s.span (Inside ⟨depth, bodies, names,
      .expr (.call className method object arguments), s⟩)
      (expandCall (expander depth) callee receiver values) t := by
  cases recursive : callee.decl.recursive with
  | false =>
    have runs := run_expandCall_plain (s := t) (expander depth) receiver values recursive
    split at runs
    · have refused : run (expandCall (expander depth) callee receiver values) t =
          run (throw (.unsupported (.selfCall callee.key))) t := runs
      exact .congr refused (Direct.unsupported _).explains
    · next closed =>
      refine .congr runs ((Direct.temp "ret").explains.bind fun result u ret => ?_)
      refine (Explains.expandBody fun deep received given => ?_).bind fun _ _ _ =>
        (Direct.rules.materialize _).explains
      subst deep
      exact (Inward.expands (.inlined at' recursive
        (Bool.eq_false_iff.2 closed) ret received given)).explains
  | true =>
    have runs := run_expandCall_recursive (s := t) (expander depth) receiver values recursive
    cases open' : findRegion? t.regions callee.key with
    | some region =>
      -- the call goes back into a region that is open
      rw [open'] at runs
      exact .congr runs
        ((Direct.aside (Slotless.callRegion _ _ _ _).aside (.callRegion _ _ _ _)).explains.bind
        fun _ _ _ => (Direct.rules.materialize _).explains)
    | none =>
      rw [open', expandRegion_eq] at runs
      refine .congr runs (Explains.bind ?_ fun _ _ _ => (Direct.rules.materialize _).explains)
      refine (Direct.temp "ret").explains.bind fun result u ret =>
        (Direct.temp "addr").explains.bind
        fun address v addr => ?_
      refine (Direct.aside (Slotless.expandedFrame _ _).aside
        (.bind .get fun _ => .pure _)).explains.bind
        fun frame _ ran => ?_
      cases ran
      refine Explains.bind (.inScope ?_) fun sites w _ =>
        (Direct.bind (.aside (Slotless.dispatch _ _ _).aside
        (.dispatch _ _ _)) fun _ => .pure _).explains
      refine (Direct.rules.openRegion _ _ _ _ _).explains.bind fun region w opened => ?_
      refine (Direct.aside (Slotless.pushFrame _).aside (.modify _)).explains.bind fun _ _ ran => ?_
      cases ran
      refine (Direct.aside (Slotless.pushRegion _).aside (.modify _)).explains.bind
        fun _ _ ran => ?_
      cases ran
      have closed : Direct (closeRegion address) :=
        .bind (.aside Slotless.closeFrame.aside .closeFrame) fun _ =>
        .bind (.aside Slotless.popRegion.aside .popRegion) fun _ => .bind (.emit _) fun _ => .pure _
      refine Explains.bind (.block fun deep => ?_) fun _ _ _ => closed.explains
      subst deep
      exact (Inward.expands (.region at' recursive open' ret addr opened)).explains

/-- A `new` whose arguments are lowered. -/
theorem explains_new {className : String} {index : Nat} {arguments : List Expr}
    {values : List Element}
    (lowered : run (lowerExprs (expander depth) arguments) s = some (.ok values, t)) :
    Explains s.span (Inside ⟨depth, bodies, names, .expr (.new className index arguments), s⟩)
      (expandNew (expander depth) className index values) t := by
  have classes : t.session.classes = s.session.classes :=
    congrArg Surroundings.classes ((Expander.StaysPut.expander depth).exprs _ _ _ _ lowered)
  rw [expandNew_eq]
  refine Direct.get.explains.bind fun _ _ ran => ?_
  cases ran
  refine (Direct.lift (.constructor _ _)).explains.bind fun constructor _ lifted => ?_
  obtain ⟨found, rfl⟩ := run_lift_ok.1 lifted
  unfold accept
  split
  · refine (Direct.defect _).explains.bind fun _ _ ran => ?_
    cases ran
  next accepted =>
  refine (Direct.lift (.fieldInitials _)).explains.bind fun fields _ lifted => ?_
  obtain ⟨known, rfl⟩ := run_lift_ok.1 lifted
  -- the handle, in a hidden variable
  refine (Direct.hiddenName "new").explains.bind fun hidden s₂ named => ?_
  refine (Direct.rules.declare hidden none false).explains.bind fun handle s₃ declares => ?_
  refine (Direct.lift (.layout _)).explains.bind fun layout _ lifted => ?_
  obtain ⟨laid, rfl⟩ := run_lift_ok.1 lifted
  refine (Direct.onStorage (ClassStorage.unplaced_prepare layout)).explains.bind
    fun _ s₄ prepared => ?_
  refine (Direct.onStorage (ClassStorage.unplaced_acquireHandle _ _)).explains.bind
    fun _ u acquired => ?_
  rw [classes] at found known laid
  have at' : NewAt (expander depth) className index arguments s values constructor fields
    handle u :=
    ⟨(not_not.1 accepted).trans (length_of_lowerExprs lowered), found, known, t, hidden, s₂, s₃,
      layout, s₄, lowered,
      named, declares, laid, prepared, acquired⟩
  -- what is left is the source of others: the initial values of the fields and the body
  refine Explains.bind ?fields fun _ v initialized => Explains.bind ?body fun _ _ _ => .pure _
  case body =>
    refine .expandBody fun deep received given => ?_
    subst deep
    exact (Inward.expands (.constructor at' initialized received given)).explains
  case fields =>
    refine (Direct.aside (Slotless.expandedFrame _ _).aside
      (.bind .get fun _ => .pure _)).explains.bind
      fun frame _ ran => ?_
    cases ran
    refine (Explains.inScope ?_).bind fun _ t _ =>
      (Direct.aside Slotless.closeFrame.aside .closeFrame).explains
    refine (Direct.aside (Slotless.pushFrame _).aside (.modify _)).explains.bind fun _ _ ran => ?_
    cases ran
    refine (Direct.bindName _ _).explains.bind fun _ v bound => ?_
    refine @Explains.forM _ _ _ _ (initialField (expander depth) handle.get) _
      fun before field after w row passed => ?_
    have write (stack : Nat) (value : Element) : Direct (do
        emit ((← onStorage (ClassStorage.fieldStack stack)).set value none [handle.get])) :=
      .bind (.onStorage (ClassStorage.unplaced_fieldStack _)) fun _ => .emit _
    -- a field without an initial value gets the neutral one, which is no source of an error
    obtain ⟨stack, _ | e⟩ := field
    · exact (write stack _).explains
    · refine Explains.bind ?_ fun value _ _ => (write stack value).explains
      cases depth with
      | zero => exact .endless
      | succ d =>
        subst row
        exact (Inward.expands (.initial at' bound passed)).explains

/-- What an expression reports arises there or right inside. -/
theorem explained_expr (e : Expr) : Explained ⟨depth, bodies, names, .expr e, s⟩ := by
  have rows : Rows (expander depth) s.span (Inside ⟨depth, bodies, names, .expr e, s⟩) s
    (s.operands e) :=
    rows_operands e
  show Explains s.span _ (lowerExpr (expander depth) e) s
  cases e with
  | number | bool | currentActor =>
    rw [lowerExpr]
    exact .pure _
  | var name | this =>
    rw [lowerExpr]
    exact (Direct.bind (.lookup _) fun _ => .pure _).explains
  | staticField className field =>
    rw [lowerExpr]
    exact (Direct.bind (.staticVar _ _) fun _ => .pure _).explains
  | array items =>
    rw [lowerExpr]
    exact rows.whole.bind fun _ _ _ => .pure _
  | index array index =>
    rw [lowerExpr]
    exact (rows.first rfl).bind fun _ _ ran => (rows.second rfl ran).bind fun _ _ _ => .pure _
  | binary op lhs rhs =>
    rw [lowerExpr]
    exact (rows.first rfl).bind fun _ _ ran => (rows.second rfl ran).bind fun _ _ _ => .pure _
  | field object className field =>
    rw [lowerExpr]
    exact (rows.first rfl).bind fun _ _ _ => (Direct.bind (.fieldVar _ _ _) fun _ =>
      .pure _).explains
  | actorVar actor name =>
    rw [lowerExpr]
    refine (Direct.actorVar name).explains.bind fun v t known => ?_
    obtain ⟨rfl, -⟩ := run_actorVar_ok known
    have row : t.operands (.actorVar actor name) = [actor] := by
      rw [UnitState.operands, UnitState.actorOf, known]
    exact (rows.first row).bind fun _ _ _ => .pure _
  | not inner | negate inner | length inner =>
    rw [lowerExpr]
    exact (rows.first rfl).bind fun _ _ _ => .pure _
  | new className index arguments =>
    rw [lowerExpr]
    exact rows.whole.bind fun values t lowered => explains_new lowered
  | call className method object arguments =>
    rw [lowerExpr_call]
    refine (Direct.aside (Slotless.resolveCallee _ _).aside (.resolveCallee _ _)).explains.bind
      fun callee _ resolved => ?_
    obtain rfl := run_resolveCallee_ok resolved
    refine (Direct.aside (Slotless.checkArity _ _).aside (.checkArity _ _)).explains.bind
      fun _ t accepted => ?_
    obtain ⟨arity, rfl⟩ := run_checkArity_ok accepted
    have row : t.operands (.call className method object arguments) =
      receiverOf callee object ++ arguments := by
      rw [UnitState.operands, UnitState.passed, resolved]
      exact if_pos arity
    obtain ⟨d, means⟩ := means_of_run resolved
    -- the receiver and the arguments are one row
    refine (rows.exprs [] (receiverOf callee object) arguments row (lowered_nothing _ _)).bind
      fun receivers u first => ?_
    refine (rows.exprs (receiverOf callee object) arguments []
      (by rw [row, List.append_nil]) first).bind
      fun values v second => ?_
    exact explains_call ⟨means, resolved, arity, receivers, u, first, rfl, second⟩

/-! ### Statements -/

/-- The operands of a statement are rows of it. -/
theorem rows_of_kind (k : StmtKind) :
    Rows (expander depth) s.span (Inside ⟨depth, bodies, names, .fragment (.kind k), s⟩) s
      k.operands :=
  fun _ _ _ _ _ row passed => (Inward.operand row passed).explains

/-- An assignment whose index is lowered lowers its target and then its value. -/
theorem explains_assign {target : Place} {index : List Expr} {op : Source.AssignOp} {value : Expr}
    {values : List Element}
    (lowered : run (lowerExprs (expander depth) index) s = some (.ok values, t)) :
    Explains s.span (Inside ⟨depth, bodies, names,
      .fragment (.kind (.assign target index op value)), s⟩)
      (assign (expander depth) target values op value) t := by
  have operand {e : Expr} (row : t.targetOperands target = [e]) :
      Explains s.span (Inside ⟨depth, bodies, names,
        .fragment (.kind (.assign target index op value)), s⟩)
        (lowerExpr (expander depth) e) t := (Inward.target lowered row).explains
  have valued {u : UnitState} (opened : run (openTarget (expander depth) target) t =
    some (.ok (), u)) :
      Explains s.span (Inside ⟨depth, bodies, names,
        .fragment (.kind (.assign target index op value)), s⟩)
        (lowerExpr (expander depth) value) u := (Inward.value lowered opened).explains
  cases target with
  | var name =>
    refine (Direct.lookup name).explains.bind fun v u found => ?_
    exact (valued (run_map_ok.2 ⟨v, found, rfl⟩)).bind fun _ _ _ =>
      (Direct.bind (.lift (.setFor _ _ _ _ _)) fun _ => .emit _).explains
  | field object className field =>
    refine (operand rfl).bind fun handle u ran =>
      (Direct.fieldVar _ _ _).explains.bind fun v w found => ?_
    exact (valued (run_bind_ok.2 ⟨handle, u, ran, run_map_ok.2 ⟨v, found, rfl⟩⟩)).bind fun _ _ _ =>
      (Direct.emit _).explains
  | staticField className field =>
    refine (Direct.staticVar _ _).explains.bind fun v u found => ?_
    exact (valued (run_map_ok.2 ⟨v, found, rfl⟩)).bind fun _ _ _ => (Direct.emit _).explains
  | actorVar actor name =>
    refine (Direct.actorVar name).explains.bind fun v u known => ?_
    obtain ⟨rfl, -⟩ := run_actorVar_ok known
    have row : u.targetOperands (.actorVar actor name) = [actor] := by
      rw [UnitState.targetOperands, UnitState.actorOf, known]
    refine (operand row).bind fun x w ran => ?_
    exact (valued (run_bind_ok.2 ⟨(), u, run_map_ok.2 ⟨v, known, rfl⟩,
      run_map_ok.2 ⟨x, ran, rfl⟩⟩)).bind
      fun _ _ _ => (Direct.bind (.lift (.setFor _ _ _ _ _)) fun _ => .emit _).explains

/-- What a kind of statement reports arises there or right inside. -/
theorem explained_kind (k : StmtKind) :
    Explained ⟨depth, bodies, names, .fragment (.kind k), s⟩ := by
  have rows : Rows (expander depth) s.span (Inside ⟨depth, bodies, names, .fragment (.kind k), s⟩) s
    k.operands :=
    rows_of_kind k
  show Explains s.span _ (lowerKind (expander depth) k) s
  cases k with
  | define name initial recursive =>
    rw [lowerKind]
    exact rows.optional.bind fun _ _ _ =>
      (Direct.composes.map _ (Direct.rules.declare _ _ _)).explains
  | assign target index op value =>
    rw [lowerKind]
    exact rows.whole.bind fun values t lowered => explains_assign lowered
  | cond branches otherwise =>
    rw [lowerKind]
    refine Explains.bind (Inward.inner .arms rfl).explains fun chain t arms => ?_
    cases otherwise with
    | none => exact (Direct.closeChain chain).explains
    | some body =>
      exact Explains.bind (.inScope (Inward.inner (.otherwise arms) rfl).explains) fun _ _ _ =>
        (Direct.closeChain chain).explains
  | «while» condition body =>
    rw [lowerKind_while]
    exact (Inward.inner .while rfl).explains
  | «for» start condition step body =>
    rw [lowerKind_for]
    refine .inScope ?_
    cases start with
    | none =>
      have nothing : run (lowerStmts (expander depth) (none : Option Stmt).toList) s.opened =
          some (.ok (), s.opened) := by
        rw [Option.toList, lowerStmts]
        rfl
      exact (Inward.inner (.for nothing) rfl).explains
    | some first =>
      refine Explains.bind (Inward.inner .start rfl).explains fun _ t ran => ?_
      obtain ⟨declared, passed⟩ := PassesBy.of_run ran
      exact (Inward.for passed).explains
  | forEach element index array body =>
    rw [lowerKind_forEach]
    exact (rows.first rfl).bind fun x t ran => .inScope (Inward.inner (.forEach ran) rfl).explains
  | «break» depth =>
    rw [lowerKind]
    exact (Direct.aside (Slotless.break depth).aside (.leaveLoop fun _ _ _ =>
      .bind (.loopFrame _ _ _ _) fun _ => .pure _)).explains
  | «continue» depth =>
    rw [lowerKind]
    exact (Direct.aside (Slotless.continue depth).aside (.leaveLoop fun _ _ _ =>
      .bind (.loopFrame _ _ _ _) fun _ => .pure _)).explains
  | «return» value =>
    rw [lowerKind]
    exact rows.optional.bind fun _ _ _ =>
      (Direct.aside (Slotless.leaveFrame _).aside (.leaveFrame _)).explains
  | delete object className =>
    rw [lowerKind]
    exact (rows.first rfl).bind fun _ _ _ => (Direct.bind (.hiddenName _) fun _ =>
      .bind (Direct.rules.declare _ _ _) fun _ => .bind .get fun _ =>
        .onStorage (ClassStorage.unplaced_release _ _ _)).explains
  | block body =>
    rw [lowerKind]
    exact .inScope (Inward.inner .block rfl).explains
  | expr value =>
    rw [lowerKind]
    exact (rows.first rfl).map

/-- So for a list of statements. -/
theorem explained_stmts (body : List Stmt) :
    Explained ⟨depth, bodies, names, .fragment (.stmts body), s⟩ := by
  show Explains s.span _ (lowerStmts (expander depth) body) s
  cases body with
  | nil =>
    rw [lowerStmts]
    exact .pure _
  | cons first rest =>
    rw [lowerStmts]
    refine Explains.bind (Inward.inner .head rfl).explains fun _ t ran => ?_
    obtain ⟨declared, passed⟩ := PassesBy.of_run ran
    exact (Inward.tail passed).explains

/-- So for branches. -/
theorem explained_arms (more : Bool) (chain : IfChain) (branches : List Branch) :
    Explained ⟨depth, bodies, names, .fragment (.arms more chain branches), s⟩ := by
  show Explains s.span _ (lowerBranches (expander depth) more chain branches) s
  cases branches with
  | nil =>
    rw [lowerBranches]
    exact .pure _
  | cons branch rest =>
    obtain ⟨condition, body⟩ := branch
    have guard (condition : Element) : Direct (do
        let p ← (IfBlock.new.setup condition (← MonadState.get).list : Except LowerError _)
        modifyList fun _ => p.2
        return (p.1, ← closeCondition)) :=
      .bind .get fun _ => .bind (.lift (.setup _ _ _)) fun _ => .bind (.modifyList _) fun _ =>
        .bind .closeCondition fun _ => .pure _
    have arm : Explains s.span (Inside ⟨depth, bodies, names,
      .fragment (.arms more chain (.mk condition body :: rest)),
        s⟩) (openArm (expander depth) condition) s := by
      refine Explains.bind (Direct.openScope.explains.bind fun _ t ran => ?_) fun x _ _ =>
        (guard x).explains
      cases ran
      exact Inward.condition.explains
    rw [lowerBranches]
    refine arm.bind fun x t opened => Explains.bind
      (.inScope (Inward.inner (.arm opened) rfl).explains)
      fun _ u lowered => (Direct.closeArm _ _ _ _).explains.bind fun chain' v closed => ?_
    exact (Inward.inner (.nextArm opened lowered closed) rfl).explains

/-- The head of a loop, up to where its body starts. -/
theorem explains_enter (l : Loop) :
    Explains s.span (Inside ⟨depth, bodies, names, .fragment (.loop l), s⟩)
    (l.enter (expander depth)) s := by
  -- a loop with a condition lowers it once the loop is set up
  have opens {kind : LoopKind} {condition : Expr} (known : l.test? = some (kind, condition)) :
      Explains s.span (Inside ⟨depth, bodies, names, .fragment (.loop l), s⟩)
        (openLoop (expander depth) kind condition) s := by
    refine Direct.get.explains.bind fun _ _ ran => ?_
    cases ran
    refine (Direct.onLoop (LoopBlock.unplaced_setup _) _).explains.bind fun block t begun => ?_
    refine Explains.bind (Direct.openScope.explains.bind fun _ u ran => ?_) fun x _ _ =>
      (Direct.bind (.onLoop (LoopBlock.unplaced_guard _) _) fun _ => .bind .closeCondition fun _ =>
        .pure _).explains
    cases ran
    exact (Inward.test known begun).explains
  cases l with
  | «while» condition body | «for» condition step body =>
    exact (opens rfl).bind fun _ _ _ => (Direct.bind .openScope fun _ => .pure _).explains
  | forEach element index array body =>
    exact (Direct.bind (.openForEach _ _) fun _ => .bind .openScope fun _ =>
      .bind (.bindName _ _) fun _ =>
      .pure _).explains

/-- So for a loop. -/
theorem explained_loop (l : Loop) : Explained ⟨depth, bodies, names, .fragment (.loop l), s⟩ := by
  show Explains s.span _ (l.lower (expander depth)) s
  have round : Explains s.span (Inside ⟨depth, bodies, names, .fragment (.loop l), s⟩)
    (l.round (expander depth)) s :=
    (explains_enter l).bind fun x t entered =>
      Explains.bind (Inward.body entered).explains fun _ _ _ =>
      (Direct.bind .closeScope fun _ => .pure _).explains
  refine round.bind fun x t ran => ?_
  cases l with
  | «while» | forEach => exact (Direct.closeLoop _ _).explains
  | «for» condition step body =>
    refine (Direct.onLoop LoopBlock.unplaced_epilogue _).explains.bind fun block u closed => ?_
    refine Explains.bind ?_ fun _ _ _ => (Direct.closeLoop _ _).explains
    cases step with
    | none => exact .pure _
    | some step => exact .inScope (Inward.inner (.step rfl ran closed) rfl).explains

end Spot

/-- The position of a piece of the source that is a statement. -/
def Source.Part.span? : Part → Option Span
  | .fragment (.stmt (.mk _ span)) => some span
  | _ => none

/-- What is reported at a spot that is no statement arises there or is reported right inside. -/
theorem Spot.explained {p : Spot} (other : p.part.span? = none) : p.Explained := by
  obtain ⟨depth, bodies, names, part, s⟩ := p
  cases part with
  | expr e => exact explained_expr e
  | fragment p =>
    cases p with
    | stmts body => exact explained_stmts body
    | stmt first =>
      obtain ⟨k, span⟩ := first
      cases other
    | kind k => exact explained_kind k
    | arms more chain branches => exact explained_arms more chain branches
    | loop l => exact explained_loop l

/-! ## Innermost statements -/

/-- A part with a span is a statement. -/
theorem Source.Part.eq_of_span? {part : Part} {span : Span} (h : part.span? = some span) :
    ∃ k, part = .fragment (.stmt (.mk k span)) := by
  unfold Part.span? at h
  split at h
  · cases h
    exact ⟨_, rfl⟩
  · cases h

namespace Spot

variable {p q : Spot} {i : Notice} {e e' : LowerError} {span : Span}

/-- The spot makes the report. -/
def Reports (p : Spot) (i : Notice) (e : LowerError) : Prop := p.lower.Reports p.state i e

/-- The spot is the statement at `span`, which makes the report, and no statement further inside
makes it. -/
structure Raises (p : Spot) (i : Notice) (e : LowerError) (span : Span) : Prop where
  statement : p.part.span? = some span
  reports : p.Reports i e
  innermost : ∀ q, Relation.TransGen Inward p q → q.part.span?.isSome → ∀ e', ¬ q.Reports i e'

/-- What is reported at a spot that is no statement arises under the statement around it, or it is
reported by a statement further inside. -/
theorem Reports.arises {p : Spot} (reported : p.Reports i e) (other : p.part.span? = none) :
    e.span = i.place p.state.span ∨
      ∃ q, Relation.TransGen Inward p q ∧ q.part.span?.isSome ∧ q.Reports i e := by
  -- inwards until the report arises or a statement comes; on the way the state keeps its position
  induction p using inwardInduction with
  | h p ih =>
    obtain here | ⟨q, step, same, inside⟩ := (Spot.explained other).reports rfl reported
    · exact Or.inl here
    cases known : q.part.span? with
    | some span => exact Or.inr ⟨q, .single step, by rw [known]; rfl, inside⟩
    | none =>
      obtain here | ⟨r, way, found⟩ := ih q (.single step) inside known
      · exact Or.inl (by rw [here, same])
      · exact Or.inr ⟨r, .head step way, found⟩

/-- What a statement reports left what the statement consists of. -/
theorem Reports.of_statement (reported : p.Reports i e) (statement : p.part.span? = some span) :
    ∃ q e', p.Inward q ∧ q.part.span? = none ∧ q.state.span = span ∧ q.Reports i e' ∧
      e = i.leave span e' := by
  obtain ⟨depth, bodies, names, part, s⟩ := p
  obtain ⟨k, rfl⟩ := Part.eq_of_span? statement
  have located : (Lower.located span (lowerKind (expander depth) k)).Reports s i e := by
    have h : (lowerStmt (expander depth) (.mk k span)).Reports s i e := reported
    rwa [lowerStmt] at h
  obtain ⟨e', inside, rfl⟩ := located.of_located
  exact ⟨⟨depth, bodies, names, .fragment (.kind k), { s with span := span }⟩, e',
    .inner .located rfl, rfl, rfl,
    inside, rfl⟩

/-- An error that a statement reports is placed at a statement. -/
theorem Reports.placed (reported : p.Reports i e) (statement : p.part.span? = some span) :
    i.Placed e := by
  obtain ⟨-, e', -, -, -, -, rfl⟩ := reported.of_statement statement
  exact i.placed_leave span e'

/-- The innermost statement that makes a report gives it its position. -/
theorem Raises.span_eq (h : p.Raises i e span) : e.span = some span := by
  obtain ⟨q, e', step, other, rfl, inside, rfl⟩ := h.reports.of_statement h.statement
  refine Notice.span_leave ?_
  obtain here | ⟨r, way, statement, reported⟩ := inside.arises other
  · exact here
  -- a statement further inside would be the innermost
  · exact absurd reported (h.innermost r (.head step way) statement e')

/-- Lowering comes from a spot to the ones that are on the way from it. -/
theorem comesTo_of_way (way : Relation.ReflTransGen Inward p q) :
    ComesTo p.lower p.state q.lower q.state := by
  induction way with
  | refl => exact .here
  | tail _ step ih => exact ih.trans step.comesTo

/-- Where lowering fails at a spot, it fails at each spot around it. -/
theorem Reports.failed_of_way (way : Relation.ReflTransGen Inward p q)
    (failed : q.Reports .failure e) :
    ∃ e', p.Reports .failure e' := by
  obtain @⟨_, t, ran⟩ := failed
  obtain ⟨e', t', ran', -⟩ := (comesTo_of_way way).fails ran
  exact ⟨e', .failure ran'⟩

/-- What a statement reports is what is reported at each spot around it. -/
theorem Reports.eq_of_way (reported : p.Reports i e) (way : Relation.ReflTransGen Inward p q)
    (inside : q.Reports i e') (statement : q.part.span? = some span) : e' = e := by
  have ran : ∃ r t, run p.lower p.state = some (r, t) := by
    cases reported with
    | failure ran => exact ⟨_, _, ran⟩
    | shortage ran => exact ⟨_, _, ran⟩
  obtain ⟨r, t, ran⟩ := ran
  -- what the inner one reports goes all the way out, and a run reports one thing at a time
  exact Lower.Reports.unique ((comesTo_of_way way).reports ran inside (inside.placed statement))
    reported

/-- Where a statement makes a report, one is the innermost that does. -/
theorem Reports.exists_raises {p : Spot} (reported : p.Reports i e)
    (statement : p.part.span?.isSome) :
    ∃ q span, Relation.ReflTransGen Inward p q ∧ q.Raises i e span := by
  induction p using inwardInduction with
  | h p ih =>
    by_cases more : ∃ q, Relation.TransGen Inward p q ∧ q.part.span?.isSome ∧ ∃ e', q.Reports i e'
    · obtain ⟨q, way, inner, e', inside⟩ := more
      obtain ⟨span, known⟩ := Option.isSome_iff_exists.1 inner
      obtain rfl := reported.eq_of_way way.to_reflTransGen inside known
      obtain ⟨r, span, onward, raises⟩ := ih q way inside inner
      exact ⟨r, span, way.to_reflTransGen.trans onward, raises⟩
    · obtain ⟨span, known⟩ := Option.isSome_iff_exists.1 statement
      exact ⟨p, span, .refl, known, reported,
        fun q way inner e' inside => more ⟨q, way, inner, e', inside⟩⟩

/-- What statements in a row report, one of them reports. -/
theorem Reports.of_stmts {depth : Nat} {bodies : List OpenBody} {names : List (String × Variable)}
    {body : List Stmt} {s : UnitState}
    (reported : Reports ⟨depth, bodies, names, .fragment (.stmts body), s⟩ i e) :
    ∃ q, Relation.TransGen Inward ⟨depth, bodies, names, .fragment (.stmts body), s⟩ q ∧
      q.part.span?.isSome ∧ q.Reports i e := by
  induction body generalizing names s with
  | nil =>
    have h : (lowerStmts (expander depth) []).Reports s i e := reported
    rw [lowerStmts] at h
    obtain ⟨-, t, failed⟩ := h.failed (.aside (.pure _))
    cases failed
  | cons first rest ih =>
    have h : (lowerStmts (expander depth) (first :: rest)).Reports s i e := reported
    rw [lowerStmts] at h
    obtain here | ⟨_, t, ran, later⟩ := h.of_bind fun _ t r u _ next =>
      ((Composed.stmts (.expander depth) rest).tracks t r u next).2
    · obtain ⟨k, span⟩ := first
      exact ⟨⟨depth, bodies, names, .fragment (.stmt (.mk k span)), s⟩, .single (.inner .head rfl),
        rfl, here⟩
    · obtain ⟨declared, passed⟩ := PassesBy.of_run ran
      obtain ⟨q, way, found⟩ := @ih (declared ++ names) t later
      exact ⟨q, .head (.tail passed) way, found⟩

end Spot

end SkipCode
