import SkipCode.Proofs.Ways

/-!
# Lowering takes every way

The steps of a way name the pieces of the source and the states between them. Lowering takes each of
these steps: what it does for the outer piece comes to what it does for the inner one, in the state
of the inner spot (`Spot.Inward.comesTo`). So the lowering of a unit comes to the end of every way
that begins in it (`Session.Begins.comesTo_of_way`), and fails with what fails there.
-/

namespace SkipCode

open Lower
open Source (ConstructorDecl Expr Fragment Loop MethodDecl Place Stmt StmtKind)

section

variable {into : Expander}

/-- Expressions are lowered in turn. -/
theorem lowerExprs_append (xs ys : List Expr) : lowerExprs into (xs ++ ys) = (do
    let first ← lowerExprs into xs
    let second ← lowerExprs into ys
    return first ++ second) := by
  induction xs with
  | nil => simp [lowerExprs]
  | cons x xs ih => simp [lowerExprs, ih]

/-- There is a value for each of them. -/
theorem length_of_lowerExprs {s t : UnitState} {es : List Expr} {values : List Element}
    (h : run (lowerExprs into es) s = some (.ok values, t)) : values.length = es.length := by
  induction es generalizing s values with
  | nil =>
    rw [lowerExprs] at h
    cases h
    rfl
  | cons e es ih =>
    rw [lowerExprs] at h
    obtain ⟨x, u, -, h₁⟩ := run_bind_ok.1 h
    obtain ⟨xs, v, ran, h₂⟩ := run_bind_ok.1 h₁
    cases h₂
    rw [List.length_cons, List.length_cons, ih ran]

/-- The number of arguments is checked against the parameters. -/
theorem run_checkArity {callee : Callee} {n : Nat} (s : UnitState)
    (arity : callee.decl.params.length = n) :
    run (checkArity callee n) s = some (.ok (), s) := by
  rw [checkArity, if_neg (not_not.2 arity)]
  rfl

/-- A call lowers its receiver, where the body has a `this`, and its arguments in one row. -/
theorem lowerExpr_call (className : Option String) (method : String) (object : Option Expr)
    (arguments : List Expr) : lowerExpr into (.call className method object arguments) = (do
      let callee ← resolveCallee className method
      checkArity callee arguments.length
      let receivers ← lowerExprs into (receiverOf callee object)
      let values ← lowerExprs into arguments
      expandCall into callee receivers.head? values) := by
  rw [lowerExpr.eq_def]
  dsimp only
  refine bind_congr fun callee => bind_congr fun _ => ?_
  unfold receiverOf
  cases object <;> cases callee.takesReceiver <;> simp [lowerExprs, lowerExpr]

/-- A recursive callee is called through its region. -/
theorem run_expandCall_recursive {callee : Callee} {s : UnitState} (into : Expander)
    (receiver : Option Element) (values : List Element) (recursive : callee.decl.recursive = true) :
    run (expandCall into callee receiver values) s =
      match findRegion? s.regions callee.key with
      | some (index, region) => run (callRegion index region receiver values >>= materialize) s
      | none =>
        run (expandRegion into callee.key callee.decl.params callee.decl.body receiver values >>=
          materialize) s := by
  unfold expandCall
  rw [run_bind, run_get]
  dsimp only
  rw [if_pos recursive]
  rcases findRegion? s.regions callee.key with _ | ⟨index, region⟩ <;> rfl

/-- A plain one is put in place. -/
theorem run_expandCall_plain {callee : Callee} {s : UnitState} (into : Expander)
    (receiver : Option Element) (values : List Element) (plain : callee.decl.recursive = false) :
    run (expandCall into callee receiver values) s =
      if (s.frames.any fun frame => frame.method == some callee.key) = true then
        some (.error (.unsupported (.selfCall callee.key)), s)
      else run (do
        let result ← temp "ret"
        expandBody into callee.key callee.decl.params callee.decl.body receiver values (some result)
        materialize (result.get none)) s := by
  unfold expandCall
  rw [run_bind, run_get]
  dsimp only
  rw [if_neg (by simp [plain])]
  split
  · rfl
  · simp only [pure_bind]

end

/-- What lowering does for a piece of the source. -/
def Source.Part.Out : Part → Type
  | .fragment p => p.Out
  | .expr _ => Element

def Source.Part.lower (into : Expander) : (part : Part) → Lower part.Out
  | .fragment p => p.lower into
  | .expr e => lowerExpr into e

namespace Lower

variable {α β γ : Type} {into : Expander} {s t u : UnitState}

namespace ComesTo

/-! ## Rows of steps -/

/-- A change of the result comes to the same places. -/
theorem map {f : α → β} {m : Lower α} (hm : Composed m) {m' : Lower γ} (h : ComesTo m s m' t) :
    ComesTo (f <$> m) s m' t := by
  rw [← bind_pure_comp]
  exact .first hm (fun _ => .pure _) h

/-- Going through a list comes to each of its items. -/
theorem forM {f : γ → Lower PUnit} (hf : ∀ a, Composed (f a)) {before after : List γ} {a : γ}
    (passed : run (before.forM f) s = some (.ok (), t)) :
    ComesTo ((before ++ a :: after).forM f) s (f a) t := by
  have rest (l : List γ) : Composed (l.forM f) := Composed.composes.forM fun a _ => hf a
  induction before generalizing s with
  | nil =>
    cases passed
    exact .first (hf a) (fun _ => rest after) .here
  | cons b before ih =>
    obtain ⟨_, u, ran, passed⟩ := run_bind_ok.1 passed
    exact .later (hf b) (fun _ => rest _) ran (ih passed)

variable {before after : List Expr} {e : Expr} {values : List Element}

/-- Lowering expressions comes to each of them. -/
theorem exprs (bodies : into.Composed)
    (passed : run (lowerExprs into before) s = some (.ok values, t)) :
    ComesTo (lowerExprs into (before ++ e :: after)) s (lowerExpr into e) t := by
  have behind (es : List Expr) (x : Element) : Composed (do
      let rest ← lowerExprs into es
      return x :: rest) := .bind (.exprs bodies es) fun _ => .pure _
  induction before generalizing s values with
  | nil =>
    rw [lowerExprs] at passed
    cases passed
    rw [List.nil_append, lowerExprs]
    exact .first (.expr bodies e) (behind after) .here
  | cons b before ih =>
    rw [lowerExprs] at passed
    obtain ⟨x, u, ran, passed⟩ := run_bind_ok.1 passed
    obtain ⟨xs, v, passed, ended⟩ := run_bind_ok.1 passed
    cases ended
    rw [List.cons_append, lowerExprs]
    exact .later (.expr bodies b) (behind _) ran
      (.first (.exprs bodies _) (fun _ => .pure _) (ih passed))

/-- Two rows of expressions, one behind the other. -/
theorem rows (bodies : into.Composed) {xs ys : List Expr}
    {g : List Element → List Element → Lower β} (hg : ∀ as bs, Composed (g as bs))
    (rows : xs ++ ys = before ++ e :: after)
    (passed : run (lowerExprs into before) s = some (.ok values, t)) :
    ComesTo (do
      let as ← lowerExprs into xs
      let bs ← lowerExprs into ys
      g as bs) s (lowerExpr into e) t := by
  have behind (as : List Element) : Composed (do
      let bs ← lowerExprs into ys
      g as bs) := .bind (.exprs bodies ys) fun _ => hg as _
  have second {as : List Element} {mid : List Expr} {bs : List Element} {u : UnitState}
      (row : ys = mid ++ e :: after) (passed : run (lowerExprs into mid) u = some (.ok bs, t)) :
      ComesTo (do
        let bs ← lowerExprs into ys
        g as bs) u (lowerExpr into e) t := by
    subst row
    exact .first (.exprs bodies _) (hg as) (.exprs bodies passed)
  obtain ⟨mid, rfl, row⟩ | ⟨mid, rfl, tail⟩ := List.append_eq_append_iff.1 rows
  · -- in the second row
    rw [lowerExprs_append] at passed
    obtain ⟨as, u, first, passed⟩ := run_bind_ok.1 passed
    obtain ⟨bs, v, passed, ended⟩ := run_bind_ok.1 passed
    cases ended
    exact .later (.exprs bodies xs) behind first (second row passed)
  -- either it is the first of the second row, or it is in the first row
  · cases mid with
    | nil =>
      rw [List.append_nil]
      have none : run (lowerExprs into []) t = some (.ok [], t) := by
        rw [lowerExprs]
        rfl
      have row : ys = [] ++ e :: after := tail.symm
      exact .later (.exprs bodies before) behind passed (second row none)
    | cons _ mid =>
      cases tail
      exact .first (.exprs bodies _) behind (.exprs bodies passed)

/-- The only expression of a row. -/
theorem only (bodies : into.Composed) {a : Expr} {g : Element → Lower β} (hg : ∀ x, Composed (g x))
    (row : [a] = before ++ e :: after)
    (passed : run (lowerExprs into before) s = some (.ok values, t)) :
    ComesTo (lowerExpr into a >>= g) s (lowerExpr into e) t := by
  cases before with
  | nil =>
    cases row
    rw [lowerExprs] at passed
    cases passed
    exact .first (.expr bodies _) hg .here
  | cons first before => cases before <;> cases row

/-- Lowering a pair comes to both. -/
theorem pair (bodies : into.Composed) {a b : Expr} {g : Element → Element → Lower β}
    (hg : ∀ x y, Composed (g x y)) (row : [a, b] = before ++ e :: after)
    (passed : run (lowerExprs into before) s = some (.ok values, t)) :
    ComesTo (do
      let x ← lowerExpr into a
      let y ← lowerExpr into b
      g x y) s (lowerExpr into e) t := by
  have behind (x : Element) : Composed (do
      let y ← lowerExpr into b
      g x y) := .bind (.expr bodies b) fun _ => hg x _
  cases before with
  | nil =>
    cases row
    rw [lowerExprs] at passed
    cases passed
    exact .first (.expr bodies _) behind .here
  | cons _ before =>
    obtain ⟨rfl, rest⟩ := List.cons_eq_cons.1 row
    rw [lowerExprs] at passed
    obtain ⟨x, u, first, passed⟩ := run_bind_ok.1 passed
    obtain ⟨xs, v, passed, ended⟩ := run_bind_ok.1 passed
    cases ended
    exact .later (.expr bodies a) behind first (only bodies (hg x) rest passed)

/-- Lowering a target comes to its actor. -/
theorem actorOf (bodies : into.Composed) {name : String} {actor : Expr}
    {g : Variable → Element → Lower β} (hg : ∀ v x, Composed (g v x))
    (row : s.actorOf name actor = before ++ e :: after)
    (passed : run (lowerExprs into before) s = some (.ok values, t)) :
    ComesTo (do
      let v ← actorVar name
      let x ← lowerExpr into actor
      g v x) s (lowerExpr into e) t := by
  unfold UnitState.actorOf at row
  split at row
  · next v u known =>
    obtain ⟨rfl, -⟩ := run_actorVar_ok known
    exact .later (.slotless (.actorVar name)) (fun v => .bind (.expr bodies actor) fun _ =>
      hg v _) known
      (only bodies (hg v) row passed)
  · cases before <;> cases row

/-! ## The parts of an expression -/

/-- Lowering an expression comes to each of its parts behind those before it. -/
theorem part (bodies : into.Composed) {e' : Expr} (parts : s.operands e = before ++ e' :: after)
    (passed : run (lowerExprs into before) s = some (.ok values, t)) :
    ComesTo (lowerExpr into e) s (lowerExpr into e') t := by
  cases e with
  | number | bool | var | staticField | this | currentActor => cases before <;> cases parts
  | array items =>
    obtain rfl : items = before ++ e' :: after := parts
    rw [lowerExpr]
    exact .first (.exprs bodies _) (fun _ => .pure _) (exprs bodies passed)
  | index array index =>
    rw [lowerExpr]
    exact pair bodies (fun _ _ => .pure _) parts passed
  | field object className field =>
    rw [lowerExpr]
    exact only bodies (fun _ => .bind (.fieldVar _ _ _) fun _ => .pure _) parts passed
  | actorVar actor name =>
    rw [lowerExpr]
    exact actorOf bodies (fun _ _ => .pure _) parts passed
  | binary op lhs rhs =>
    rw [lowerExpr]
    exact pair bodies (fun _ _ => .pure _) parts passed
  | not inner | negate inner | length inner =>
    rw [lowerExpr]
    exact only bodies (fun _ => .pure _) parts passed
  | new className index arguments =>
    obtain rfl : arguments = before ++ e' :: after := parts
    rw [lowerExpr]
    exact .first (.exprs bodies _) (fun _ => bodies.expandNew _ _ _) (exprs bodies passed)
  | call className method object arguments =>
    change s.passed className method object arguments = before ++ e' :: after at parts
    unfold UnitState.passed at parts
    split at parts
    · next callee u resolved =>
      obtain rfl := run_resolveCallee_ok resolved
      split at parts
      · next arity =>
        -- the callee is looked up in the same state as in `passed`, so it is the same one
        have behind (callee : Callee) : Composed (do
            let receivers ← lowerExprs into (receiverOf callee object)
            let values ← lowerExprs into arguments
            expandCall into callee receivers.head? values) :=
          .bind (.exprs bodies _) fun _ => .bind (.exprs bodies _) fun _ => bodies.expandCall _ _ _
        rw [lowerExpr_call]
        exact .later (.slotless (.resolveCallee _ _))
          (fun callee => .bind (.slotless (.checkArity _ _)) fun _ => behind callee) resolved
          (.later (.slotless (.checkArity _ _)) (fun _ => behind callee) (run_checkArity u arity)
            (rows bodies (fun _ _ => bodies.expandCall _ _ _) parts passed))
      · cases before <;> cases parts
    · cases before <;> cases parts

/-! ## The expressions of a statement -/

/-- An optional expression is come to if it is there. -/
theorem optional (bodies : into.Composed) {o : Option Expr} {g : Option Element → Lower β}
    (hg : ∀ x, Composed (g x)) (row : o.toList = before ++ e :: after)
    (passed : run (lowerExprs into before) s = some (.ok values, t)) :
    ComesTo (o.mapM (lowerExpr into) >>= g) s (lowerExpr into e) t := by
  cases o with
  | none => cases before <;> cases row
  | some a =>
    have mapped : (some a).mapM (lowerExpr into) = some <$> lowerExpr into a := rfl
    rw [mapped, ← bind_pure_comp, bind_assoc]
    exact only bodies (fun _ => .bind (.pure _) fun _ => hg _) row passed

/-- Lowering a statement comes to each of the expressions that it lowers first. -/
theorem operand (bodies : into.Composed) {k : StmtKind} (row : k.operands = before ++ e :: after)
    (passed : run (lowerExprs into before) s = some (.ok values, t)) :
    ComesTo (lowerKind into k) s (lowerExpr into e) t := by
  cases k with
  | define name initial recursive =>
    rw [lowerKind]
    exact optional bodies (fun _ => Composed.composes.map _ (Composed.rules.declare _ _ _))
      row passed
  | assign target index op value =>
    obtain rfl : index = before ++ e :: after := row
    rw [lowerKind]
    exact .first (.exprs bodies _) (fun _ => .assign bodies _ _ _ _) (exprs bodies passed)
  | forEach element index array body =>
    rw [lowerKind_forEach]
    exact only bodies (fun _ => .inScope (.loop bodies _)) row passed
  | «return» value =>
    rw [lowerKind]
    exact optional bodies (fun _ => .slotless (.leaveFrame _)) row passed
  | delete object className =>
    rw [lowerKind]
    exact only bodies (fun _ => .bind (.hiddenName _) fun _ =>
      .bind (Composed.rules.declare _ _ _) fun _ =>
      .bind .get fun _ => .onStorage (.release _ _ _) (.release _ _ _)) row passed
  | expr value =>
    rw [lowerKind]
    have alone := only bodies (g := pure) (fun _ => .pure _) row passed
    rw [bind_pure] at alone
    exact map (.expr bodies value) alone
  | cond | «while» | «for» | «break» | «continue» | block => cases before <;> cases row

/-- The target of an assignment is lowered behind the index. -/
theorem target (bodies : into.Composed) {target : Place} {index : List Element}
    {op : Source.AssignOp} {value : Expr} (row : s.targetOperands target = [e]) :
    ComesTo (assign into target index op value) s (lowerExpr into e) s := by
  have none : run (lowerExprs into []) s = some (.ok [], s) := by
    rw [lowerExprs]
    rfl
  cases target with
  | var | staticField => cases row
  | field object className field =>
    cases row
    exact .first (.expr bodies e) (fun _ => .bind (.fieldVar _ _ _) fun _ =>
      .bind (.expr bodies value) fun _ => .emit _) .here
  | actorVar actor name =>
    have alone : s.actorOf name actor = [] ++ [e] := row
    exact actorOf bodies (fun _ _ => .bind (.expr bodies value) fun _ => .bind (.lift _) fun _ =>
      .emit _) alone none

/-- The value of an assignment is lowered behind the target. -/
theorem value (bodies : into.Composed) {target : Place} {index : List Element}
    {op : Source.AssignOp} {value : Expr}
    (opened : run (openTarget into target) s = some (.ok (), t)) :
    ComesTo (assign into target index op value) s (lowerExpr into value) t := by
  cases target with
  | var name =>
    obtain ⟨v, found, -⟩ := run_map_ok.1 opened
    exact .later (.lookup name) (fun v => .bind (.expr bodies value) fun _ =>
      .bind (.lift _) fun _ => .emit _) found
      (.first (.expr bodies value) (fun _ => .bind (.lift _) fun _ => .emit _) .here)
  | field object className field =>
    obtain ⟨handle, u, ran, known⟩ := run_bind_ok.1 opened
    obtain ⟨v, found, -⟩ := run_map_ok.1 known
    exact .later (.expr bodies object) (fun _ => .bind (.fieldVar _ _ _) fun _ =>
        .bind (.expr bodies value) fun _ => .emit _) ran
      (.later (.fieldVar _ _ _) (fun _ => .bind (.expr bodies value) fun _ => .emit _) found
        (.first (.expr bodies value) (fun _ => .emit _) .here))
  | staticField className field =>
    obtain ⟨v, found, -⟩ := run_map_ok.1 opened
    exact .later (.staticVar _ _) (fun _ => .bind (.expr bodies value) fun _ => .emit _) found
      (.first (.expr bodies value) (fun _ => .emit _) .here)
  | actorVar actor name =>
    obtain ⟨_, u, first, second⟩ := run_bind_ok.1 opened
    obtain ⟨v, found, -⟩ := run_map_ok.1 first
    obtain ⟨x, ran, -⟩ := run_map_ok.1 second
    exact .later (.slotless (.actorVar _)) (fun _ => .bind (.expr bodies actor) fun _ =>
        .bind (.expr bodies value) fun _ => .bind (.lift _) fun _ => .emit _) found
      (.later (.expr bodies actor) (fun _ => .bind (.expr bodies value) fun _ =>
        .bind (.lift _) fun _ => .emit _) ran
        (.first (.expr bodies value) (fun _ => .bind (.lift _) fun _ => .emit _) .here))

/-! ## Conditions -/

/-- Opening a condition comes to it inside of a new scope. -/
theorem openCondition (bodies : into.Composed) (condition : Expr) :
    ComesTo (openCondition into condition) s (lowerExpr into condition) s.opened :=
  .later .openScope (fun _ => .expr bodies condition) rfl .here

/-- Lowering branches comes to the first condition. -/
theorem condition (bodies : into.Composed) (more : Bool) (chain : IfChain) (condition : Expr)
    (body : List Stmt) (rest : List Source.Branch) :
    ComesTo (lowerBranches into more chain (.mk condition body :: rest)) s
      (lowerExpr into condition) s.opened := by
  have opened : ComesTo (openArm into condition) s (lowerExpr into condition) s.opened :=
    .first (.openCondition bodies condition) (fun x => .guardArm x) (openCondition bodies condition)
  rw [lowerBranches]
  exact .first (.openArm bodies condition) (fun x => .bind (.inScope (.stmts bodies body)) fun _ =>
    .behindArm bodies chain rest more x) opened

/-- A loop tests its condition where it is set up. -/
theorem test (bodies : into.Composed) {l : Loop} {kind : LoopKind} {condition : Expr}
    {block : LoopBlock} (known : l.test? = some (kind, condition))
    (opened : run (onLoop (.new kind) (LoopBlock.setup s.scopes.length)) s = some (.ok block, t)) :
    ComesTo (l.lower into) s (lowerExpr into condition) t.opened := by
  have behind (block : LoopBlock) (x : Element) : Composed (do
      let block ← onLoop block (LoopBlock.guard (some x))
      return (block, ← closeCondition)) :=
    .bind (.slotless (.onLoop _ (.guard _))) fun _ => .bind .closeCondition fun _ => .pure _
  have set (block : LoopBlock) : Composed (do
      let x ← Lower.openCondition into condition
      let block ← onLoop block (LoopBlock.guard (some x))
      return (block, ← closeCondition)) := .bind (.openCondition bodies _) fun x => behind block x
  have inside : ComesTo (openLoop into kind condition) s (lowerExpr into condition) t.opened :=
    .later .get (fun s => .bind (.slotless (.onLoop _ (.setup _))) fun block => set block) rfl
      (.later (.slotless (.onLoop _ (.setup _))) set opened
        (.first (.openCondition bodies _) (behind block) (openCondition bodies condition)))
  have entered : ComesTo (l.enter into) s (lowerExpr into condition) t.opened := by
    cases l with
    | «while» | «for» =>
      cases known
      exact .first (.openLoop bodies _ _) (fun _ => .bind .openScope fun _ => .pure _) inside
    | forEach => cases known
  exact .first (.round bodies l) (fun x => .leave bodies x l)
    (.first (.enter bodies l) (fun _ => .bind (.stmts bodies _) fun _ => .bind .closeScope fun _ =>
      .pure _) entered)

/-! ## Calls -/

section

variable {className : Option String} {method : String} {object : Option Expr}
  {arguments : List Expr} {d : Declaration} {callee : Callee} {receiver : Option Element}
  {values : List Element} {result : IndexedVar}

/-- A call comes to its callee with the arguments lowered. -/
theorem call (bodies : into.Composed)
    (at' : CallAt into className method object arguments s d callee receiver values t) :
    ComesTo (lowerExpr into (.call className method object arguments)) s
      (expandCall into callee receiver values)
      t := by
  have given (callee : Callee) (receiver : Option Element) : Composed (do
      let values ← lowerExprs into arguments
      expandCall into callee receiver values) := .bind (.exprs bodies _) fun _ =>
        bodies.expandCall _ _ _
  have behind (callee : Callee) : Composed (do
      let receivers ← lowerExprs into (receiverOf callee object)
      let values ← lowerExprs into arguments
      expandCall into callee receivers.head? values) := .bind (.exprs bodies _) fun _ =>
        given callee _
  obtain ⟨receivers, u, first, rfl, second⟩ := at'.lowered
  rw [lowerExpr_call]
  exact .later (.slotless (.resolveCallee _ _))
    (fun callee => .bind (.slotless (.checkArity _ _)) fun _ => behind callee)
    at'.resolved (.later (.slotless (.checkArity _ _)) (fun _ => behind callee)
      (run_checkArity s at'.arity)
      (.later (.exprs bodies _) (fun _ => given callee _) first
        (.later (.exprs bodies _) (fun _ => bodies.expandCall _ _ _) second .here)))

/-- A call that is inlined comes to the body of its callee. -/
theorem inlined (bodies : into.Composed) (plain : callee.decl.recursive = false)
    (free : (s.frames.any fun frame => frame.method == some callee.key) = false)
    (ret : run (temp "ret") s = some (.ok result, t)) :
    ComesTo (expandCall into callee receiver values) s
      (expandBody into callee.key callee.decl.params callee.decl.body receiver values
        (some result)) t := by
  have written (result : IndexedVar) : Composed (do
      expandBody into callee.key callee.decl.params callee.decl.body receiver values (some result)
      materialize (result.get none)) :=
    .bind (bodies.expandBody _ _ _ _ _ _) fun _ => Composed.rules.materialize _
  refine .later .get (fun s => bodies.expandCallIn s callee receiver values) rfl ?_
  dsimp only
  rw [if_neg (by simp [plain]), if_neg (by simp [free])]
  simp only [pure_bind]
  exact .later (.temp _) written ret
    (.first (bodies.expandBody _ _ _ _ _ _) (fun _ => Composed.rules.materialize _) .here)

/-- A call of a recursive callee that has no region comes to a region of its own. -/
theorem region (bodies : into.Composed) (recursive : callee.decl.recursive = true)
    (free : findRegion? s.regions callee.key = none) :
    ComesTo (expandCall into callee receiver values) s
      (expandRegion into callee.key callee.decl.params callee.decl.body receiver values) s := by
  refine .later .get (fun s => bodies.expandCallIn s callee receiver values) rfl ?_
  dsimp only
  rw [if_pos recursive, free]
  exact .first (bodies.expandRegion _ _ _ _ _) (fun _ => Composed.rules.materialize _) .here

end

end ComesTo

/-! ## Instances -/

/-- What a `new` does once it has its handle. -/
def instantiate (into : Expander) (className : String) (index : Nat) (values : List Element)
    (constructor : ConstructorDecl) (fields : List (Nat × Option Expr)) (this : Element) :
    Lower Element := do
  initializeFields into this fields
  expandBody into s!"{className}.new#{index}" constructor.params constructor.body
    (some this) values none
  return this

/-- What a `new` does in a session once it is accepted. -/
def acquire (into : Expander) (className : String) (index : Nat) (values : List Element)
    (σ : Session) (constructor : ConstructorDecl) : Lower Element := do
  let fields ← (fieldInitials σ.classes className : Except LowerError _)
  let handle ← declare (← hiddenName "new") none false
  let layout ← (σ.classes.layout className : Except LowerError _)
  onStorage (ClassStorage.prepare layout)
  onStorage (ClassStorage.acquireHandle σ.config handle)
  instantiate into className index values constructor fields handle.get

/-- Accepts a `new` with as many arguments as its constructor has parameters. -/
def accept (into : Expander) (className : String) (index : Nat) (values : List Element)
    (σ : Session) (constructor : ConstructorDecl) : Lower Element := do
  if constructor.params.length ≠ values.length then
    throw (.defect (.wrongConstructorArgumentCount className index constructor.params.length
      values.length))
  acquire into className index values σ constructor

/-- An instance is made in the steps named here. -/
theorem expandNew_eq (className : String) (index : Nat) (values : List Element) :
    expandNew into className index values = (do
      let s ← get
      let constructor ← (s.session.classes.constructor className index : Except LowerError
        ConstructorDecl)
      accept into className index values s.session constructor) := rfl

namespace ComesTo

variable {className : String} {index : Nat} {arguments : List Expr} {values : List Element}
  {constructor : ConstructorDecl} {fields : List (Nat × Option Expr)} {handle : Variable}

/-- A `new` that has its handle comes to the initial values of the fields and the body of the
constructor. -/
theorem new (bodies : into.Composed) (stays : into.StaysPut)
    (at' : NewAt into className index arguments s values constructor fields handle t) :
    ComesTo (lowerExpr into (.new className index arguments)) s
      (instantiate into className index values constructor fields handle.get) t := by
  obtain ⟨arity, found, known, s₁, hidden, s₂, s₃, layout, s₄, lowered, named, declares, laid,
    prepared, acquired⟩ :=
    at'
  have classes : s₁.session.classes = s.session.classes :=
    congrArg Surroundings.classes (stays.exprs _ _ _ _ lowered)
  rw [← classes] at found known laid
  have accepted : ¬ constructor.params.length ≠ values.length :=
    not_not.2 (arity.trans (length_of_lowerExprs lowered).symm)
  -- what is left to do, from the end backwards
  have last (c : ConstructorDecl) (fields : List (Nat × Option Expr)) (this : Element) :
      Composed (instantiate into className index values c fields this) :=
    .bind (bodies.initializeFields _ _) fun _ =>
      .bind (bodies.expandBody _ _ _ _ _ _) fun _ => .pure _
  have taking (σ : Session) (c : ConstructorDecl) (fields : List (Nat × Option Expr))
    (handle : Variable) :=
    Composed.bind (Composed.onStorage (.acquireHandle σ.config handle)
      (.acquireHandle σ.config handle)) fun _ =>
      last c fields handle.get
  have laying (σ : Session) (c : ConstructorDecl) (fields : List (Nat × Option Expr))
    (handle : Variable) :=
    Composed.bind (Composed.lift (σ.classes.layout className)) fun layout =>
      .bind (.prepare layout) fun _ => taking σ c fields handle
  have declaring (σ : Session) (c : ConstructorDecl) (fields : List (Nat × Option Expr))
    (hidden : String) :=
    Composed.bind (Composed.rules.declare hidden none false) fun handle => laying σ c fields handle
  have acquiring (σ : Session) (c : ConstructorDecl) :
    Composed (acquire into className index values σ c) :=
    .bind (.lift _) fun fields => .bind (.hiddenName "new") fun hidden =>
      declaring σ c fields hidden
  have accepting (σ : Session) (c : ConstructorDecl) :
    Composed (accept into className index values σ c) := by
    unfold accept
    split
    · exact .bind (.throw _) fun _ => acquiring σ c
    · exact acquiring σ c
  have taken : ComesTo (acquire into className index values s₁.session constructor) s₁
      (instantiate into className index values constructor fields handle.get) t :=
    .later (.lift _) (fun fields => .bind (.hiddenName "new") fun hidden =>
      declaring _ _ fields hidden)
      (run_lift_ok.2 ⟨known, rfl⟩)
      (.later (.hiddenName _) (fun hidden => declaring _ _ _ hidden) named
        (.later (Composed.rules.declare _ _ _) (fun handle => laying _ _ _ handle) declares
          (.later (.lift _) (fun layout => .bind (.prepare layout) fun _ => taking _ _ _ _)
            (run_lift_ok.2 ⟨laid, rfl⟩)
            (.later (.prepare _) (fun _ => taking _ _ _ _) prepared
              (.later (.onStorage (.acquireHandle _ _) (.acquireHandle _ _))
                (fun _ => last _ _ _) acquired .here)))))
  have passes : accept into className index values s₁.session constructor =
      acquire into className index values s₁.session constructor := by
    rw [accept, if_neg accepted]
  rw [lowerExpr]
  refine .later (.exprs bodies _) (fun values => bodies.expandNew _ _ _) lowered ?_
  rw [expandNew_eq]
  exact .later .get (fun s => .bind (.lift _) fun c => accepting s.session c) rfl
    (.later (.lift _) (fun c => accepting s₁.session c) (run_lift_ok.2 ⟨found, rfl⟩)
      (passes ▸ taken))

/-- The initial values of the fields are lowered one behind the other, in a body of their own. -/
theorem initial (bodies : into.Composed) {before after : List (Nat × Option Expr)} {stack : Nat}
    {e : Expr} {this : Element}
    (bound : run (bind "this" (.reference this)) (s.opened.entered (s.expanded none none)) =
      some (.ok (), t))
    (passed : run (initialFields into this before) t = some (.ok (), u)) :
    ComesTo (initializeFields into this (before ++ (stack, some e) :: after)) s
      (into.initial e) u := by
  have write (stack : Nat) (value : Element) : Composed (do
      emit ((← onStorage (ClassStorage.fieldStack stack)).set value none [this])) :=
    .bind (.fieldStack _) fun _ => .emit _
  have field (a : Nat × Option Expr) : Composed (initialField into this a) := by
    obtain ⟨stack, _ | e⟩ := a
    · exact .bind (.pure _) fun _ => write stack _
    · exact .bind (bodies.initial e) fun _ => write stack _
  have fields (l : List (Nat × Option Expr)) : Composed (initialFields into this l) :=
    Composed.composes.forM fun a _ => field a
  have bind (l : List (Nat × Option Expr)) :=
    Composed.bind (.bindReference "this" this) fun _ => fields l
  have framed (frame : Frame) (l : List (Nat × Option Expr)) :=
    Composed.bind (.slotless (.pushFrame frame)) fun _ => bind l
  have value : ComesTo (initialFields into this (before ++ (stack, some e) :: after)) t
    (into.initial e) u :=
    (ComesTo.forM field passed).trans (.first (bodies.initial e) (fun _ => write stack _) .here)
  exact .later (.slotless (.expandedFrame none none))
    (fun frame => .bind (.inScope (framed frame _)) fun _ => .slotless .closeFrame) rfl
    (.first (.inScope (framed _ _)) (fun _ => .slotless .closeFrame)
      ((ComesTo.inScope (framed _ _)).trans (.later (.slotless (.pushFrame _)) (fun _ => bind _) rfl
        (.later (.bindReference "this" this) (fun _ => fields _) bound value))))

end ComesTo

/-! ## Bodies -/

/-- Binding a receiver and parameters is binding one after the other. -/
theorem BindsThis.run_bindCall {receiver : Option Element} {names : List (String × Variable)}
    (h : BindsThis receiver s names t) (params : List String) (arguments : List Element) :
    run (bindCall receiver params arguments) s = run (declareParams params arguments) t := by
  cases h with
  | none => rfl
  | stable known bound =>
    rw [bindCall, bindThis, if_pos known, run_bind, bound]
  | computed known declares =>
    have ran : run (discard (declare "this" (some _) false)) s = some (.ok (), t) :=
      run_map_ok.2 ⟨_, declares, rfl⟩
    rw [bindCall, bindThis, if_neg (by simp [known]), run_bind, ran]

/-- Parameters that are bound are declared. -/
theorem BindsParams.run_declares {pairs : List (String × Element)}
    {names : List (String × Variable)} (h : BindsParams pairs s names t) :
    run (pairs.forM fun (param, argument) =>
      discard (declare param (some argument) false)) s = some (.ok (), t) := by
  induction h with
  | nil => rfl
  | cons declares _ ih => exact run_bind_ok.2 ⟨(), _, run_map_ok.2 ⟨_, declares, rfl⟩, ih⟩

/-- A body is lowered behind the names that are bound in it. -/
theorem ComesTo.body {depth : Nat} {key : String} {params : List String} {body : List Stmt}
    {receiver : Option Element} {values : List Element} {result : Option IndexedVar}
    {this names : List (String × Variable)}
    (bound : BindsThis receiver (s.opened.entered (s.expanded (some key) result)) this t)
    (given : BindsParams (params.zip values) t names u) :
    ComesTo (expandBody (expander (depth + 1)) key params body receiver values result) s
      (lowerStmts (expander depth) body) u.opened :=
  (ComesTo.expandedBody (.expander _) ((bound.run_bindCall params values).trans
    given.run_declares)).trans
    (.inScope (.stmts (.expander depth) body))

/-- Lowering an expression comes to the body that is expanded for it. -/
theorem Expands.comesTo {depth : Nat} {e : Expr} {o : OpenBody} {names : List (String × Variable)}
    {part : Source.Part} (h : Expands (expander (depth + 1)) e s o names part t) :
    ComesTo (lowerExpr (expander (depth + 1)) e) s (part.lower (expander depth)) t := by
  have bodies : (expander (depth + 1)).Composed := .expander _
  have stays : (expander (depth + 1)).StaysPut := .expander _
  cases h with
  | inlined at' plain free ret bound given =>
    exact (ComesTo.call bodies at').trans ((ComesTo.inlined bodies plain free ret).trans
      (.body bound given))
  | region at' recursive free ret addr opened =>
    exact (ComesTo.call bodies at').trans ((ComesTo.region bodies recursive free).trans
      ((ComesTo.regionBody bodies ret addr opened).trans (.inScope (.stmts (.expander depth) _))))
  | constructor at' initialized bound given =>
    exact (ComesTo.new bodies stays at').trans
      (.later (bodies.initializeFields _ _) (fun _ => .bind (bodies.expandBody _ _ _ _ _ _) fun _ =>
        .pure _)
        initialized (.first (bodies.expandBody _ _ _ _ _ _) (fun _ => .pure _) (.body bound given)))
  | initial at' bound passed =>
    exact (ComesTo.new bodies stays at').trans
      (.first (bodies.initializeFields _ _) (fun _ => .bind (bodies.expandBody _ _ _ _ _ _) fun _ =>
        .pure _)
        (ComesTo.initial bodies bound passed))

end Lower

/-! ## Ways -/

/-- A statement that passes lowers. -/
theorem Lower.PassesBy.lowers {into : Expander} {first : Stmt} {s t : UnitState}
    {declared : List (String × Variable)} (h : PassesBy into first s declared t) :
    run (lowerStmt into first) s = some (.ok (), t) := by
  cases h with
  | @define name initial recursive span value v _ u w lowered declares =>
    have inside : run (lowerKind into (.define name initial recursive)) { s with span := span } =
        some (.ok (), w) := by
      rw [lowerKind]
      exact run_bind_ok.2 ⟨value, u, lowered, run_map_ok.2 ⟨v, declares, rfl⟩⟩
    rw [lowerStmt]
    exact run_located_some inside
  | other _ ran => exact ran

namespace Spot

/-- What lowering does at a spot. -/
def lower (p : Spot) : Lower p.part.Out := p.part.lower (expander p.depth)

/-- A step inward is come to. -/
theorem Inward.comesTo {p q : Spot} (step : p.Inward q) :
    ComesTo p.lower p.state q.lower q.state := by
  have bodies (depth : Nat) : (expander depth).Composed := .expander depth
  cases step with
  | inner step _ => exact step.comesTo (bodies _)
  | tail passed => exact Inner.comesTo (bodies _) (.tail passed.lowers)
  | @«for» depth _ _ _ first _ _ _ s t passed =>
    -- the first statement is lowered as a body of its own
    have ran : run (lowerStmts (expander depth) (some first).toList) s.opened =
      some (.ok (), t) := by
      rw [Option.toList, lowerStmts, lowerStmts]
      exact run_bind_ok.2 ⟨(), t, passed.lowers, rfl⟩
    exact Inner.comesTo (bodies _) (.for ran)
  | body entered => exact .loopBody (bodies _) entered
  | condition => exact .condition (bodies _) _ _ _ _ _
  | test known opened => exact .test (bodies _) known opened
  | operand row passed => exact .operand (bodies _) row passed
  | @target depth _ _ target index op value e _ s t lowered row =>
    have inside : ComesTo (lowerKind (expander depth) (.assign target index op value)) s
        (lowerExpr (expander depth) e) t := by
      rw [lowerKind]
      exact .later (.exprs (bodies _) _) (fun _ => .assign (bodies _) _ _ _ _) lowered
        (.target (bodies _) row)
    exact inside
  | @value depth _ _ target index op value _ s _ u lowered opened =>
    have inside : ComesTo (lowerKind (expander depth) (.assign target index op value)) s
        (lowerExpr (expander depth) value) u := by
      rw [lowerKind]
      exact .later (.exprs (bodies _) _) (fun _ => .assign (bodies _) _ _ _ _) lowered
        (.value (bodies _) opened)
    exact inside
  | part parts passed => exact .part (bodies _) parts passed
  | expands expands => exact expands.comesTo

end Spot

/-- Lowering a unit comes to the end of every way that begins in it. -/
theorem Session.Begins.comesTo_of_way {σ : Session} {p q : Spot} (begins : σ.Begins p)
    (way : Relation.ReflTransGen Spot.Inward p q) : ∃ unit pool m, σ.Runs unit pool m ∧
      ComesTo m (.new σ unit pool) q.lower q.state := by
  induction way with
  | refl =>
    cases begins with
    | @rule unit pool body => exact ⟨unit, pool, _, .rule unit pool body, Starts.rule.comesTo⟩
    | @static before after className name e t initials passed =>
      -- all initial values of static fields are one unit, each behind those before it
      have into := Expander.Composed.expander (expansionBound σ)
      have field (a : String × String × Expr) : Composed (do
          let value ← lowerExpr (expander (expansionBound σ)) a.2.2
          emit ((← staticVar a.1 a.2.1).set value none [])) :=
        .bind (.expr into _) fun _ => .bind (.staticVar _ _) fun _ => .emit _
      have row : ComesTo (staticInitials (expander (expansionBound σ))
        (before ++ (className, name, e) :: after))
          ((UnitState.new σ Session.staticInitUnit .global).entered unitFrame).opened
          (lowerExpr (expander (expansionBound σ)) e) t :=
        (ComesTo.forM field passed).trans
          (.first (.expr into e) (fun _ => .bind (.staticVar _ _) fun _ => .emit _) .here)
      have unit := ComesTo.unitBody (.staticInitials into _) row
      exact ⟨_, _, _, .statics, initials ▸ unit⟩
  | tail _ step ih =>
    obtain ⟨unit, pool, m, runs, comes⟩ := ih
    exact ⟨unit, pool, m, runs, comes.trans step.comesTo⟩

end SkipCode
