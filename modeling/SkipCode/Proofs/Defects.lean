import SkipCode.Proofs.SafeSteps
import SkipCode.Proofs.Stacks

/-!
# No defect of the lowering is reached

Every part of lowering is safe when the lowering of bodies is: a call, a `new`, an expression
(`Safe.expr`) and a statement (`Safe.stmts`) leave behind a state that lowering can go on from, and
fail for reasons of the program only. In a conditional the skips to the end of its chain are held
from arm to arm (`Safe.arms`).
-/

namespace SkipCode

open Source (Branch ClassDecl Expr Place Program Stmt StmtKind)

/-- The lowering of bodies is safe. -/
structure Expander.Safe (into : Expander) : Prop where
  block : ∀ body, Lower.Safe (into.block body)
  initial : ∀ e, Lower.Safe (into.initial e)

namespace Lower

variable {into : Expander} {s t : UnitState} {held : List Nat}

/-- A body in a frame of its own. -/
theorem SafeAt.body {m : Lower Unit} {frame : Frame} (none : frame.returns = [])
    (intact : s.Intact held)
    (h : (s.opened.entered frame).Intact held → m.SafeAt held (s.opened.entered frame)) :
    SafeAt (do
      Lower.inScope do
        pushFrame frame
        m
      closeFrame) held s := by
  -- the scope of the body is closed first, then its frame
  have inner : (Lower.inScope do
      pushFrame frame
      m).Meets s fun _ t => t.Intact held ∧ (s.entered frame).Steady t := by
    refine .bindRun (run_openScope s) (.bind (.bindRun rfl (h (intact.opened.entered none)))
      fun _ t ⟨intact', steady⟩ => ?_)
    obtain ⟨scope, rest, e⟩ := steady.exists_scope (List.cons_ne_nil _ _)
    obtain ⟨σ, closed, more, intact''⟩ := run_closeScope intact' e
    have popped : (s.entered frame).Steady
        { t with scopes := rest, list := t.list.extend (scopePops scope), session := σ } :=
      UnitState.Steady.pop steady e more
    exact .bindRun closed (.pure ⟨intact'', popped⟩)
  refine inner.bind fun _ t ⟨intact', steady⟩ => ?_
  obtain ⟨frame', frames, -, -, e⟩ := List.forall₂_cons_left_iff.1 steady.frames
  obtain ⟨list, closed, intact''⟩ := run_closeFrame intact' e
  exact .ofRun closed ⟨intact'', .inBody steady list⟩

/-- A body in place of a call fails as its parts do. -/
theorem Safe.expandBody (bodies : into.Safe) (key : String) (params : List String)
    (body : List Stmt) (receiver : Option Element) (arguments : List Element)
    (result : Option IndexedVar) :
    Safe (Lower.expandBody into key params body receiver arguments result) := by
  intro held s intact inside
  refine .bindRun rfl (SafeAt.body rfl intact fun intact' => ?_)
  have inside' : (s.opened.entered (s.expanded (some key) result)).Inside :=
    ⟨List.cons_ne_nil _ _, List.cons_ne_nil _ _⟩
  have rest : Safe (do
      Lower.declareParams params arguments
      into.block body) := .bind (Safe.rules.declareParams _ _) fun _ => bodies.block body
  cases receiver with
  | none => exact rest held _ intact' inside'
  | some receiver =>
    exact Safe.bind (Safe.rules.bindThis receiver) (fun _ => rest) held _ intact' inside'

/-! ## Regions -/

/-- A dispatch to positions inside of a list keeps it sound. -/
theorem sound_dispatchOn (address : Element) {list : ActionList} {positions : List Nat}
    (number : Nat) {sites : List Nat} (sound : list.Sound positions)
    (back : ∀ p ∈ sites, p ≤ list.length) :
    (dispatchOn address list number sites).Sound positions := by
  induction sites generalizing list number with
  | nil => exact sound
  | cons site rest ih =>
    refine ih (number + 1) (sound.dispatch _ (back site (List.mem_cons_self ..))) fun p mem => ?_
    have := back p (List.mem_cons_of_mem _ mem)
    rw [ActionList.length_pushSkipTo, ActionList.length_extend]
    omega

/-- So the dispatch behind a recursive body never fails. -/
theorem safeAt_dispatch (address : IndexedVar) {sites : List Nat} (intact : s.Intact held)
    (back : ∀ p ∈ sites, p ≤ s.list.length) : (dispatch address 0 sites).SafeAt held s :=
  .ofRun (run_dispatch address 0 sites s) ⟨intact.withList
    (sound_dispatchOn _ 0 intact.skips back) (by rw [length_dispatchOn]; omega),
      .withList (.refl s) _⟩

/-- The region of a recursive method. Its calls inside lead back to its body, and its end to where
they go on. -/
theorem Safe.expandRegion (bodies : into.Safe) (key : String) (params : List String)
    (body : List Stmt) (receiver : Option Element) (arguments : List Element) :
    Safe (Lower.expandRegion into key params body receiver arguments) := by
  refine .bind (.temp _) fun result => .bind (.temp _) fun address held s intact inside =>
    .bindRun rfl ?_
  have region : (do
      let region ← Lower.openRegion key params receiver arguments result
      pushFrame (s.activation key result)
      pushRegion region
      into.block body
      closeFrame
      let region ← popRegion
      Lower.emit (address.set (region.returnAddress.get none) none [])
      return region.callSites).Meets s.opened fun sites t =>
        t.Intact held ∧ s.opened.Steady t ∧ ∀ p ∈ sites, p ≤ t.list.length := by
    have opened : (Lower.openRegion key params receiver arguments result).Meets s.opened
        fun region t => (t.Intact held ∧ s.opened.Steady t) ∧ region.bodyStart = t.list.length ∧
          region.callSites = [] :=
      Meets.withRun (Safe.rules.openRegion key params receiver arguments result held s.opened
        intact.opened inside.opened) fun region t run h => ⟨h, run_openRegion_ok run⟩
    refine opened.bind fun region t h => .bindRun rfl (.bindRun rfl ?_)
    obtain ⟨⟨intact', steady⟩, start, fresh⟩ := h
    -- the new region starts here and knows no calls
    have entered : ((t.entered (s.activation key result)).within region).Intact held := by
      have inner : (t.entered (s.activation key result)).Intact held := intact'.entered rfl
      refine ⟨inner.skips, inner.starts, fun r mem => ?_, inner.exits, inner.lends, inner.built⟩
      rcases List.mem_cons.1 mem with rfl | mem
      · exact ⟨Nat.le_of_eq start, by rw [fresh]; exact nofun⟩
      · exact inner.regions r mem
    refine Meets.bind (bodies.block body held _ entered ⟨(steady.inside inside.opened).scopes,
      List.cons_ne_nil _ _⟩) fun _ u h => ?_
    obtain ⟨intact'', steady'⟩ := h
    -- the frame and the region are still there to be closed
    obtain ⟨frame', frames, -, -, e⟩ := List.forall₂_cons_left_iff.1 steady'.frames
    obtain ⟨list, closed, intact₃⟩ := run_closeFrame intact'' e
    obtain ⟨closing, regions, -, -, opened⟩ := List.forall₂_cons_left_iff.1 steady'.regions
    have popped : run popRegion (u.left list) =
        some (.ok closing, { u.left list with regions }) := by
      simp only [popRegion, run_bind, run_get, UnitState.left, opened, run_set, run_pure]
    have sites := intact₃.regions closing (by
      show closing ∈ u.regions
      rw [opened]
      exact List.mem_cons_self ..)
    have left : UnitState.Intact held { u.left list with regions } :=
      ⟨intact₃.skips, intact₃.starts, fun r mem => intact₃.regions r (by
        show r ∈ u.regions
        rw [opened]
        exact List.mem_cons_of_mem _ mem), intact₃.exits, intact₃.lends, intact₃.built⟩
    have through : t.Steady { u.left list with regions } :=
      .inBody (.inRegion steady' opened) list
    refine .bindRun closed (.bindRun popped (.bindRun (run_emit _ _) (.pure
      ⟨left.extend (contained_set _ _ _ _), (steady.trans through).withList _, fun p mem => ?_⟩)))
    have := sites.2 p mem
    show p ≤ (list.extend _).length
    rw [ActionList.length_extend]
    exact Nat.le_trans this (Nat.le_add_right _ _)
  have inside' := meets_inScope (P := fun sites n => ∀ p ∈ sites, p ≤ n)
    (fun _ _ _ le known p mem => Nat.le_trans (known p mem) le) region
  exact inside'.bind fun sites t h =>
    ((safeAt_dispatch address h.1 h.2.2).behind h.2.1).bind fun _ _ h => .pure h

/-- A call inside a region. -/
theorem safeAt_callRegion {index : Nat} {region : Region} (receiver : Option Element)
    (arguments : List Element) (intact : s.Intact held) (opened : region ∈ s.regions) :
    (callRegion index region receiver arguments).SafeAt held s := by
  have len : (s.list.extend (callEntry region receiver arguments)).length =
      s.list.length + (callEntry region receiver arguments).length :=
    ActionList.length_extend _ _
  have some : 0 < (callEntry region receiver arguments).length := by
    simp only [callEntry, List.length_append, length_pushActions]
    omega
  have start := (intact.regions region opened).1
  have back : region.bodyStart < (s.list.extend (callEntry region receiver arguments)).length := by
    omega
  have sound :=
    (intact.skips.extend (contained_callEntry region receiver arguments)).pushSkipTo back
  have longer := intact.withList sound (by
    rw [ActionList.length_pushSkipTo]
    omega)
  refine .ofRun (run_callRegion index region receiver arguments s)
    ⟨⟨longer.skips, longer.starts, fun r mem => ?_, intact.exits, intact.lends, intact.built⟩,
      (UnitState.Steady.noteCall s index _).withList _⟩
  -- Where the call goes on is the end of the list.
  have here : s.list.length + (callEntry region receiver arguments).length + 1 ≤
      ((s.list.extend (callEntry region receiver arguments)).pushSkipTo
        region.bodyStart).length := by
    rw [ActionList.length_pushSkipTo]
    omega
  obtain ⟨i, hi, rfl⟩ := List.getElem_of_mem mem
  have hi' : i < s.regions.length := by simpa [noteCall, UnitState.withList] using hi
  have old := longer.regions s.regions[i] (List.getElem_mem hi')
  simp only [noteCall, UnitState.withList, List.getElem_modify]
  split
  · refine ⟨old.1, fun p hp => ?_⟩
    rcases List.mem_append.1 hp with hp | hp
    · exact old.2 p hp
    · rw [List.mem_singleton.1 hp]
      exact here
  · exact old

/-- A call in place fails as its arguments do. -/
theorem Safe.expandCall (bodies : into.Safe) (callee : Callee) (receiver : Option Element)
    (arguments : List Element) :
    Safe (Lower.expandCall into callee receiver arguments) := by
  refine .bindGet fun held s intact inside => ?_
  have keep (x : Element) := Safe.rules.materialize x
  dsimp only
  split
  · split
    · next index region found =>
      exact .bind (safeAt_callRegion receiver arguments intact
        (List.mem_of_getElem? (findRegion?_at found)))
        fun x t intact' steady => keep x held t intact' (steady.inside inside)
    · exact Safe.bind (.expandRegion bodies _ _ _ _ _) (fun x => keep x) held s intact inside
  · split
    · exact Meets.bind (P := fun _ _ => False) (.throw (.unsupported _)) fun _ _ h => h.elim
    · exact Safe.bind (.temp _) (fun result => .bind (.expandBody bodies _ _ _ _ _ _) fun _ =>
        keep _) held s intact inside

/-! ## Instances -/

/-- Initial values of fields that have stacks are written. -/
theorem safeAt_initializeFields (bodies : into.Safe) (this : Element)
    {fields : List (Nat × Option Expr)} (intact : s.Intact held)
    (made : ∀ p ∈ fields, p.1 < s.session.classData.fieldStacks.length) :
    (initializeFields into this fields).SafeAt held s := by
  refine .bindRun rfl (SafeAt.body rfl intact fun intact' => ?_)
  have inside : (s.opened.entered (s.expanded none none)).Inside :=
    ⟨List.cons_ne_nil _ _, List.cons_ne_nil _ _⟩
  refine SafeAt.bind (Safe.bindName _ _ held _ intact' inside) fun _ t intact'' steady => ?_
  refine Meets.forM (I := fun u => u.Intact held ∧ t.Steady u)
    (fun p mem u ⟨intact₃, steady'⟩ => ?_)
    ⟨intact'', .refl t⟩
  have inside' := (steady.trans steady').inside inside
  -- one field, whether it has an initial value or not
  have last (value : Lower Element) (safe : Safe value) : (do
      let v ← value
      Lower.emit ((← Lower.onStorage (ClassStorage.fieldStack p.1)).set v none [this])).Meets u
        fun _ w => w.Intact held ∧ t.Steady w := by
    refine Meets.bind (safe held u intact₃ inside') fun v w ⟨intact₄, steady₄⟩ => ?_
    have lt := Nat.lt_of_lt_of_le (made p mem)
      ((steady.trans (steady'.trans steady₄)).grows.session.classData.fieldStacks.length_le)
    refine Meets.bind (safeAt_fieldStack intact₄ lt) fun stack x ⟨intact₅, steady₅⟩ => ?_
    exact .ofRun (run_emit _ _) ⟨intact₅.extend (contained_set _ _ _ _),
      (steady'.trans (steady₄.trans steady₅)).withList _⟩
  obtain ⟨stack, initial⟩ := p
  cases initial with
  | none => exact last (Pure.pure .neutral) (.pure _)
  | some e => exact last (into.initial e) (bodies.initial e)

/-- An instance in place fails as its constructor does. -/
theorem Safe.expandNew (bodies : into.Safe) (className : String) (constructorIndex : Nat)
    (arguments : List Element) :
    Safe (Lower.expandNew into className constructorIndex arguments) := by
  refine .bindGet fun held s intact inside => .bindLift (.constructor _ _) fun constructor _ => ?_
  dsimp only
  split
  · exact Meets.bind (P := fun _ _ => False) (.throw (.defect rfl)) fun _ _ h => h.elim
  refine .bindLift (.fieldInitials intact.built className) fun fields hfields => ?_
  refine SafeAt.bind (Safe.hiddenName _ held s intact inside) fun name t intact₁ steady₁ => ?_
  refine SafeAt.bind (Safe.rules.declare name none false held t intact₁ (steady₁.inside inside))
    fun handle u intact₂ steady₂ => ?_
  refine .bindLift (.layout className) fun layout hlayout => ?_
  refine (meets_prepare intact₂ layout).bind fun _ v ⟨⟨intact₃, steady₃⟩, made⟩ => ?_
  have inside₃ := (steady₁.trans (steady₂.trans steady₃)).inside inside
  refine Meets.bind (Safe.onStorage (.acquireHandle s.session.config handle) held v intact₃ inside₃)
    fun _ w ⟨intact₄, steady₄⟩ => ?_
  -- the stacks of all fields were prepared, and none goes away
  have lt : ∀ p ∈ fields, p.1 < w.session.classData.fieldStacks.length := fun p mem =>
    Nat.lt_of_lt_of_le (fst_lt_of_fieldInitials intact.built hfields hlayout mem)
      (Nat.le_trans made steady₄.grows.session.classData.fieldStacks.length_le)
  refine Meets.bind (safeAt_initializeFields bodies handle.get intact₄ lt)
    fun _ x ⟨intact₅, steady₅⟩ => ?_
  have through := steady₃.trans (steady₄.trans steady₅)
  exact ((Safe.expandBody bodies _ _ _ _ _ _ held x intact₅
    ((steady₄.trans steady₅).inside inside₃)).behind through).bind fun _ _ h => .pure h

/-! ## Expressions -/

/-- What an expression is made of is safe. -/
theorem Safe.exprRules (bodies : into.Safe) : ExprRules into Safe where
  pure := .pure
  bind := .bind
  lookup := .lookup
  fieldVar := .fieldVar
  staticVar := .staticVar
  actorVar := .actorVar
  resolveCallee := .resolveCallee
  checkArity := .checkArity
  expandNew := .expandNew bodies
  expandCall := .expandCall bodies

/-- An expression fails at a name or an argument count only. -/
theorem Safe.expr (bodies : into.Safe) (e : Expr) :
    Safe (lowerExpr into e) := (Safe.exprRules bodies).expr e

/-! ## Statements -/

/-- A write to a variable that was resolved fails as its resolution does. -/
theorem Safe.write (v : Variable) (name : String) (value : Element) (actor : Option Element)
    (extra : List Element) : Safe (liftM (v.setFor name value actor extra) >>= Lower.emit) :=
  fun held s intact inside => .bindLift (.setFor _ _ _ _ _) fun _ h =>
    Safe.emit (.straight (straight_setFor h)) held s intact inside

/-- An assignment fails as its parts do. -/
theorem Safe.assign (bodies : into.Safe) (target : Place) (index : List Element)
    (op : Source.AssignOp) (value : Expr) : Safe (Lower.assign into target index op value) := by
  cases target with
  | var name =>
    exact .bind (.lookup _) fun _ => .bind (.expr bodies value) fun _ => .write _ _ _ _ _
  | field object className field =>
    exact .bind (.expr bodies object) fun _ => .bind (.fieldVar _ _ _) fun _ =>
      .bind (.expr bodies value) fun _ => .emit (contained_set _ _ _ _)
  | staticField className field =>
    exact .bind (.staticVar _ _) fun _ => .bind (.expr bodies value) fun _ =>
      .emit (contained_set _ _ _ _)
  | actorVar actor name =>
    exact .bind (.actorVar _) fun _ => .bind (.expr bodies actor) fun _ =>
      .bind (.expr bodies value) fun _ => .write _ _ _ _ _

/-- A deletion fails as its object does. -/
theorem Safe.delete (bodies : into.Safe) (object : Expr) (className : String) :
    Safe (Lower.delete into object className) :=
  .bind (.expr bodies object) fun _ => .bind (.hiddenName _) fun _ =>
    .bind (Safe.rules.declare _ _ _) fun _ =>
    .bindGet fun held s intact inside =>
      Safe.onStorage (.release intact.built _ _) held s intact inside

mutual

/-- A statement fails as its kind does, by induction on the syntax. -/
theorem Safe.stmt (bodies : into.Safe) : (s : Stmt) → Safe (lowerStmt into s)
  | .mk k span => by
    rw [lowerStmt]
    exact .located span (kind bodies k)

/-- So does a kind of statement, as its parts do. -/
theorem Safe.kind (bodies : into.Safe) : (k : StmtKind) → Safe (lowerKind into k)
  | .define name initial recursive => by
    rw [lowerKind]
    exact .bind (Safe.composes.optionMapM (fun e => .expr bodies e) _) fun _ =>
      .map _ (Safe.rules.declare _ _ _)
  | .assign target index op value => by
    rw [lowerKind]
    exact .bind ((Safe.exprRules bodies).exprs index) fun _ => .assign bodies _ _ _ _
  | .cond branches none => by
    rw [lowerKind]
    exact fun held s intact inside => Meets.bind (arms bodies _ .new branches intact inside)
      fun _ _ h => (meets_closeChain h.1).behind h.2
  | .cond branches (some body) => by
    rw [lowerKind]
    exact fun held s intact inside => Meets.bind (arms bodies _ .new branches intact inside)
      fun _ _ h => Meets.bind (Safe.inScope (stmts bodies body) _ _ h.1 (h.2.inside inside))
        fun _ _ h' => (meets_closeChain h'.1).behind (h.2.trans h'.2)
  | .while condition body => by
    rw [lowerKind]
    refine fun held s intact inside => Meets.bind (meets_openLoop (fun _ _ => nofun)
      (.expr bodies condition) intact inside) fun p t h => ?_
    obtain ⟨exit, opened, le, straight, intact', steady⟩ := h
    refine Meets.bind (Safe.inScope (stmts bodies body) _ _ intact' (steady.inside ⟨inside.scopes,
      inside.frames⟩)) fun _ u h => ?_
    exact meets_closeLoop_guarded h.1 (steady.trans h.2) (by rw [opened]) (by rw [opened])
      (by rw [opened]) (by rw [opened]; exact le) straight
  | .for start condition step body => by
    -- behind the first statement, if there is one
    have rest : Safe (do
        let (block, tail) ← Lower.openLoop into .for condition
        Lower.inScope (lowerStmts into body)
        let block ← Lower.onLoop block LoopBlock.epilogue
        match step with
        | some s => Lower.inScope (lowerStmt into s)
        | none => Pure.pure ()
        Lower.closeLoop block tail) := by
      refine fun held s intact inside => Meets.bind (meets_openLoop (fun _ _ => nofun)
        (.expr bodies condition) intact inside) fun p t h => ?_
      obtain ⟨exit, opened, le, straight, intact', steady⟩ := h
      have inside' := steady.inside ⟨inside.scopes, inside.frames⟩
      refine Meets.bind (Safe.inScope (stmts bodies body) _ _ intact' inside') fun _ u h => ?_
      have stage : p.1.stage = .guarded := by rw [opened]
      have start : p.1.start = s.list.length := by rw [opened]
      obtain ⟨breaks, v, closed, intact₃, steady₃⟩ :=
        exists_run_epilogue h.1 (steady.trans h.2) stage start
      refine .bindRun closed ?_
      -- the skips that still wait are those of the breaks and of the guard
      have last (w : UnitState) (intact : w.Intact (breaks ++ exit :: held)) (steady : s.Steady w) :
          (closeLoop { p.1 with breaks, stage := .epilogue } p.2).Meets w fun _ x =>
            x.Intact held ∧ s.Steady x :=
        (meets_closeLoop rfl (by rw [opened]) (by rw [opened]; exact le) straight intact).behind
          steady
      cases step with
      | none => exact last v intact₃ steady₃
      | some s =>
        exact Meets.bind (Safe.inScope (stmt bodies s) _ _ intact₃ (steady₃.inside inside))
          fun _ w h' => last w h'.1 (steady₃.trans h'.2)
    rw [lowerKind]
    refine .inScope ?_
    cases start with
    | none => exact rest
    | some s => exact .bind (stmt bodies s) fun _ => rest
  | .forEach element index array body => by
    rw [lowerKind]
    refine .bind (.expr bodies array) fun _ => .inScope fun held s intact inside =>
      Meets.bind (meets_openForEach intact inside) fun p t h => ?_
    obtain ⟨u, list, exit, stage, start, leaves, le, intact', steady, looping⟩ := h
    have inside' := looping.inside ⟨(steady.inside inside).scopes, (steady.inside inside).frames⟩
    refine Meets.bind (Safe.inScope (.bind (.bindName _ _) fun _ => stmts bodies body) _ _ intact'
      inside') fun _ v h => ?_
    have nothing : ∀ a ∈ ([] : List Action), a.Straight := nofun
    exact (meets_closeLoop_guarded h.1 (looping.trans h.2) stage start leaves le nothing).mono
      fun _ _ h' => ⟨h'.1, steady.trans h'.2⟩
  | .break depth => by
    rw [lowerKind]
    exact .leaveBreak depth
  | .continue depth => by
    rw [lowerKind]
    exact .leaveContinue depth
  | .return value => by
    rw [lowerKind]
    exact .bind (Safe.composes.optionMapM (fun e => .expr bodies e) _) fun _ => .leaveFrame _
  | .delete object className => by
    rw [lowerKind]
    exact .delete bodies _ _
  | .block body => by
    rw [lowerKind]
    exact .inScope (stmts bodies body)
  | .expr value => by
    rw [lowerKind]
    exact .map _ (.expr bodies value)

/-- So does a list of statements. -/
theorem Safe.stmts (bodies : into.Safe) : (body : List Stmt) → Safe (lowerStmts into body)
  | [] => by
    rw [lowerStmts]
    exact .pure _
  | s :: rest => by
    rw [lowerStmts]
    exact .bind (stmt bodies s) fun _ => stmts bodies rest

/-- The skips to the end of the chain are held until it is closed. -/
theorem Safe.arms (bodies : into.Safe) (more : Bool) (chain : IfChain) :
    (branches : List Branch) → ∀ {held : List Nat} {s : UnitState},
      s.Intact (chain.ends ++ held) → s.Inside →
        (lowerBranches into more chain branches).Meets s fun chain' t =>
          t.Intact (chain'.ends ++ held) ∧ s.Steady t
  | [], held, s, intact, _ => by
    rw [lowerBranches]
    exact .pure ⟨intact, .refl s⟩
  | .mk condition body :: rest, held, s, intact, inside => by
    rw [lowerBranches]
    refine Meets.bind (meets_openArm (.expr bodies condition) intact inside) fun p t h => ?_
    obtain ⟨exit, opened, straight, intact', steady⟩ := h
    refine Meets.bind (Safe.inScope (stmts bodies body) _ _ intact' (steady.inside inside))
      fun _ u h => ?_
    rw [opened]
    refine Meets.bind (meets_closeArm _ straight h.1) fun chain' v h' => ?_
    -- the chain holds one skip more then, which the other arms keep
    have through := steady.trans (h.2.trans h'.2)
    exact (arms bodies more chain' rest h'.1 (through.inside inside)).mono
      fun _ _ h'' => ⟨h''.1, through.trans h''.2⟩

end

end Lower

end SkipCode
