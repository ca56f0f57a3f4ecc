import SkipCode.Proofs.Confinement
import SkipCode.Proofs.Stacks

/-!
# A unit mentions what it knows

The walk of `Proofs.Confinement` through the source: expressions, bodies that are expanded, and
statements. It ends in `Session.Lowered.mentions`: all cells of the list of a unit are at places of
its symbols or of the storage of instances.
-/

namespace SkipCode

open Lower
open Source (Branch Expr Place Stmt StmtKind)

variable {Q : Cell → Prop} {pre : Prop}

/-! ## Parts of the source -/

namespace Source

/-- A part of an admitted expression is admitted. -/
theorem Expr.Admitted.of_parts {e inner : Expr} (h : e.Admitted Q) (sub : inner.parts ⊆ e.parts) :
    inner.Admitted Q := fun part mem => h part (sub mem)

/-- Expressions none of which names an actor that is not admitted. -/
def AllAdmitted (Q : Cell → Prop) (es : List Expr) : Prop := ∀ e ∈ es, e.Admitted Q

/-- The parts of an item are parts of the row. -/
theorem Expr.parts_subset {e : Expr} {es : List Expr} (mem : e ∈ es) : e.parts ⊆ partsOf es := by
  induction es with
  | nil => cases mem
  | cons first rest ih =>
    rw [partsOf]
    rcases List.mem_cons.1 mem with rfl | mem
    · exact List.subset_append_left _ _
    · exact List.Subset.trans (ih mem) (List.subset_append_right _ _)

/-- So are the items of a row in it. -/
theorem Expr.Admitted.items {e : Expr} {es : List Expr} (h : e.Admitted Q)
    (sub : partsOf es ⊆ e.parts) : AllAdmitted Q es :=
  fun _ mem => h.of_parts (List.Subset.trans (Expr.parts_subset mem) sub)

end Source

/-! ## Bodies that are expanded -/

/-- The lowering of bodies mentions what is known. -/
structure Expander.Confines (Q : Cell → Prop) (into : Expander) : Prop where
  block : ∀ body, Lower.Confines Q (Admitted Q (Source.kindsOf body))
    (into.block body) fun _ => True
  initial : ∀ e, Lower.Confines Q (e.Admitted Q) (into.initial e) (Element.Confined Q)

namespace Expander.Confines

variable {into : Expander}

/-- A body mentions what its statements, its receiver and its arguments do. -/
theorem expandBody (bodies : into.Confines Q) {key : String} {params : List String}
    {body : List Stmt} {receiver : Option Element} {arguments : List Element}
    {result : Option IndexedVar} (hb : pre → Admitted Q (Source.kindsOf body))
    (hr : pre → ∀ e, receiver = some e → e.Confined Q) (ha : pre → AllConfined Q arguments)
    (hv : pre → ∀ v, result = some v → v.Confined Q) :
    Lower.Confines Q pre (Lower.expandBody into key params body receiver arguments result)
      fun _ => True := by
  refine .bind (.expandedFrame _ _) fun frame => .bind (P := fun _ => True)
    (.inScope (.bind (.pushFrame fun hp v e => ?_) fun _ => ?_)) fun _ => .closeFrame
  · exact hv hp.1 v (hp.2 ▸ e)
  · have rest {pre' : Prop} (hpre : pre' → pre) : Lower.Confines Q pre' (do
        Lower.declareParams params arguments
        into.block body) fun _ => True :=
      .bind (.declareParams fun hp => ha (hpre hp)) fun _ =>
        (bodies.block body).weaken fun hp => hb (hpre hp.1)
    cases receiver with
    | none => exact rest fun hp => hp.1.1
    | some receiver =>
      exact .bind (.bindThis fun hp => hr hp.1.1 receiver rfl) fun _ => rest fun hp => hp.1.1.1

/-- So does a region. -/
theorem expandRegion (bodies : into.Confines Q) {key : String} {params : List String}
    {body : List Stmt} {receiver : Option Element} {arguments : List Element}
    (hb : pre → Admitted Q (Source.kindsOf body)) (hr : pre → ∀ e, receiver = some e → e.Confined Q)
    (ha : pre → AllConfined Q arguments) :
    Lower.Confines Q pre (Lower.expandRegion into key params body receiver arguments)
      (Element.Confined Q) := by
  refine .bind (.temp _) fun result => .bind (.temp _) fun address => .bind (.expandedFrame _ _)
    fun outer => .bind (P := fun _ => True) (.inScope ?_) fun sites =>
      .bind (.dispatch (fun hp => hp.1.1.2) _ _) fun _ => .pure fun hp => hp.1.1.1.1.2.get_none
  refine .bind (.openRegion (fun hp => hr hp.1.1.1) (fun hp => ha hp.1.1.1) fun hp => hp.1.1.2)
    fun region => .bind (.pushFrame fun hp v e => ?_) fun _ => .bind (.pushRegion fun hp => hp.1.2)
      fun _ => .bind ((bodies.block body).weaken fun hp => hb hp.1.1.1.1.1.1) fun _ =>
        .bind .closeFrame fun _ => .bind .popRegion fun closing =>
          .bind (.emit fun hp => ?_) fun _ => .pure fun _ => trivial
  · rw [hp.1.2] at e
    cases e
    exact hp.1.1.1.2
  · exact (IndexedVar.Confined.set_none hp.1.1.1.1.1.1.1.2 hp.2.returnAddress.get_none .nil)

/-- So does a call. -/
theorem expandCall (bodies : into.Confines Q) {callee : Callee} {receiver : Option Element}
    {arguments : List Element} (hb : pre → Admitted Q (Source.kindsOf callee.decl.body))
    (hr : pre → ∀ e, receiver = some e → e.Confined Q) (ha : pre → AllConfined Q arguments) :
    Lower.Confines Q pre (Lower.expandCall into callee receiver arguments)
      (Element.Confined Q) := by
  refine .bind .get fun s => ?_
  dsimp only
  split
  · split
    · next index region found =>
      have open' (hs : s.Confined Q) : region.Confined Q :=
        hs.regions _ (List.mem_of_getElem? (findRegion?_at found))
      -- the body has a region already, so it is called there
      exact .bind (.callRegion (fun hp => open' hp.2) (fun hp => hr hp.1) fun hp => ha hp.1)
        fun _ => .materialize fun hp => hp.2
    · exact .bind (bodies.expandRegion (fun hp => hb hp.1) (fun hp => hr hp.1) fun hp => ha hp.1)
        fun _ => .materialize fun hp => hp.2
  · split
    · exact .bind (.throw (P := fun _ => False) _) fun _ => .materialize fun hp => hp.2.elim
    · refine .bind (.temp _) fun result => .bind (bodies.expandBody (fun hp => hb hp.1.1)
        (fun hp => hr hp.1.1) (fun hp => ha hp.1.1) fun hp v e => ?_) fun _ =>
          .materialize fun hp => hp.1.2.get_none
      cases e
      exact hp.2

/-- The initial values of fields mention the instance and what they are made of. -/
theorem initializeFields (bodies : into.Confines Q) {this : Element}
    {fields : List (Nat × Option Expr)} (ht : pre → this.Confined Q)
    (hf : pre → ∀ stack e, (stack, some e) ∈ fields → e.Admitted Q) :
    Lower.Confines Q pre (Lower.initializeFields into this fields) fun _ => True := by
  refine .bind (.expandedFrame _ _) fun frame => .bind (P := fun _ => True)
    (.inScope (.bind (.pushFrame fun hp v e => ?_) fun _ => .bind (.bindName _ fun hp => ht hp.1.1)
      fun _ => .forM fun field mem => ?_)) fun _ => .closeFrame
  · rw [hp.2] at e
    cases e
  · obtain ⟨stack, initial⟩ := field
    cases initial with
    | none =>
      exact .bind (.pure (P := Element.Confined Q) fun _ => Element.confined_neutral) fun _ =>
        .bind (.onStorage (.fieldStack _)) fun _ => .emit fun hp =>
          hp.2.set_none hp.1.2 (allConfined_cons.2 ⟨ht hp.1.1.1.1.1, .nil⟩)
    | some e =>
      exact .bind ((bodies.initial e).weaken fun hp => hf hp.1.1.1 stack e mem) fun _ =>
        .bind (.onStorage (.fieldStack _)) fun _ => .emit fun hp =>
          hp.2.set_none hp.1.2 (allConfined_cons.2 ⟨ht hp.1.1.1.1.1, .nil⟩)

/-- A new instance mentions its handle, its fields and its constructor. -/
theorem expandNew (bodies : into.Confines Q) (className : String) (constructorIndex : Nat)
    {arguments : List Element} (ha : pre → AllConfined Q arguments) :
    Lower.Confines Q pre (Lower.expandNew into className constructorIndex arguments)
      (Element.Confined Q) := by
  refine .bind .get fun s => .bind (.lift _) fun constructor => ?_
  dsimp only
  -- what follows the check on the number of arguments
  have rest {pre' : Prop} (hpre : pre' → (pre ∧ s.Confined Q) ∧
      s.session.classes.constructor className constructorIndex = .ok constructor) :
      Lower.Confines Q pre' (do
        let fields ← (fieldInitials s.session.classes className : Except LowerError _)
        let handle ← Lower.declare (← Lower.hiddenName "new") none false
        let layout ← (s.session.classes.layout className : Except LowerError _)
        Lower.onStorage (ClassStorage.prepare layout)
        Lower.onStorage (ClassStorage.acquireHandle s.session.config handle)
        let this := handle.get
        Lower.initializeFields into this fields
        Lower.expandBody into s!"{className}.new#{constructorIndex}" constructor.params
          constructor.body (some this) arguments none
        return this) (Element.Confined Q) := by
    refine .bind (.lift _) fun fields => .bind (.hiddenName _) fun _ =>
      .bind (.declare _ _ fun _ => nofun) fun handle => .bind (.lift _) fun layout =>
        .bind (.onStorage (.prepare _)) fun _ =>
          .bind (.onStorage (.acquireHandle _ fun hp => hp.1.1.2)) fun _ =>
            .bind (bodies.initializeFields (fun hp => hp.1.1.1.2.get) fun hp stack e mem =>
              ?_) fun _ =>
              .bind (bodies.expandBody (fun hp => ?_) (fun hp e same => ?_)
                (fun hp => ha (hpre hp.1.1.1.1.1.1.1).1.1) fun _ => nofun) fun _ =>
                  .pure fun hp => hp.1.1.1.1.1.2.get
    · have state := (hpre hp.1.1.1.1.1.1).1.2
      exact state.initials e (ClassTable.fieldInitials_mem hp.1.1.1.1.1.2 mem)
    · obtain ⟨⟨-, state⟩, found⟩ := hpre hp.1.1.1.1.1.1.1
      rcases ClassTable.constructor_mem_bodies found with e | mem
      · rw [e]
        exact nofun
      · exact state.bodies _ (List.mem_append_right _ mem)
    · cases same
      exact hp.1.1.1.1.2.get
  split
  · exact .bind (.throw (P := fun _ => True) _) fun _ => rest fun hp => hp.1
  · exact rest id

/-- A call whose receiver is lowered. -/
theorem withArguments (bodies : into.Confines Q) {callee : Callee} {receiver : Option Element}
    {arguments : List Expr}
    (ha : Lower.Confines Q True (lowerExprs into arguments) (AllConfined Q))
    (hb : pre → Admitted Q (Source.kindsOf callee.decl.body))
    (hr : pre → ∀ e, receiver = some e → e.Confined Q) :
    Lower.Confines Q pre (do
      let arguments ← lowerExprs into arguments
      Lower.expandCall into callee receiver arguments) (Element.Confined Q) :=
  .bind ha.always fun _ => bodies.expandCall (fun hp => hb hp.1) (fun hp => hr hp.1) fun hp => hp.2

end Expander.Confines

namespace Lower.Confines

variable {into : Expander}

/-! ## Expressions -/

mutual

/-- An expression mentions places of the unit, and the actors that it names. -/
theorem expr (bodies : into.Confines Q) : (e : Expr) → e.Admitted Q →
    Confines Q True (lowerExpr into e) (Element.Confined Q)
  | .number _, _ => by
    rw [lowerExpr]
    exact .pure fun _ => Element.confined_number _
  | .bool _, _ => by
    rw [lowerExpr]
    exact .pure fun _ => Element.confined_bool _
  | .currentActor, _ => by
    rw [lowerExpr]
    exact .pure fun _ => Element.confined_eventPlayer
  | .array items, h => by
    rw [lowerExpr]
    exact .bind (.always <| exprs bodies items (h.items (by simp [Expr.parts]))) fun _ =>
      .pure fun hp => Element.confined_array.2 hp.2
  | .var name, _ => by
    rw [lowerExpr]
    exact .bind (.lookup name) fun _ => .pure fun hp => hp.2.get
  | .index array index, h => by
    rw [lowerExpr]
    exact .bind (.always <| expr bodies array (h.of_parts (by simp [Expr.parts]))) fun _ =>
      .bind (.always <| expr bodies index (h.of_parts (by simp [Expr.parts]))) fun _ =>
        .pure fun hp => Element.confined_itemAt.2 ⟨hp.1.2, hp.2⟩
  | .field object className field, h => by
    rw [lowerExpr]
    exact .bind (.always <| expr bodies object (h.of_parts (by simp [Expr.parts]))) fun _ =>
      .bind (.fieldVar _ _ fun hp => hp.2) fun _ => .pure fun hp => hp.2.get_none
  | .staticField className field, _ => by
    rw [lowerExpr]
    exact .bind (.staticVar _ _) fun _ => .pure fun hp => hp.2.get_none
  | .actorVar actor name, h => by
    -- the one expression that names a store of its own
    have foreign : Foreign Q := h (.actorVar actor name) (by simp [Expr.parts]) rfl
    rw [lowerExpr]
    refine .bind (.actorVar name) fun _ =>
      .bind (.always <| expr bodies actor (h.of_parts (by simp [Expr.parts]))) fun _ =>
        .pure fun hp =>
        hp.1.2.getFor fun who e => ?_
    cases e
    exact ⟨foreign, hp.2⟩
  | .binary op lhs rhs, h => by
    rw [lowerExpr]
    exact .bind (.always <| expr bodies lhs (h.of_parts (by simp [Expr.parts]))) fun _ =>
      .bind (.always <| expr bodies rhs (h.of_parts (by simp [Expr.parts]))) fun _ =>
        .pure fun hp => Element.confined_binary.2 ⟨hp.1.2, hp.2⟩
  | .not inner, h => by
    rw [lowerExpr]
    exact .bind (.always <| expr bodies inner (h.of_parts (by simp [Expr.parts]))) fun _ =>
      .pure fun hp => hp.2.negate
  | .negate inner, h => by
    rw [lowerExpr]
    exact .bind (.always <| expr bodies inner (h.of_parts (by simp [Expr.parts]))) fun _ =>
      .pure fun hp => Element.confined_subtract.2 ⟨Element.confined_ofNat 0, hp.2⟩
  | .length inner, h => by
    rw [lowerExpr]
    exact .bind (.always <| expr bodies inner (h.of_parts (by simp [Expr.parts]))) fun _ =>
      .pure fun hp => Element.confined_countOf.2 hp.2
  | .new className constructorIndex arguments, h => by
    rw [lowerExpr]
    exact .bind (.always <| exprs bodies arguments (h.items (by simp [Expr.parts]))) fun _ =>
      bodies.expandNew _ _ fun hp => hp.2
  | .call className method none arguments, h => by
    rw [lowerExpr]
    refine .bind (.resolveCallee _ _) fun callee => .bind (.checkArity _ _) fun _ => ?_
    have arguments := exprs bodies arguments (h.items (by simp [Expr.parts]))
    dsimp only
    split
    · exact .bind (.map (R := fun r => ∀ e, r = some e → e.Confined Q) _ (.lookup _)
        fun v hv e same => by cases same; exact hv.get) fun _ =>
          bodies.withArguments arguments (fun hp => hp.1.1.2) fun hp => hp.2
    · exact .bind (.pure (P := fun r => ∀ e, r = some e → e.Confined Q) fun _ => nofun) fun _ =>
        bodies.withArguments arguments (fun hp => hp.1.1.2) fun hp => hp.2
  | .call className method (some object) arguments, h => by
    rw [lowerExpr]
    refine .bind (.resolveCallee _ _) fun callee => .bind (.checkArity _ _) fun _ => ?_
    have arguments := exprs bodies arguments (h.items (by simp [Expr.parts]))
    dsimp only
    split
    · exact .bind (.map (R := fun r => ∀ e, r = some e → e.Confined Q) _
        (.always <| expr bodies object (h.of_parts (by simp [Expr.parts])))
        fun x hx e same => by cases same; exact hx) fun _ =>
          bodies.withArguments arguments (fun hp => hp.1.1.2) fun hp => hp.2
    · exact .bind (.pure (P := fun r => ∀ e, r = some e → e.Confined Q) fun _ => nofun) fun _ =>
        bodies.withArguments arguments (fun hp => hp.1.1.2) fun hp => hp.2
  | .this, _ => by
    rw [lowerExpr]
    exact .bind (.lookup _) fun _ => .pure fun hp => hp.2.get

/-- So does a row of expressions. -/
theorem exprs (bodies : into.Confines Q) : (es : List Expr) → Source.AllAdmitted Q es →
    Confines Q True (lowerExprs into es) (AllConfined Q)
  | [], _ => by
    rw [lowerExprs]
    exact .pure fun _ => .nil
  | e :: es, h => by
    rw [lowerExprs]
    exact .bind (.always <| expr bodies e (h e List.mem_cons_self)) fun _ =>
      .bind (.always <| exprs bodies es fun e he => h e (List.mem_cons_of_mem _ he)) fun _ =>
        .pure fun hp => allConfined_cons.2 ⟨hp.1.2, hp.2⟩

end

/-! ## Statements -/

/-- What an assignment combines mentions what it combines. -/
theorem confined_combine {op : Source.AssignOp} {current value : Element} {index : List Element}
    (hc : current.Confined Q) (hi : AllConfined Q index) (hv : value.Confined Q) :
    (combine op current index value).Confined Q := by
  unfold combine
  split
  · exact hv
  · exact Element.confined_binary.2 ⟨IndexedVar.confined_descend hc hi, hv⟩

/-- An assignment mentions its target and its value. -/
theorem assign (bodies : into.Confines Q) {target : Place} {index : List Element}
    {op : Source.AssignOp} {value : Expr} (ht : Source.AllAdmitted Q target.exprs)
    (hf : target.namesActor = true → Foreign Q) (hv : value.Admitted Q)
    (hi : pre → AllConfined Q index) :
    Confines Q pre (Lower.assign into target index op value) fun _ => True := by
  cases target with
  | var name =>
    exact .bind (.lookup _) fun _ => .bind (.always <| expr bodies value hv) fun _ =>
      .bind (.lift _)
      fun _ => .emit fun hp => hp.1.1.2.set
        (confined_combine hp.1.1.2.get (hi hp.1.1.1) hp.1.2) (hi hp.1.1.1) hp.2
  | field object className field =>
    exact .bind (.always <| expr bodies object (ht _ List.mem_cons_self)) fun _ =>
      .bind (.fieldVar _ _ fun hp => hp.2) fun _ => .bind (.always <| expr bodies value hv) fun _ =>
        .emit fun hp => hp.1.2.set_none
          (confined_combine hp.1.2.get_none (hi hp.1.1.1) hp.2) (hi hp.1.1.1)
  | staticField className field =>
    exact .bind (.staticVar _ _) fun _ => .bind (.always <| expr bodies value hv) fun _ =>
      .emit fun hp => hp.1.2.set_none (confined_combine hp.1.2.get_none (hi hp.1.1) hp.2)
        (hi hp.1.1)
  | actorVar actor name =>
    refine .bind (.actorVar _) fun v => .bind (.always <|
      expr bodies actor (ht _ List.mem_cons_self))
      fun who => .bind (.always <| expr bodies value hv) fun x => .bind (.lift _) fun actions =>
        .emit fun hp => ?_
    obtain ⟨⟨⟨⟨hpre, hvar⟩, hwho⟩, hx⟩, written⟩ := hp
    -- the store that is written belongs to the actor that the source names
    have admitted (other : Element) (e : some who = some other) : Foreign Q ∧ other.Confined Q := by
      cases e
      exact ⟨hf rfl, hwho⟩
    exact hvar.setFor admitted (confined_combine (hvar.getFor admitted) (hi hpre) hx)
      (hi hpre) written

theorem delete (bodies : into.Confines Q) {object : Expr} (className : String)
    (h : object.Admitted Q) :
    Confines Q pre (Lower.delete into object className) fun _ => True := by
  refine .bind (.always <| expr bodies object h) fun handle => .bind (.hiddenName _) fun _ =>
    .bind (.declare _ _ fun hp e same => ?_) fun _ => .bind .get fun _ =>
      .onStorage (.release _ _ fun hp => hp.1.2.get)
  cases same
  exact hp.1.2

/-- A condition mentions what it is made of. -/
theorem openCondition (bodies : into.Confines Q) {condition : Expr} (h : condition.Admitted Q) :
    Confines Q pre (Lower.openCondition into condition) (Element.Confined Q) :=
  .bind .openScope fun _ => .always <| expr bodies condition h

theorem closeCondition : Confines Q pre Lower.closeCondition (ActsConfined Q) :=
  .bind .get fun _ => .bind .closeScope fun _ => .pure fun hp => hp.1.2.pendingPops _

theorem openArm (bodies : into.Confines Q) {condition : Expr} (h : condition.Admitted Q) :
    Confines Q pre (Lower.openArm into condition) fun opened => ActsConfined Q opened.2 := by
  refine .bind (.openCondition bodies h) fun x => .bind .get fun s => .bind (.lift _) fun guarded =>
    .bind (.modifyList fun hp _ _ => ?_) fun _ => .bind .closeCondition fun _ =>
      .pure fun hp => hp.2
  obtain ⟨⟨⟨-, hx⟩, hs⟩, done⟩ := hp
  obtain ⟨_, -, done⟩ := except_bind_ok.1 done
  cases done
  refine hs.list.pushSkip fun e same => ?_
  cases same
  exact hx.negate

theorem closeArm {block : IfBlock} {tail : List Action} {chain : IfChain} {more : Bool}
    (ht : pre → ActsConfined Q tail) :
    Confines Q pre (Lower.closeArm block tail chain more) fun _ => True := by
  have rest {pre' : Prop} (hpre : pre' → pre) {last : Lower IfChain}
      (hlast : ∀ pre', Confines Q pre' last fun _ => True) : Confines Q pre' (do
      let finished ← (block.finish (← MonadState.get).list : Except LowerError _)
      Lower.modifyList fun _ => finished.2
      Lower.emit tail
      last) fun _ => True := by
    refine .bind .get fun s => .bind (.lift _) fun finished => .bind (.modifyList fun hp _ _ => ?_)
      fun _ => .bind (.emit fun hp => ht (hpre hp.1.1.1)) fun _ => hlast _
    obtain ⟨⟨-, hs⟩, done⟩ := hp
    obtain ⟨_, -, done⟩ := except_bind_ok.1 done
    split at done
    · cases done
    · obtain ⟨list, resolved, done⟩ := except_bind_ok.1 done
      cases done
      exact hs.list.resolve resolved
  unfold Lower.closeArm
  dsimp only
  split
  · exact .bind .get fun s => .bind (.modifyList fun hp _ _ => hp.2.list.pushSkip nofun) fun _ =>
      rest (fun hp => hp.1.1) fun _ => .pure fun _ => trivial
  · split
    · exact rest id fun _ => .pure fun _ => trivial
    · exact .bind .pushSkip fun skip => rest (fun hp => hp.1) fun _ =>
        .bind (.resolveHere skip) fun _ => .pure fun _ => trivial

theorem closeChain (chain : IfChain) : Confines Q pre (Lower.closeChain chain) fun _ => True :=
  relist fun _ _ hs done => hs.list.resolveAllHere done

/-- So does a loop. -/
theorem openLoop (bodies : into.Confines Q) {kind : LoopKind} {condition : Expr}
    (hk : kind.Confined Q) (h : condition.Admitted Q) :
    Confines Q pre (Lower.openLoop into kind condition) fun opened =>
      opened.1.kind.Confined Q ∧ ActsConfined Q opened.2 := by
  refine .bind .get fun s => .bind (.stepLoop fun hp => ⟨hk, LoopBlock.confines_setup _ _⟩)
    fun block =>
    .bind (.openCondition bodies h) fun x => .bind (.stepLoop fun hp => ⟨hp.1.2, ?_⟩) fun _ =>
      .bind .closeCondition fun _ => .pure fun hp => ⟨hp.1.2, hp.2⟩
  refine LoopBlock.confines_guard _ fun e same => ?_
  cases same
  exact hp.2

/-- The conditions and the bodies of arms. -/
structure ArmsAdmitted (Q : Cell → Prop) (branches : List Branch) : Prop where
  conditions : ∀ condition body, .mk condition body ∈ branches → condition.Admitted Q
  bodies : Admitted Q (Source.kindsOfBranches branches)

mutual

/-- A statement mentions what its expressions do, by recursion over its parts. -/
theorem stmt (bodies : into.Confines Q) : (s : Stmt) → Admitted Q s.kinds →
    Confines Q True (lowerStmt into s) fun _ => True
  | .mk k span, h => by
    rw [lowerStmt]
    exact .located span (kind bodies k h)

/-- The same for its kinds. -/
theorem kind (bodies : into.Confines Q) : (k : StmtKind) → Admitted Q k.kinds →
    Confines Q True (lowerKind into k) fun _ => True
  | .define name initial recursive, h => by
    have own := (h _ (StmtKind.mem_kinds _)).exprs
    rw [lowerKind]
    exact .bind (.optionMapM fun e found => .always <|
      expr bodies e (own e (by simp [StmtKind.exprs, found])))
      fun _ => .discard (.declare _ _ fun hp => hp.2)
  | .assign target index op value, h => by
    obtain ⟨own, named⟩ := h _ (StmtKind.mem_kinds _)
    rw [lowerKind]
    exact .bind (.always <| exprs bodies index fun e he => own e (by simp [StmtKind.exprs, he]))
      fun _ => assign bodies (fun e he => own e (by simp [StmtKind.exprs, he]))
        (named target rfl) (own value (by simp [StmtKind.exprs])) fun hp => hp.2
  | .cond branches none, h => by
    have own := (h _ (StmtKind.mem_kinds _)).exprs
    rw [lowerKind]
    exact .bind (arms bodies _ _ branches ⟨fun condition body mem =>
      own _ (List.mem_map_of_mem mem),
      h.subset (by simp [StmtKind.kinds])⟩) fun _ => .closeChain _
  | .cond branches (some body), h => by
    have own := (h _ (StmtKind.mem_kinds _)).exprs
    rw [lowerKind]
    exact .bind (arms bodies _ _ branches ⟨fun condition body mem =>
      own _ (List.mem_map_of_mem mem),
      h.subset (by simp [StmtKind.kinds])⟩) fun _ =>
        .bind (.inScope (.always <| stmts bodies body (h.subset (by simp [StmtKind.kinds]))))
          fun _ =>
          .closeChain _
  | .while condition body, h => by
    have own := (h _ (StmtKind.mem_kinds _)).exprs condition (by simp [StmtKind.exprs])
    rw [lowerKind]
    exact .bind (openLoop bodies trivial own) fun _ =>
      .bind (.inScope (.always <| stmts bodies body (h.subset (by simp [StmtKind.kinds])))) fun _ =>
        .closeLoop (fun hp => hp.1.2.1) fun hp => hp.1.2.2
  | .for start condition step body, h => by
    have own := (h _ (StmtKind.mem_kinds _)).exprs condition (by simp [StmtKind.exprs])
    rw [Source.kinds_for] at h
    -- behind the first statement, if there is one
    have rest {pre' : Prop} : Confines Q pre' (do
        let (block, tail) ← Lower.openLoop into .for condition
        Lower.inScope (lowerStmts into body)
        let block ← Lower.onLoop block LoopBlock.epilogue
        match step with
        | some s => Lower.inScope (lowerStmt into s)
        | none => Pure.pure ()
        Lower.closeLoop block tail) fun _ => True := by
      refine .bind (openLoop bodies trivial own) fun opened =>
        .bind (.inScope (.always <| stmts bodies body (h.subset fun k hk => by simp [hk]))) fun _ =>
          .bind (.stepLoop fun hp => ⟨hp.1.2.1, LoopBlock.confines_epilogue _⟩) fun _ => ?_
      cases step with
      | none => exact .closeLoop (fun hp => hp.2) fun hp => hp.1.1.2.2
      | some s =>
        exact .bind
          (.inScope (.always <| stmt bodies s (h.subset fun k hk => by simp [Source.kindsOf, hk])))
          fun _ => .closeLoop (fun hp => hp.1.2) fun hp => hp.1.1.1.2.2
    rw [lowerKind]
    refine .inScope ?_
    cases start with
    | none => exact rest
    | some s =>
      exact .bind (.always <| stmt bodies s (h.subset fun k hk => by simp [Source.kindsOf, hk]))
        fun _ => rest
  | .forEach element index array body, h => by
    have own := (h _ (StmtKind.mem_kinds _)).exprs array (by simp [StmtKind.exprs])
    rw [lowerKind]
    exact .bind (.always <| expr bodies array own) fun _ =>
      .inScope (.bind (.openForEach _ fun hp => hp.2)
      fun _ => .bind (P := fun _ => True) (.inScope (.bind (.bindName _ fun hp => hp.2.2) fun _ =>
        .always <| stmts bodies body (h.subset (by simp [StmtKind.kinds])))) fun _ =>
          .closeLoop (fun hp => hp.1.2.1) fun _ => .nil)
  | .break depth, _ => by
    rw [lowerKind]
    exact .leaveLoop _ _ _
  | .continue depth, _ => by
    rw [lowerKind]
    exact .leaveLoop _ _ _
  | .return value, h => by
    have own := (h _ (StmtKind.mem_kinds _)).exprs
    rw [lowerKind]
    exact .bind (.optionMapM fun e found => .always <|
      expr bodies e (own e (by simp [StmtKind.exprs, found])))
      fun _ => .leaveFrame fun hp => hp.2
  | .delete object className, h => by
    rw [lowerKind]
    exact delete bodies _ ((h _ (StmtKind.mem_kinds _)).exprs object (by simp [StmtKind.exprs]))
  | .block body, h => by
    rw [lowerKind]
    exact .inScope (.always <| stmts bodies body (h.subset (by simp [StmtKind.kinds])))
  | .expr value, h => by
    rw [lowerKind]
    exact .discard
      (expr bodies value ((h _ (StmtKind.mem_kinds _)).exprs value (by simp [StmtKind.exprs])))

/-- The same for a row of statements. -/
theorem stmts (bodies : into.Confines Q) : (body : List Stmt) → Admitted Q (Source.kindsOf body) →
    Confines Q True (lowerStmts into body) fun _ => True
  | [], _ => by
    rw [lowerStmts]
    exact .pure fun _ => trivial
  | s :: rest, h => by
    rw [Source.kindsOf] at h
    rw [lowerStmts]
    exact .bind (stmt bodies s (h.subset (by simp))) fun _ =>
      .always <| stmts bodies rest (h.subset (by simp))

/-- The same for the branches of a condition. -/
theorem arms (bodies : into.Confines Q) (more : Bool) (chain : IfChain) :
    (branches : List Branch) → ArmsAdmitted Q branches →
      Confines Q True (lowerBranches into more chain branches) fun _ => True
  | [], _ => by
    rw [lowerBranches]
    exact .pure fun _ => trivial
  | .mk condition body :: rest, ⟨conditions, inner⟩ => by
    rw [Source.kindsOfBranches] at inner
    rw [lowerBranches]
    exact .bind (openArm bodies (conditions _ _ List.mem_cons_self)) fun _ =>
      .bind (.inScope (.always <| stmts bodies body (inner.subset (by simp)))) fun _ =>
        .bind (.closeArm fun hp => hp.1.2) fun _ => .always <| arms bodies _ _ rest
          ⟨fun _ _ mem => conditions _ _ (List.mem_cons_of_mem _ mem), inner.subset (by simp)⟩

end

/-! ## Units -/

/-- The same for the bodies of an expander, by induction on its depth. -/
theorem expander : (depth : Nat) → (Q : Cell → Prop) → (SkipCode.expander depth).Confines Q
  | 0, _ => ⟨fun _ => ⟨fun _ _ _ h => (nomatch h), fun _ _ _ _ h => nomatch h⟩,
      fun _ => ⟨fun _ _ _ h => (nomatch h), fun _ _ _ _ h => nomatch h⟩⟩
  | depth + 1, Q => by
    have all : Foreign fun _ => True := fun _ _ _ _ => trivial
    refine ⟨fun body => ?_, fun e => ?_⟩
    · exact .whenever (fun h => .inScope (stmts (expander depth Q) body h))
        (.inScope (stmts (expander depth _) body (admitted_of_foreign all _)))
    · exact .whenever (expr (expander depth Q) e)
        (expr (expander depth _) e (e.admitted_of_foreign all))

/-- The list of a unit is what it has written. -/
theorem finish : Confines Q pre Lower.finish fun list => ActsConfined Q list.toList := by
  refine .bind .get fun s => ?_
  dsimp only
  split
  · refine .bind (.throw (P := fun _ => True) _) fun _ => ?_
    split
    · exact .pure fun hp => hp.1.2.list
    · exact .throw _
  · split
    · exact .pure fun hp => hp.2.list
    · exact .throw _

/-- A unit mentions what its body does. -/
theorem unitBody {body : Lower Unit} (hbody : ∀ pre, Confines Q pre body fun _ => True) :
    Confines Q pre (Lower.unitBody body) fun list => ActsConfined Q list.toList :=
  .bind (.pushFrame fun _ => nofun) fun _ => .bind (.inScope (hbody _)) fun _ =>
    .bind .closeFrame fun _ => .finish

/-- The static initializers mention the static fields and what they start with. -/
theorem staticInitials (bodies : into.Confines Q) {initials : List (String × String × Expr)}
    (h : ∀ className field e, (className, field, e) ∈ initials → e.Admitted Q) :
    Confines Q pre (Lower.staticInitials into initials) fun _ => True :=
  .forM fun p mem => .bind (.always <| expr bodies _ (h p.1 p.2.1 p.2.2 mem)) fun _ =>
    .bind (.staticVar _ _) fun _ => .emit fun hp => hp.2.set_none hp.1.2 .nil

end Lower.Confines

/-! ## What a unit mentions -/

/-- The places of a unit: those of its symbols and those of the storage of instances. -/
def UnitOutput.places (output : UnitOutput) : List Location :=
  output.symbols.map Symbol.location ++ output.session.classData.locations

/-- The sources of a session name no actor that is not admitted. -/
structure Session.Admitted (Q : Cell → Prop) (σ : Session) : Prop where
  bodies : ∀ body ∈ σ.bodies, SkipCode.Admitted Q (Source.kindsOf body)
  initials : ∀ e ∈ σ.classes.initials, e.Admitted Q

/-- What is in the storage is whole slots. -/
def ClassData.Whole (d : ClassData) : Prop := ∀ v ∈ d.vars, v.path = []

section

variable {σ : Session} {body : List Stmt} {output : UnitOutput} {list : ActionList}

/-- So all that a unit gives out is confined. -/
theorem Session.confined_runUnit {unit : String} {pool : Pool} {body : Expander → Lower Unit}
    (confines : ∀ into : Expander, into.Confines Q →
      ∀ pre, Lower.Confines Q pre (body into) fun _ => True)
    (admitted : σ.Admitted Q) (whole : σ.classData.Whole)
    (lowered : σ.runUnit unit pool body = some output) (result : output.result = .ok list)
    (known : ∀ l ∈ output.places, Q l.cell) : ∀ c ∈ list.cells, Q c := by
  obtain ⟨⟨r, last⟩, hrun, e⟩ := Option.bind_eq_some_iff.1 lowered
  cases e
  cases result
  -- at the start nothing is open and nothing is emitted
  have start : (UnitState.new σ unit pool).Confined Q :=
    ⟨.nil, nofun, nofun, nofun, whole, admitted.bodies, admitted.initials⟩
  have known : Known Q last := fun l hl => known l (by
    simpa only [UnitOutput.places, UnitState.places, List.mem_append, List.mem_map,
      List.mem_reverse]
      using hl)
  have covered : Lower.Confines Q True (Lower.unitBody (body (expander (expansionBound σ)))) _ :=
    .unitBody (confines _ (Lower.Confines.expander _ _))
  have done := covered.confined trivial _ _ _ hrun known start
  intro c hc
  obtain ⟨a, ha, hc⟩ := List.mem_flatMap.1 hc
  exact done.2 a ha c hc

/-- All cells that the list of a unit mentions have a property that its places have, when its
sources name no actor or the property is one that admits them. -/
theorem Session.Lowered.confined (lowered : σ.Lowered body output) (admitted : σ.Admitted Q)
    (own : SkipCode.Admitted Q (Source.kindsOf body)) (whole : σ.classData.Whole)
    (result : output.result = .ok list) (known : ∀ l ∈ output.places, Q l.cell) :
    ∀ c ∈ list.cells, Q c := by
  cases lowered with
  | rule h =>
    exact Session.confined_runUnit (fun _ bodies _ => .always (.stmts bodies body own))
      admitted whole h
      result known
  | statics h =>
    exact Session.confined_runUnit (fun _ bodies _ => .staticInitials bodies fun _ _ e mem =>
      admitted.initials e (ClassTable.staticInitials_mem mem)) admitted whole h result known

/-- The list of a unit mentions nothing but its places. -/
theorem Session.Lowered.mentions (lowered : σ.Lowered body output) (whole : σ.classData.Whole)
    (result : output.result = .ok list) : ∀ c ∈ list.cells, c.location ∈ output.places := by
  have foreign : Foreign fun c => c.location ∈ output.places := fun _ _ _ h => h
  exact lowered.confined ⟨fun _ _ => admitted_of_foreign foreign _,
    fun e _ => e.admitted_of_foreign foreign⟩
    (admitted_of_foreign foreign _) whole result fun l hl => by rwa [Location.location_cell]

end

end SkipCode
