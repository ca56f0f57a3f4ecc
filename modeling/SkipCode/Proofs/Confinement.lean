import SkipCode.Proofs.LoopSteps
import SkipCode.Proofs.Mentions

/-!
# Lowering mentions the places that it knows

Where a property of cells holds of all places that a unit knows in the end, and of all that its
state mentions in the beginning, it holds of all that is mentioned when a step is over
(`Lower.Confines`).

That the places are those of the end makes the property one for a whole lowering, so that what is
known of an element does not have to be carried from state to state. It asks of each step that it
forgets no place.
-/

namespace SkipCode

open Lower
open Source (Branch Expr Place Stmt StmtKind)

variable {Q : Cell → Prop} {pre pre' : Prop} {α β γ : Type} {P : α → Prop} {R : β → Prop}

/-- A step that keeps what is mentioned confined to the places of the state behind it, when `pre` is
the case; its answer has a property as well. -/
structure Lower.Confines (Q : Cell → Prop) (pre : Prop) (m : Lower α) (post : α → Prop) : Prop where
  places : ∀ s a t, run m s = some (.ok a, t) → s.places ⊆ t.places
  confined : pre → ∀ s a t, run m s = some (.ok a, t) → Known Q t → s.Confined Q →
    t.Confined Q ∧ post a

namespace Lower.Confines

/-! ## How steps are put together -/

/-- A value that is given back has what is known of it. -/
theorem pure {a : α} (h : pre → P a) : Confines Q pre (Pure.pure a : Lower α) P := by
  constructor
  · intro s b t e
    cases e
    exact List.Subset.refl _
  · intro hpre s b t e _ hs
    cases e
    exact ⟨hs, h hpre⟩

theorem throw (e : LowerError) : Confines Q pre (MonadExcept.throw e : Lower α) P :=
  ⟨fun _ _ _ h => (nomatch h), fun _ _ _ _ h => nomatch h⟩

/-- The state that is looked at is confined. -/
theorem get : Confines Q pre (MonadState.get : Lower UnitState) (·.Confined Q) := by
  constructor
  · intro s b t e
    cases e
    exact List.Subset.refl _
  · intro _ s b t e _ hs
    cases e
    exact ⟨hs, hs⟩

theorem lift (x : Except LowerError α) : Confines Q pre (liftM x : Lower α) (x = .ok ·) := by
  constructor
  · intro s a t e
    rw [run_lift] at e
    cases e
    exact List.Subset.refl _
  · intro _ s a t e _ hs
    rw [run_lift] at e
    cases e
    exact ⟨hs, rfl⟩

/-- Behind the first step the places are some of those behind the second, so the property may be
used of both. -/
theorem bind {m : Lower α} {f : α → Lower β} (hm : Confines Q pre m P)
    (hf : ∀ a, Confines Q (pre ∧ P a) (f a) R) : Confines Q pre (m >>= f) R := by
  constructor
  · intro s b t e
    obtain ⟨a, u, h₁, h₂⟩ := run_bind_ok.1 e
    exact List.Subset.trans (hm.places s a u h₁) ((hf a).places u b t h₂)
  · intro hpre s b t e known hs
    obtain ⟨a, u, h₁, h₂⟩ := run_bind_ok.1 e
    obtain ⟨hu, ha⟩ := hm.confined hpre s a u h₁ (known.of_places ((hf a).places u b t h₂)) hs
    exact (hf a).confined ⟨hpre, ha⟩ u b t h₂ known hu

/-- More may be known before a step. -/
theorem weaken {m : Lower α} (h : pre' → pre) (hm : Confines Q pre m P) : Confines Q pre' m P :=
  ⟨hm.places, fun hpre => hm.confined (h hpre)⟩

theorem always {m : Lower α} (hm : Confines Q True m P) : Confines Q pre m P :=
  hm.weaken fun _ => trivial

/-- That no place is forgotten depends on no condition, so it may be shown for the property of all
cells. -/
theorem whenever {P' : α → Prop} {m : Lower α} (hm : pre → Confines Q True m P)
    (always : Confines (fun _ => True) True m P') : Confines Q pre m P :=
  ⟨always.places, fun hpre => (hm hpre).confined trivial⟩

/-- What is made of a confined result is confined if the making keeps that. -/
theorem map {m : Lower α} (f : α → β) (hm : Confines Q pre m P) (h : ∀ a, P a → R (f a)) :
    Confines Q pre (f <$> m) R := by
  rw [← bind_pure_comp]
  exact hm.bind fun a => pure fun hpre => h a hpre.2

theorem discard {m : Lower α} (hm : Confines Q pre m P) :
    Confines Q pre (Functor.discard m) fun _ => True := hm.map _ fun _ _ => trivial

/-- A change that takes away no place. -/
theorem change {f : UnitState → UnitState} (places : ∀ s, (f s).places = s.places)
    (h : pre → ∀ s, s.Confined Q → (f s).Confined Q) :
    Confines Q pre (modify f : Lower PUnit) fun _ => True := by
  constructor
  · intro s a t e
    cases e
    rw [places]
    exact List.Subset.refl _
  · intro hpre s a t e _ hs
    cases e
    exact ⟨h hpre s hs, trivial⟩

/-- A row of confined steps is confined. -/
theorem forM {f : γ → Lower PUnit} {l : List γ} (hf : ∀ a ∈ l, Confines Q pre (f a) fun _ => True) :
    Confines Q pre (l.forM f) fun _ => True := by
  induction l with
  | nil => exact pure fun _ => trivial
  | cons a rest ih =>
    exact (hf a List.mem_cons_self).bind fun _ =>
      (ih fun b hb => hf b (List.mem_cons_of_mem _ hb)).weaken fun h => h.1

/-- The results of a row of steps have what each of them has. -/
theorem mapM {f : γ → Lower β} {l : List γ} (hf : ∀ a ∈ l, Confines Q pre (f a) R) :
    Confines Q pre (l.mapM f) fun bs => ∀ b ∈ bs, R b := by
  induction l with
  | nil => exact pure fun _ => nofun
  | cons a rest ih =>
    rw [List.mapM_cons]
    have rest := ih fun b hb => hf b (List.mem_cons_of_mem _ hb)
    exact (hf a List.mem_cons_self).bind fun _ => (rest.weaken fun h => h.1).bind fun _ =>
      pure fun h => List.forall_mem_cons.2 ⟨h.1.2, h.2⟩

/-- A step that is only done when there is something to do it for. -/
theorem optionMapM {f : γ → Lower β} {o : Option γ}
    (hf : ∀ a, o = some a → Confines Q pre (f a) R) :
    Confines Q pre (o.mapM f) fun b => ∀ x, b = some x → R x := by
  cases o with
  | none => exact pure fun _ => nofun
  | some a =>
    exact (hf a rfl).map _ fun b hb x e => by
      cases e
      exact hb

/-! ## The list -/

/-- The list may be changed in any way that keeps its actions confined. -/
theorem modifyList {f : ActionList → ActionList}
    (h : pre → ∀ l : ActionList, ActsConfined Q l.toList → ActsConfined Q (f l).toList) :
    Confines Q pre (Lower.modifyList f) fun _ => True :=
  change (fun _ => rfl) fun hpre _ hs => hs.withList (h hpre _ hs.list)

/-- Confined actions may be emitted. -/
theorem emit {actions : List Action} (h : pre → ActsConfined Q actions) :
    Confines Q pre (Lower.emit actions) fun _ => True :=
  modifyList fun hpre _ hl => hl.extend (h hpre)

theorem position :
    Confines Q pre Lower.position fun _ => True := .bind get fun _ => pure fun _ => trivial

theorem pushSkip : Confines Q pre Lower.pushSkip fun _ => True :=
  .bind position fun _ => .bind (.modifyList fun _ _ hl => hl.pushSkip nofun) fun _ =>
    .pure fun _ => trivial

/-- A skip back mentions no cell. -/
theorem pushSkipTo (target : Nat) :
    Confines Q pre (Lower.modifyList (·.pushSkipTo target)) fun _ => True :=
  modifyList fun _ _ hl => hl.pushSkipTo target

/-- The list is replaced by one that is made of it. -/
theorem relist {x : UnitState → Except LowerError ActionList}
    (h : ∀ s l, s.Confined Q → x s = .ok l → ActsConfined Q l.toList) :
    Confines Q pre (do
      let list ← (x (← MonadState.get) : Except LowerError _)
      Lower.modifyList fun _ => list) fun _ => True :=
  .bind .get fun s => .bind (.lift _) fun l => .modifyList fun hpre _ _ => h s l hpre.1.2 hpre.2

/-- Resolving a skip changes its count, which is no mention. -/
theorem resolveHere (position : Nat) : Confines Q pre (Lower.resolveHere position) fun _ => True :=
  relist fun _ _ hs done => hs.list.resolve done

/-- Where a step is in the source does not matter. -/
theorem located {m : Lower Unit} (span : Source.Span) (hm : Confines Q pre m fun _ => True) :
    Confines Q pre (Lower.located span m) fun _ => True := by
  constructor
  · intro s a t e
    obtain ⟨u, h, rfl⟩ := run_located_ok e
    have places := hm.places _ _ _ h
    exact places
  · intro hpre s a t e known hs
    obtain ⟨u, h, rfl⟩ := run_located_ok e
    have known : Known Q u := known
    obtain ⟨hu, -⟩ := hm.confined hpre _ _ _ h known { hs with }
    exact ⟨{ hu with }, trivial⟩

/-! ## Scopes -/

/-- The innermost scope may be changed in any way that keeps it confined. -/
theorem modifyScope {f : Scope → Scope}
    (h : pre → ∀ scope : Scope, scope.Confined Q → (f scope).Confined Q) :
    Confines Q pre (Lower.modifyScope f) fun _ => True := by
  constructor
  · intro s a t e
    obtain ⟨scope, rest, -, rfl⟩ := run_modifyScope_ok.1 e
    exact List.Subset.refl _
  · intro hpre s a t e _ hs
    obtain ⟨scope, rest, same, rfl⟩ := run_modifyScope_ok.1 e
    have old := hs.scopes
    rw [same, List.forall_mem_cons] at old
    exact ⟨hs.withScopes (List.forall_mem_cons.2 ⟨h hpre _ old.1, old.2⟩), trivial⟩

/-- What a name is bound to has to be confined. -/
theorem bindName (name : String) {v : Variable} (h : pre → v.Confined Q) :
    Confines Q pre (Lower.bind name v) fun _ => True :=
  modifyScope fun hpre _ hs => ⟨List.forall_mem_cons.2 ⟨h hpre, hs.bindings⟩, hs.exits⟩

theorem openScope : Confines Q pre Lower.openScope fun _ => True :=
  change (fun _ => rfl) fun _ _ hs =>
    hs.withScopes (List.forall_mem_cons.2 ⟨Scope.confined_empty, hs.scopes⟩)

/-- The stacks of a scope that is popped are confined, as the scope is. -/
theorem closeScope : Confines Q pre Lower.closeScope fun _ => True := by
  constructor
  · intro s a t e
    obtain ⟨scope, rest, σ, -, freed, rfl⟩ := run_closeScope_ok e
    have grows := Session.Grows.freed freed
    exact List.append_subset.2 ⟨fun _ hl => List.mem_append_left _ hl,
      fun l hl => List.mem_append_right _ (grows.classData.locations l hl)⟩
  · intro _ s a t e _ hs
    obtain ⟨scope, rest, σ, same, freed, rfl⟩ := run_closeScope_ok e
    have old := hs.scopes
    rw [same, List.forall_mem_cons] at old
    refine ⟨?_, trivial⟩
    have session := hs.withSession (Session.Grows.freed freed) (by
      rw [Session.classData_freed freed]
      exact hs.storage)
    exact (session.withScopes old.2).extend (RecursiveVar.confined_pops old.1.exits)

/-- A step in a scope of its own is confined. -/
theorem inScope {m : Lower α} (hm : Confines Q pre m P) : Confines Q pre (Lower.inScope m) P :=
  .bind .openScope fun _ => .bind (hm.weaken fun h => h.1) fun _ => .bind .closeScope fun _ =>
    .pure fun h => h.1.2

/-- What is popped on the way out of a body is in its scopes. -/
theorem unwindTo (depth : Nat) : Confines Q pre (Lower.unwindTo depth) fun _ => True :=
  .bind .get fun _ => .emit fun h => h.2.pendingPops depth

/-- What a name means is in one of the scopes, all of which are confined. -/
theorem lookup (name : String) : Confines Q pre (Lower.lookup name) (Variable.Confined Q) := by
  refine .bind .get fun s => ?_
  dsimp only
  split
  · next v found =>
    refine .pure fun h => ?_
    obtain ⟨scope, mem, found⟩ := List.exists_of_findSome?_eq_some found
    obtain ⟨before, after, e, -⟩ := List.lookup_eq_some_iff.1 found
    exact (h.2.scopes scope (List.mem_of_mem_take mem)).bindings (name, v) (by rw [e]; simp)
  · exact .throw _

theorem hiddenName (what : String) : Confines Q pre (Lower.hiddenName what) fun _ => True :=
  .bind (.change (fun _ => rfl) fun _ _ hs => { hs with }) fun _ => .bind .get fun _ =>
    .pure fun _ => trivial

/-! ## Declarations -/

/-- A new slot is among the places that the unit knows in the end. -/
theorem allocate (owner : String) : Confines Q pre (Lower.allocate owner) fun _ => True := by
  constructor
  · intro s slot t e
    rcases run_allocate_ok e with ⟨p, scope, rest, -, -, rfl⟩ | ⟨_, rfl⟩
    · refine List.append_subset.2 ⟨fun _ hl => List.mem_append_left _ hl, fun l hl => ?_⟩
      exact List.mem_append_right _ ((Session.Grows.setSlotPool _ p _).classData.locations l hl)
    · exact List.Subset.refl _
  · intro _ s slot t e _ hs
    rcases run_allocate_ok e with ⟨p, scope, rest, -, same, rfl⟩ | ⟨_, rfl⟩
    · have old := hs.scopes
      rw [same, List.forall_mem_cons] at old
      have session := hs.withSession (.setSlotPool _ p s.pool) (by
        rw [Session.classData_setSlotPool]
        exact hs.storage)
      refine ⟨session.withScopes (List.forall_mem_cons.2 ⟨?_, old.2⟩), trivial⟩
      exact ⟨old.1.bindings, old.1.exits⟩
    · exact ⟨{ hs with }, trivial⟩

/-- A slot is taken, noted, and used as a place that is known. -/
theorem declared {name : String} {stacked : Bool} {f : UInt32 → UnitState → Lower α}
    (hf : ∀ slot u, Confines Q (pre ∧ Q (Location.mk u.pool slot).cell) (f slot u) P) :
    Confines Q pre (Lower.allocate name >>= fun slot =>
      Lower.addSymbol name slot stacked >>= fun _ =>
      MonadState.get >>= f slot) P := by
  refine .bind (.allocate name) fun slot => ?_
  constructor
  · intro s a t h
    obtain ⟨_, u, hu, h⟩ := run_bind_ok.1 h
    cases hu
    obtain ⟨_, _, ⟨⟩, h⟩ := run_bind_ok.1 h
    refine List.Subset.trans ?_ ((hf slot _).places _ _ _ h)
    exact List.append_subset.2 ⟨fun _ hl => List.mem_append_left _ (List.mem_cons_of_mem _ hl),
      fun _ hl => List.mem_append_right _ hl⟩
  · intro hpre s a t h known hs
    obtain ⟨_, u, hu, h⟩ := run_bind_ok.1 h
    cases hu
    obtain ⟨_, _, ⟨⟩, h⟩ := run_bind_ok.1 h
    have noted := (hf slot _).places _ _ _ h (List.mem_append_left _ List.mem_cons_self)
    refine (hf slot _).confined ?_ _ _ _ h known { hs with }
    exact ⟨hpre.1, known _ noted⟩

/-- A temporary is at such a place. -/
theorem temp (what : String) : Confines Q pre (Lower.temp what) (IndexedVar.Confined Q) :=
  .bind (.hiddenName what) fun _ => .declared fun _ _ => .pure fun h =>
    IndexedVar.confined_plain.2 h.2

/-- A stack is at such a place, and what it starts with is confined. -/
theorem declareStack (name : String) {initial : Option Element}
    (h : pre → ∀ e, initial = some e → e.Confined Q) :
    Confines Q pre (Lower.declareStack name initial) (·.stack.Confined Q) := by
  refine .declared fun slot u => ?_
  have stack {pre' : Prop} (hpre : pre' → pre ∧ Q (Location.mk u.pool slot).cell) :
      pre' → (RecursiveVar.new name u.pool slot).stack.Confined Q :=
    fun h => RecursiveVar.confined_new.2 (hpre h).2
  refine .bind (.emit fun hp => ?_) fun _ => .bind (.modifyScope fun hp _ hs => ?_) fun _ =>
    .bind (.bindName _ (stack fun h => h.1.1)) fun _ => .pure (stack fun h => h.1.1.1)
  · refine RecursiveVar.confined_push (stack id hp) ?_
    cases initial with
    | none => exact Element.confined_neutral
    | some e => exact h hp.1 e rfl
  · exact ⟨hs.bindings, List.forall_mem_cons.2 ⟨stack (fun h => h.1) hp, hs.exits⟩⟩

/-- So is a plain variable. -/
theorem declarePlain (name : String) {initial : Option Element}
    (h : pre → ∀ e, initial = some e → e.Confined Q) :
    Confines Q pre (Lower.declarePlain name initial) (IndexedVar.Confined Q) := by
  refine .declared fun slot u => ?_
  have var {pre' : Prop} (hpre : pre' → pre ∧ Q (Location.mk u.pool slot).cell) :
      pre' → (IndexedVar.plain name u.pool slot).Confined Q :=
    fun h => IndexedVar.confined_plain.2 (hpre h).2
  cases initial with
  | none => exact .bind (.bindName _ (var id)) fun _ => .pure (var fun h => h.1)
  | some value =>
    exact .bind (.emit fun hp => (var id hp).set_none (h hp.1 value rfl) .nil) fun _ =>
      .bind (.bindName _ (var fun h => h.1)) fun _ => .pure (var fun h => h.1.1)

/-- So is a variable of either kind. -/
theorem declare (name : String) {initial : Option Element} (stacked : Bool)
    (h : pre → ∀ e, initial = some e → e.Confined Q) :
    Confines Q pre (Lower.declare name initial stacked) (Variable.Confined Q) := by
  refine .bind .get fun s => ?_
  split
  · exact .bind (.declareStack name fun hp => h hp.1) fun _ => .pure fun hp => hp.2
  · exact .bind (.declarePlain name fun hp => h hp.1) fun _ => .pure fun hp => hp.2

/-- A value that is kept on a stack is read from there. -/
theorem materialize {value : Element} (h : pre → value.Confined Q) :
    Confines Q pre (Lower.materialize value) (Element.Confined Q) := by
  refine .bind .get fun s => ?_
  split
  · refine .bind (.hiddenName _) fun _ => .bind (.declareStack _ fun hp e same => ?_) fun _ =>
      .pure fun hp => Element.confined_lastOf.2 hp.2.get_none
    cases same
    exact h hp.1.1
  · exact .pure fun hp => h hp.1

/-! ## Bodies -/

/-- The result of the innermost frame is confined, as the state is. -/
theorem frame :
    Confines Q pre Lower.frame fun frame => ∀ v, frame.result = some v → v.Confined Q := by
  refine .bind .get fun s => ?_
  split
  · next frame rest e =>
    exact .pure fun h => h.2.results frame (by rw [e]; exact List.mem_cons_self)
  · exact .throw _

theorem expandedFrame (method : Option String) (result : Option IndexedVar) :
    Confines Q pre (Lower.expandedFrame method result) fun frame => frame.result = result :=
  .bind .get fun _ => .pure fun _ => rfl

theorem pushFrame {frame : Frame} (h : pre → ∀ v, frame.result = some v → v.Confined Q) :
    Confines Q pre (Lower.pushFrame frame) fun _ => True :=
  .change (fun _ => rfl) fun hp _ hs =>
    { hs with results := List.forall_mem_cons.2 ⟨h hp, hs.results⟩ }

theorem closeFrame : Confines Q pre Lower.closeFrame fun _ => True := by
  have returns (frame : Frame) : Confines Q True
    (frame.returns.forM Lower.resolveHere) fun _ => True :=
    .forM fun _ _ => .resolveHere _
  constructor
  · intro s a t e
    obtain ⟨_, _, ⟨⟩, e⟩ := run_bind_ok.1 e
    split at e
    · cases e
    · next frame rest _ =>
      obtain ⟨_, u, hu, e⟩ := run_bind_ok.1 e
      cases hu
      have places := (returns frame).places _ _ _ e
      exact places
  · intro _ s a t e known hs
    obtain ⟨_, _, ⟨⟩, e⟩ := run_bind_ok.1 e
    split at e
    · cases e
    · next frame rest same =>
      obtain ⟨_, u, hu, e⟩ := run_bind_ok.1 e
      cases hu
      have old := hs.results
      rw [same, List.forall_mem_cons] at old
      exact (returns frame).confined trivial _ _ _ e known { hs with results := old.2 }

/-- A region is opened with its stacks and temporaries. -/
theorem pushRegion {region : Region} (h : pre → region.Confined Q) :
    Confines Q pre (Lower.pushRegion region) fun _ => True :=
  .change (fun _ => rfl) fun hp _ hs =>
    { hs with regions := List.forall_mem_cons.2 ⟨h hp, hs.regions⟩ }

/-- A region that is closed was open. -/
theorem popRegion : Confines Q pre Lower.popRegion (Region.Confined Q) := by
  constructor
  · intro s a t e
    obtain ⟨_, _, ⟨⟩, e⟩ := run_bind_ok.1 e
    split at e
    · cases e
      exact List.Subset.refl _
    · cases e
  · intro _ s a t e _ hs
    obtain ⟨_, _, ⟨⟩, e⟩ := run_bind_ok.1 e
    split at e
    · next region rest same =>
      cases e
      have old := hs.regions
      rw [same, List.forall_mem_cons] at old
      exact ⟨{ hs with regions := old.2 }, old.1⟩
    · cases e

theorem addReturn (skip : Nat) : Confines Q pre (Lower.addReturn skip) fun _ => True := by
  constructor
  · intro s a t e
    obtain ⟨_, _, ⟨⟩, e⟩ := run_bind_ok.1 e
    split at e
    · cases e
      exact List.Subset.refl _
    · cases e
  · intro _ s a t e _ hs
    obtain ⟨_, _, ⟨⟩, e⟩ := run_bind_ok.1 e
    split at e
    · next frame rest same =>
      cases e
      have old := hs.results
      rw [same, List.forall_mem_cons] at old
      exact ⟨{ hs with results := List.forall_mem_cons.2 ⟨old.1, old.2⟩ }, trivial⟩
    · cases e

/-! ## The storage of instances -/

/-- A step on the storage is confined in the unit when it is on the data and the list. -/
theorem onStorage {m : ClassStorage.Step α} (hm : ClassStorage.Confines Q pre m P) :
    Confines Q pre (Lower.onStorage m) P := by
  constructor
  · intro s a t e
    obtain ⟨u, hu, rfl⟩ := run_onStorage_ok.1 e
    exact List.append_subset.2 ⟨fun _ hl => List.mem_append_left _ hl,
      fun l hl => List.mem_append_right _ ((hm.grows _ _ _ hu).locations l hl)⟩
  · intro hpre s a t e known hs
    obtain ⟨u, hu, rfl⟩ := run_onStorage_ok.1 e
    obtain ⟨hu, ha⟩ := hm.confined hpre _ _ _ hu (fun l hl => known l (List.mem_append_right _ hl))
      ⟨hs.list, hs.storage⟩
    exact ⟨{ hs with list := hu.list, storage := hu.whole }, ha⟩

/-- The place of a field is the stack of the field, at a confined handle. -/
theorem fieldVar (className field : String) {handle : Element} (h : pre → handle.Confined Q) :
    Confines Q pre (Lower.fieldVar className field handle) (IndexedVar.Confined Q) :=
  .bind .get fun _ => .bind (.lift _) fun _ => .bind (.lift _) fun _ =>
    .bind (.onStorage (.prepare _)) fun _ => .bind (.onStorage (.fieldStack _)) fun _ =>
      .pure fun hp => hp.2.child (h hp.1.1.1.1.1)

theorem staticVar (className field : String) :
    Confines Q pre (Lower.staticVar className field) (IndexedVar.Confined Q) :=
  .bind .get fun _ => .bind (.lift _) fun _ => .onStorage (.staticField _ _)

/-- A variable of other actors is one that the name means. -/
theorem actorVar (name : String) : Confines Q pre (Lower.actorVar name) (Variable.Confined Q) := by
  refine .bind (.lookup name) fun v => ?_
  split
  · exact .pure fun h => h.2
  · exact .throw _

end Lower.Confines

/-! ## Loops -/

def LoopKind.Confined (Q : Cell → Prop) : LoopKind → Prop
  | .forEach array index => array.Confined Q ∧ index.Confined Q
  | _ => True

/-- Counting the index of a loop up or down mentions what its kind does. -/
theorem LoopKind.Confined.indexWrite {kind : LoopKind} (h : kind.Confined Q)
    {value : Element → Element} (hv : ∀ e, e.Confined Q → (value e).Confined Q)
    {actions : List Action} (ok : LoopBlock.indexWrite kind value = .ok actions) :
    ActsConfined Q actions := by
  cases kind with
  | forEach array index => exact h.2.set (hv _ h.2.get) .nil ok
  | _ =>
    cases ok
    exact .nil

/-- The exit condition of a loop mentions what its kind and its condition do. -/
theorem LoopKind.Confined.exitCondition {kind : LoopKind} (h : kind.Confined Q)
    {condition : Option Element} (hc : ∀ e, condition = some e → e.Confined Q) {exit : Element}
    (ok : LoopBlock.exitCondition kind condition = .ok exit) : exit.Confined Q := by
  unfold LoopBlock.exitCondition at ok
  split at ok
  · cases ok
    exact Element.confined_compare.2 ⟨h.2.get, Element.confined_countOf.2 h.1⟩
  · cases ok
  · cases ok
    exact (hc _ rfl).negate
  · cases ok

namespace LoopBlock

/-- A step of a loop that keeps what its list mentions confined. -/
def Confines (Q : Cell → Prop) (b : LoopBlock) (m : Step Unit) : Prop :=
  ∀ flow b' flow', Attempt.run m (b, flow) = (.ok (), b', flow') → b.kind.Confined Q →
    ActsConfined Q flow.list.toList → b'.kind.Confined Q ∧ ActsConfined Q flow'.list.toList

/-- A loop that is set up writes the start of its index. -/
theorem confines_setup (kind : LoopKind) (depth : Nat) : Confines Q (.new kind) (setup depth) := by
  intro flow b flow' h hk hl
  obtain ⟨zero, written, rfl, rfl⟩ := run_setup_ok h
  exact ⟨hk, hl.extend (hk.indexWrite (fun _ _ => Element.confined_ofNat 0) written)⟩

theorem confines_guard (b : LoopBlock) {condition : Option Element}
    (hc : ∀ e, condition = some e → e.Confined Q) : Confines Q b (guard condition) := by
  intro flow b' flow' h hk hl
  obtain ⟨exit, found, rfl, rfl⟩ := run_guard_ok h
  refine ⟨hk, hl.pushSkip fun e same => ?_⟩
  cases same
  exact hk.exitCondition hc found

/-- At its epilogue a loop writes the next index. -/
theorem confines_epilogue (b : LoopBlock) : Confines Q b epilogue := by
  intro flow b' flow' h hk hl
  obtain ⟨-, frame, rest, list, -, -, resolved, rfl, rfl⟩ := run_epilogue_ok h
  exact ⟨hk, hl.resolveAllHere resolved⟩

theorem confines_finish (b : LoopBlock) {tail : List Action} (ht : ActsConfined Q tail) :
    ∀ flow b' flow', Attempt.run (finish tail) (b, flow) = (.ok (), b', flow') → b.kind.Confined Q →
      ActsConfined Q flow.list.toList → ActsConfined Q flow'.list.toList := by
  have closed (b : LoopBlock) (stage : b.stage = .epilogue) (flow b' flow')
      (h : Attempt.run (finish tail) (b, flow) = (.ok (), b', flow')) (hk : b.kind.Confined Q)
      (hl : ActsConfined Q flow.list.toList) : ActsConfined Q flow'.list.toList := by
    obtain ⟨next, exit, l₁, done, written, -, h₁, h₂, rfl⟩ := run_finish_ok stage h
    have step :=
      hk.indexWrite (fun _ he => Element.confined_add.2 ⟨he, Element.confined_ofNat 1⟩) written
    exact ((((hl.extend step).pushSkipTo _).resolve h₁).extend ht).resolveAllHere h₂
  intro flow b' flow' h hk hl
  rcases run_finish_stage h with stage | stage
  · obtain ⟨b₁, flow₁, first, stage, h⟩ := run_finish_guarded stage h
    obtain ⟨hk, hl⟩ := confines_epilogue b _ _ _ first hk hl
    exact closed b₁ stage _ _ _ h hk hl
  · exact closed b stage _ _ _ h hk hl

end LoopBlock

namespace Lower.Confines

/-- A step of a loop is confined in the unit when it is on the block and the list. -/
theorem onLoop {block : LoopBlock} {m : LoopBlock.Step Unit} {post : LoopBlock → Prop}
    (h : pre → ∀ flow b flow', Attempt.run m (block, flow) = (.ok (), b, flow') →
      ActsConfined Q flow.list.toList → post b ∧ ActsConfined Q flow'.list.toList) :
    Confines Q pre (Lower.onLoop block m) post := by
  constructor
  · intro s a t e
    obtain ⟨flow, -, rfl⟩ := run_onLoop_ok.1 e
    exact List.Subset.refl _
  · intro hpre s a t e _ hs
    obtain ⟨flow, run, rfl⟩ := run_onLoop_ok.1 e
    obtain ⟨ha, hl⟩ := h hpre _ _ _ run hs.list
    exact ⟨{ hs with list := hl }, ha⟩

/-- A step of a loop that is still being written. -/
theorem stepLoop {block : LoopBlock} {m : LoopBlock.Step Unit}
    (h : pre → block.kind.Confined Q ∧ block.Confines Q m) :
    Confines Q pre (Lower.onLoop block m) (·.kind.Confined Q) :=
  onLoop fun hpre flow b flow' run hl => (h hpre).2 flow b flow' run (h hpre).1 hl

theorem closeLoop {block : LoopBlock} {tail : List Action} (hb : pre → block.kind.Confined Q)
    (ht : pre → ActsConfined Q tail) : Confines Q pre (Lower.closeLoop block tail) fun _ => True :=
  .discard (P := fun _ => True) <| onLoop fun hpre flow b flow' run hl =>
    ⟨trivial, block.confines_finish (ht hpre) flow b flow' run (hb hpre) hl⟩

/-- A loop over an array mentions the array and its index. -/
theorem openForEach (index : Option String) {array : Element} (ha : pre → array.Confined Q) :
    Confines Q pre (Lower.openForEach index array) fun opened =>
      opened.1.kind.Confined Q ∧ opened.2.Confined Q := by
  have rest {pre' : Prop} (hpre : pre' → pre) (name : String) :
      Confines Q pre' (openForEachAt name array) fun opened =>
        opened.1.kind.Confined Q ∧ opened.2.Confined Q := by
    refine .bind (.declare _ _ fun _ => nofun) fun index => .bind .get fun _ =>
      .bind (.stepLoop fun h => ?_) fun opened => .bind (.stepLoop fun h => ?_) fun block => ?_
    · exact ⟨⟨ha (hpre h.1.1), h.1.2⟩, LoopBlock.confines_setup _ _⟩
    · exact ⟨h.2, LoopBlock.confines_guard _ nofun⟩
    · split
      · next element found =>
        refine .pure fun h => ⟨h.2, ?_⟩
        -- the current element is read off the kind of the block, which is confined
        unfold LoopBlock.element? at found
        split at found
        · next array index kind =>
          cases found
          have hk := h.2
          rw [kind] at hk
          exact Element.confined_itemAt.2 ⟨hk.1, hk.2.get⟩
        · cases found
      · exact .throw _
  cases index with
  | none => exact .bind (.hiddenName _) fun name => rest (fun h => h.1) name
  | some name => exact rest id name

theorem leaveLoop (depth : UInt32) (exit : String)
    (wait : LoopStack → (floor skip : Nat) → Except LowerError LoopStack) :
    Confines Q pre (Lower.leaveLoop depth exit wait) fun _ => True :=
  .bind .frame fun _ => .bind .get fun _ => .bind (.lift _) fun _ => .bind (.unwindTo _) fun _ =>
    .bind .pushSkip fun _ => .bind .get fun _ => .bind (.lift _) fun _ =>
      .change (fun _ => rfl) fun _ _ hs => { hs with }

/-- A value that is returned is written to the result, or not at all. -/
theorem leaveFrame {value : Option Element} (hv : pre → ∀ e, value = some e → e.Confined Q) :
    Confines Q pre (Lower.leaveFrame value) fun _ => True := by
  refine .bind .frame fun frame => ?_
  have rest {pre' : Prop} : Confines Q pre' (do
      Lower.unwindTo frame.scopeDepth
      Lower.addReturn (← Lower.pushSkip)) fun _ => True :=
    .bind (.unwindTo _) fun _ => .bind .pushSkip fun _ => .addReturn _
  dsimp only
  split
  · next value result found =>
    exact .bind (.emit fun h => (h.2 result found).set_none (hv h.1 value rfl) .nil) fun _ => rest
  · exact rest

/-! ## Calls -/

/-- The receiver is bound as it is, or to a variable that holds it. -/
theorem bindThis {receiver : Element} (h : pre → receiver.Confined Q) :
    Confines Q pre (Lower.bindThis receiver) fun _ => True := by
  unfold Lower.bindThis
  split
  · exact .bindName _ h
  · refine .discard (.declare _ _ fun hp e same => ?_)
    cases same
    exact h hp

theorem declareParams {params : List String} {arguments : List Element}
    (h : pre → AllConfined Q arguments) :
    Confines Q pre (Lower.declareParams params arguments) fun _ => True :=
  .forM fun p mem => .discard (.declare _ _ fun hp e same => by
    cases same
    exact h hp _ (List.of_mem_zip mem).2)

/-- A region begins with confined arguments, on stacks of the unit. -/
theorem openRegion {key : String} {params : List String} {receiver : Option Element}
    {arguments : List Element} {result : IndexedVar}
    (hr : pre → ∀ e, receiver = some e → e.Confined Q) (ha : pre → AllConfined Q arguments)
    (hv : pre → result.Confined Q) :
    Confines Q pre (Lower.openRegion key params receiver arguments result) (Region.Confined Q) := by
  refine .bind (.mapM fun p mem => .declareStack _ fun hp e same => ?_) fun params =>
    .bind (.optionMapM fun receiver found => .declareStack _ fun hp e same => ?_) fun this =>
      .bind (.hiddenName _) fun _ => .bind (.declareStack _ fun _ e same => ?_) fun address =>
        .bind (.mapM fun _ _ => .temp _) fun temps =>
          .bind (.optionMapM fun _ _ => .temp _) fun thisTemp =>
            .bind .position fun _ => .pure fun h => ?_
  · cases same
    exact ha hp _ (List.of_mem_zip mem).2
  · cases same
    exact hr hp.1 receiver found
  · cases same
    exact Element.confined_number _
  · obtain ⟨⟨⟨⟨⟨⟨⟨h, hparams⟩, hthis⟩, -⟩, haddress⟩, htemps⟩, hthisTemp⟩, -⟩ := h
    exact ⟨hparams, hthis, haddress, htemps, hthisTemp, hv h⟩

/-- The end of a region reads its address. -/
theorem dispatch {address : IndexedVar} (h : pre → address.Confined Q) (number : Nat)
    (sites : List Nat) :
    Confines Q pre (Lower.dispatch address number sites) fun _ => True := by
  induction sites generalizing number with
  | nil => exact .pure fun _ => trivial
  | cons site rest ih =>
    refine .bind (.emit fun hp => ?_) fun _ => .bind (.pushSkipTo _) fun _ =>
      (ih (number + 1)).weaken fun hp => hp.1.1
    exact actsConfined_cons.2 ⟨Action.confined_skipIf.2 (Element.confined_compare.2
      ⟨(h hp).get_none, Element.confined_ofNat _⟩), .nil⟩

/-- Noting a call changes no variable of its region. -/
theorem confined_noteCall {s : UnitState} (hs : s.Confined Q) (index continuation : Nat) :
    (noteCall s index continuation).Confined Q := by
  refine { hs with regions := fun region mem => ?_ }
  obtain ⟨i, hi, rfl⟩ := List.getElem_of_mem mem
  have inside : i < s.regions.length := by simpa [noteCall] using hi
  have old := hs.regions _ (List.getElem_mem inside)
  simp only [noteCall, List.getElem_modify]
  split
  · exact { old with }
  · exact old

/-- A call from inside a region writes to the temporaries and the stacks of the region. -/
theorem callRegion {index : Nat} {region : Region} {receiver : Option Element}
    {arguments : List Element} (h : pre → region.Confined Q)
    (hr : pre → ∀ e, receiver = some e → e.Confined Q) (ha : pre → AllConfined Q arguments) :
    Confines Q pre (Lower.callRegion index region receiver arguments) (Element.Confined Q) := by
  -- from the return address on, which is pushed last
  have last {pre' : Prop} (hpre : pre' → pre) : Confines Q pre' (do
      Lower.emit (region.returnAddress.pushActions (.ofNat region.callSites.length) none)
      Lower.modifyList (·.pushSkipTo region.bodyStart)
      let continuation ← Lower.position
      modify fun s => noteCall s index continuation
      return region.result.get none) (Element.Confined Q) :=
    .bind (.emit fun hp => RecursiveVar.confined_push (h (hpre hp)).returnAddress
      (Element.confined_ofNat _)) fun _ => .bind (.pushSkipTo _) fun _ => .bind .position fun _ =>
        .bind (.change (fun _ => rfl) fun _ _ hs => confined_noteCall hs _ _) fun _ =>
          .pure fun hp => (h (hpre hp.1.1.1.1)).result.get_none
  have params (hp : pre) {p : RecursiveVar × IndexedVar}
      (mem : p ∈ region.params.zip region.argumentTemps) :
      ActsConfined Q (p.1.pushActions (p.2.get none) none) :=
    RecursiveVar.confined_push ((h hp).params _ (List.of_mem_zip mem).1)
      ((h hp).argumentTemps _ (List.of_mem_zip mem).2).get_none
  have object (hp : pre) {this : RecursiveVar} {temp : IndexedVar} (hthis : region.this = some this)
      (htemp : region.thisTemp = some temp) :
        ActsConfined Q (this.pushActions (temp.get none) none) :=
    RecursiveVar.confined_push ((h hp).this _ hthis) ((h hp).thisTemp _ htemp).get_none
  refine .bind (.forM fun p mem => .emit fun hp => ?_) fun _ => ?_
  · exact ((h hp).argumentTemps _ (List.of_mem_zip mem).1).set_none
      (ha hp _ (List.of_mem_zip mem).2) .nil
  · dsimp only
    split
    · next temp receiver htemp =>
      refine .bind (.emit fun hp => ((h hp.1).thisTemp _ htemp).set_none (hr hp.1 _ rfl) .nil)
        fun _ =>
        .bind (.forM fun p mem => .emit fun hp => params hp.1.1 mem) fun _ => ?_
      split
      · next hthis htemp =>
        exact .bind (.emit fun hp => object hp.1.1.1 hthis htemp) fun _ => last fun hp => hp.1.1.1.1
      · exact last fun hp => hp.1.1.1
    · refine .bind (.forM fun p mem => .emit fun hp => params hp.1 mem) fun _ => ?_
      split
      · next hthis htemp =>
        exact .bind (.emit fun hp => object hp.1.1 hthis htemp) fun _ => last fun hp => hp.1.1.1
      · exact last fun hp => hp.1.1

theorem resolveCallee (className : Option String) (method : String) :
    Confines Q pre (Lower.resolveCallee className method) fun callee =>
      Admitted Q (Source.kindsOf callee.decl.body) := by
  -- looking a callee up changes nothing, and it is one of the program
  have same {s t : UnitState} {callee : Callee}
      (e : run (Lower.resolveCallee className method) s = some (.ok callee, t)) : t = s := by
    obtain ⟨_, _, ⟨⟩, e⟩ := run_bind_ok.1 e
    cases className <;>
    · obtain ⟨decl, u, h, e⟩ := run_bind_ok.1 e
      rw [run_lift_ok] at h
      cases e
      exact h.2.symm
  constructor
  · intro s callee t e
    rw [same e]
    exact List.Subset.refl _
  · intro _ s callee t e _ hs
    rw [same e]
    exact ⟨hs, hs.bodies _ (run_resolveCallee_mem e)⟩

theorem checkArity (callee : Callee) (arguments : Nat) :
    Confines Q pre (Lower.checkArity callee arguments) fun _ => True := by
  unfold Lower.checkArity
  split
  · exact .throw _
  · exact .pure fun _ => trivial

end Lower.Confines

end SkipCode
