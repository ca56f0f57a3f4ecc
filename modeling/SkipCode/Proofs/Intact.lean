import SkipCode.Proofs.Failures

/-!
# States that lowering can go on from

`Meets` says of a step that it fails regularly only, and what holds where it succeeds. The steps of
lowering meet this in a state that is `Intact`: the skips that wait are known one by one, the places
that the list will be led back to are in it, every stack of an open scope was pushed, and the slots
of the open scopes are on loan. A step that leaves such a state behind, whatever skips somebody
holds besides, is `Safe`.

This module has the steps that open and close nothing, and those that close a scope or a frame.
-/

namespace SkipCode

open Source (Expr MethodDecl Span)

/-! ## Triples -/

/-- From `s` the step leads to what `Q` says, or it fails regularly. -/
structure Attempt.Meets {σ α : Type} (m : Attempt σ α) (s : σ) (Q : α → σ → Prop) : Prop where
  ok : ∀ a t, run m s = (.ok a, t) → Q a t
  error : ∀ e t, run m s = (.error e, t) → e.Regular

namespace Attempt.Meets

variable {σ α β : Type} {m : Attempt σ α} {f : α → Attempt σ β} {s t : σ} {a : α}
  {P Q : α → σ → Prop} {R : β → σ → Prop}

/-- What is known of one run is met. -/
theorem ofRun (h : run m s = (.ok a, t)) (q : Q a t) : m.Meets s Q :=
  ⟨fun b u h' => by
    rw [h] at h'
    cases h'
    exact q, fun e u h' => by
    rw [h] at h'
    cases h'⟩

theorem pure (h : Q a s) : (Pure.pure a : Attempt σ α).Meets s Q := ofRun rfl h

theorem throw {e : LowerError} (h : e.Regular) : (MonadExcept.throw e : Attempt σ α).Meets s Q :=
  ⟨nofun, fun e' t h' => by
    cases h'
    exact h⟩

/-- What is met by two steps one behind the other. -/
theorem bind (hm : m.Meets s P) (hf : ∀ a t, P a t → (f a).Meets t R) : (m >>= f).Meets s R := by
  refine ⟨fun b u h => ?_, fun e u h => ?_⟩
  · obtain ⟨a, t, h₁, h₂⟩ := run_bind_ok.1 h
    exact (hf a t (hm.ok a t h₁)).ok b u h₂
  · rw [run_bind] at h
    cases hrun : run m s with
    | mk r t =>
      rw [hrun] at h
      cases r with
      | error e' =>
        cases h
        exact hm.error _ _ hrun
      | ok a => exact (hf a t (hm.ok a t hrun)).error e u h

/-- What is met implies what is weaker. -/
theorem mono (hm : m.Meets s P) (h : ∀ a t, P a t → Q a t) : m.Meets s Q :=
  ⟨fun a t run => h a t (hm.ok a t run), hm.error⟩

/-- What is known of successful runs can be used. -/
theorem withRun (hm : m.Meets s P) (h : ∀ a t, run m s = (.ok a, t) → P a t → Q a t) :
    m.Meets s Q :=
  ⟨fun a t run => h a t run (hm.ok a t run), hm.error⟩

/-- A lifted result is met when it fails regularly only. -/
theorem lift {x : Except LowerError α} (regular : FailsRegularly x) (h : ∀ a, x = .ok a → Q a s) :
    (liftM x : Attempt σ α).Meets s Q := by
  refine ⟨fun a t run => ?_, fun e t run => ?_⟩
  · rw [run_lift] at run
    cases run
    exact h a rfl
  · rw [run_lift] at run
    cases run
    exact regular e rfl

/-- A step that always succeeds. -/
theorem bindRun (h : run m s = (.ok a, t)) (hf : (f a).Meets t R) : (m >>= f).Meets s R :=
  bind (P := fun b u => b = a ∧ u = t) (ofRun h ⟨rfl, rfl⟩) fun b u e => by
    rw [e.1, e.2]
    exact hf

/-- So is one that a step goes on with. -/
theorem bindLift {x : Except LowerError α} (regular : FailsRegularly x)
    (h : ∀ a, x = .ok a → (f a).Meets s R) : (liftM x >>= f).Meets s R :=
  bind (P := fun a t => x = .ok a ∧ t = s) (lift regular fun a e => ⟨e, rfl⟩) fun a t e => by
    rw [e.2]
    exact h a e.1

end Attempt.Meets

/-- From `s` the step leads to what `Q` says, or it fails regularly, or has no end. -/
structure Lower.Meets {α : Type} (m : Lower α) (s : UnitState) (Q : α → UnitState → Prop) :
    Prop where
  ok : ∀ a t, run m s = some (.ok a, t) → Q a t
  error : ∀ e t, run m s = some (.error e, t) → e.Regular

namespace Lower.Meets

variable {α β : Type} {m : Lower α} {f : α → Lower β} {s t : UnitState} {a : α}
  {P Q : α → UnitState → Prop} {R : β → UnitState → Prop}

theorem ofRun (h : run m s = some (.ok a, t)) (q : Q a t) : m.Meets s Q :=
  ⟨fun b u h' => by
    rw [h] at h'
    cases h'
    exact q, fun e u h' => by
    rw [h] at h'
    cases h'⟩

theorem pure (h : Q a s) : (Pure.pure a : Lower α).Meets s Q := ofRun rfl h

theorem throw {e : LowerError} (h : e.Regular) : (MonadExcept.throw e : Lower α).Meets s Q := by
  refine ⟨fun a t ran => ?_, fun e' t ran => ?_⟩
  · cases ran
  · cases ran
    exact h

/-- What is met by two steps one behind the other, in lowering. -/
theorem bind (hm : m.Meets s P) (hf : ∀ a t, P a t → (f a).Meets t R) : (m >>= f).Meets s R := by
  refine ⟨fun b u h => ?_, fun e u h => ?_⟩
  · obtain ⟨a, t, h₁, h₂⟩ := run_bind_ok.1 h
    exact (hf a t (hm.ok a t h₁)).ok b u h₂
  · rw [run_bind] at h
    cases hrun : run m s with
    | none =>
      rw [hrun] at h
      cases h
    | some p =>
      obtain ⟨r, t⟩ := p
      rw [hrun] at h
      cases r with
      | error e' =>
        cases h
        exact hm.error _ _ hrun
      | ok a => exact (hf a t (hm.ok a t hrun)).error e u h

/-- A step that always succeeds. -/
theorem bindRun (h : run m s = some (.ok a, t)) (hf : (f a).Meets t R) : (m >>= f).Meets s R :=
  bind (P := fun b u => b = a ∧ u = t) (ofRun h ⟨rfl, rfl⟩) fun b u e => by
    rw [e.1, e.2]
    exact hf

/-- What is met implies what is weaker. -/
theorem mono (hm : m.Meets s P) (h : ∀ a t, P a t → Q a t) : m.Meets s Q :=
  ⟨fun a t run => h a t (hm.ok a t run), hm.error⟩

/-- What is known of successful runs can be used. -/
theorem withRun (hm : m.Meets s P) (h : ∀ a t, run m s = some (.ok a, t) → P a t → Q a t) :
    m.Meets s Q :=
  ⟨fun a t run => h a t run (hm.ok a t run), hm.error⟩

/-- What is made of a result is met when it holds of what is made. -/
theorem map {g : α → β} (hm : m.Meets s fun a t => R (g a) t) : (g <$> m).Meets s R := by
  rw [← bind_pure_comp]
  exact hm.bind fun a t h => pure h

/-- A lifted result is met when it fails regularly only. -/
theorem lift {x : Except LowerError α} (regular : FailsRegularly x) (h : ∀ a, x = .ok a → Q a s) :
    (liftM x : Lower α).Meets s Q := by
  refine ⟨fun a t run => ?_, fun e t run => ?_⟩
  · rw [run_lift] at run
    cases run
    exact h a rfl
  · rw [run_lift] at run
    cases run
    exact regular e rfl

theorem bindLift {x : Except LowerError α} (regular : FailsRegularly x)
    (h : ∀ a, x = .ok a → (f a).Meets s R) : (liftM x >>= f).Meets s R :=
  bind (P := fun a t => x = .ok a ∧ t = s) (lift regular fun a e => ⟨e, rfl⟩) fun a t e => by
    rw [e.2]
    exact h a e.1

/-- A lifted result that is known to be there is just gone on with. -/
theorem bindOk {x : Except LowerError α} (ok : x = .ok a) (h : (f a).Meets s R) :
    (liftM x >>= f).Meets s R :=
  bindRun (by rw [run_lift, ok]) h

/-- A loop keeps what each of its rounds keeps. -/
theorem forM {γ : Type} {g : γ → Lower PUnit} {l : List γ} {I : UnitState → Prop}
    (each : ∀ c ∈ l, ∀ s, I s → (g c).Meets s fun _ t => I t) (start : I s) :
    (l.forM g).Meets s fun _ t => I t := by
  induction l generalizing s with
  | nil => exact pure start
  | cons c rest ih =>
    exact (each c (List.mem_cons_self ..) s start).bind fun _ t h =>
      ih (fun d mem => each d (List.mem_cons_of_mem _ mem)) h

/-- A step on the storage is met in the unit. -/
theorem onStorage {m : ClassStorage.Step α} {Q : α → ClassStorage → Prop}
    (hm : Attempt.Meets m ⟨s.session.classData, s.session.global, s.list⟩ Q) :
    (Lower.onStorage m).Meets s fun a t => ∃ storage, Q a storage ∧ t = s.stored storage := by
  refine ⟨fun a t run => ?_, fun e t run => ?_⟩
  · obtain ⟨storage, h, rfl⟩ := run_onStorage_ok.1 run
    exact ⟨storage, hm.ok a storage h, rfl⟩
  · rw [run_onStorage] at run
    injection run with run
    injection run with failed
    exact hm.error e _ (Prod.ext failed rfl)

/-- So is one of a loop. -/
theorem onLoop {block : LoopBlock} {m : LoopBlock.Step Unit} {Q : LoopBlock × Flow → Prop}
    (hm : Attempt.Meets m (block, ⟨s.list, s.loops⟩) fun _ p => Q p) :
    (Lower.onLoop block m).Meets s fun b t =>
      ∃ flow, Q (b, flow) ∧ t = { s with list := flow.list, loops := flow.loops } := by
  refine ⟨fun b t run => ?_, fun e t run => ?_⟩
  · obtain ⟨flow, h, rfl⟩ := run_onLoop_ok.1 run
    exact ⟨flow, hm.ok () _ h, rfl⟩
  · rw [run_onLoop] at run
    injection run with run
    injection run with failed
    cases h : Attempt.run m (block, ⟨s.list, s.loops⟩) with
    | mk r p =>
      rw [h] at failed
      cases r with
      | ok a => cases failed
      | error e' =>
        cases failed
        exact hm.error e _ h

end Lower.Meets

/-! ## Intact states -/

def LoopFrame.waiting (f : LoopFrame) : List Nat := f.continues ++ f.breaks

namespace UnitState

/-- The skips that wait for the end or the next round of a loop, or for the end of a body. -/
def waiting (s : UnitState) : List Nat :=
  s.loops.frames.flatMap LoopFrame.waiting ++ s.frames.flatMap Frame.returns

/-- The slots of the scopes that are open. -/
def owned (s : UnitState) : List (Pool × UInt32) := s.scopes.flatMap Scope.owned

/-- A state that lowering can go on from; `held` are the skips that nothing of the state knows of.
-/
structure Intact (held : List Nat) (s : UnitState) : Prop where
  skips : s.list.Sound (held ++ s.waiting)
  starts : ∀ f ∈ s.loops.frames, f.start ≤ s.list.length
  regions : ∀ r ∈ s.regions, r.bodyStart ≤ s.list.length ∧ ∀ p ∈ r.callSites, p ≤ s.list.length
  exits : ∀ scope ∈ s.scopes, ∀ v ∈ scope.exits, v.openCount ≠ 0
  lends : s.session.Lends s.owned
  built : s.session.classes.Built

/-- Inside a body and a scope of it. -/
structure Inside (s : UnitState) : Prop where
  scopes : s.scopes ≠ []
  frames : s.frames ≠ []

variable {s t : UnitState} {held held' : List Nat}

/-- Where a scope was open there still is one. -/
theorem Steady.exists_scope (h : s.Steady t) (some : s.scopes ≠ []) :
    ∃ scope rest, t.scopes = scope :: rest :=
  List.exists_cons_of_ne_nil fun e => some (by
    have := h.scopes.length_eq
    rw [e] at this
    exact List.length_eq_zero_iff.1 this.symm)

/-- A step that keeps what is open stays inside. -/
theorem Steady.inside (h : s.Steady t) (inside : s.Inside) : t.Inside := by
  refine ⟨fun e => ?_, fun e => inside.frames ?_⟩
  · obtain ⟨scope, rest, e'⟩ := h.exists_scope inside.scopes
    rw [e] at e'
    cases e'
  · have := h.frames.length_eq
    rw [e] at this
    exact List.length_eq_zero_iff.1 this

namespace Intact

/-- What the invariant does not look at may change. -/
theorem congr (h : s.Intact held) (list : t.list = s.list) (loops : t.loops = s.loops)
    (frames : t.frames = s.frames) (regions : t.regions = s.regions) (scopes : t.scopes = s.scopes)
    (session : t.session = s.session) : t.Intact held := by
  have waiting : t.waiting = s.waiting := by
    rw [UnitState.waiting, UnitState.waiting, loops, frames]
  have owned : t.owned = s.owned := by rw [UnitState.owned, UnitState.owned, scopes]
  refine ⟨?_, ?_, ?_, ?_, ?_, ?_⟩
  · rw [list, waiting]
    exact h.skips
  · rw [list, loops]
    exact h.starts
  · rw [list, regions]
    exact h.regions
  · rw [scopes]
    exact h.exits
  · rw [session, owned]
    exact h.lends
  · rw [session]
    exact h.built

/-- The list has grown. -/
theorem withList (h : s.Intact held) {list : ActionList} (sound : list.Sound (held' ++ s.waiting))
    (le : s.list.length ≤ list.length) : (s.withList list).Intact held' :=
  ⟨sound, fun f mem => Nat.le_trans (h.starts f mem) le,
    fun r mem => ⟨Nat.le_trans (h.regions r mem).1 le,
      fun p hp => Nat.le_trans ((h.regions r mem).2 p hp) le⟩, h.exits, h.lends, h.built⟩

/-- A state stays intact when sound code is written. -/
theorem extend (h : s.Intact held) {actions : List Action} (contained : Contained actions) :
    (s.withList (s.list.extend actions)).Intact held :=
  h.withList (h.skips.extend contained) (by rw [ActionList.length_extend]; omega)

/-- One more skip is held. -/
theorem pushSkip (h : s.Intact held) (condition : Option Element) :
    (s.withList (s.list.pushSkip condition)).Intact (s.list.length :: held) :=
  h.withList (h.skips.pushSkip condition) (by rw [ActionList.length_pushSkip]; omega)

/-- In which order the waiting skips are listed does not matter. -/
theorem perm (h : s.Intact held) (p : held.Perm held') : s.Intact held' :=
  ⟨h.skips.perm (p.append_right _), h.starts, h.regions, h.exits, h.lends, h.built⟩

/-- A skip that is held can be resolved. -/
theorem resolveHere {skip : Nat} (h : s.Intact (skip :: held)) :
    ∃ list, s.list.resolveHere skip = .ok list ∧ (s.withList list).Intact held := by
  obtain ⟨list, resolved, sound, len⟩ := ActionList.Sound.resolveHere h.skips
  exact ⟨list, resolved, h.withList sound (Nat.le_of_eq len.symm)⟩

/-- Skips that wait can be resolved, and then wait no longer. -/
theorem resolveAllHere {skips : List Nat} (h : s.Intact (skips ++ held)) :
    ∃ list, s.list.resolveAllHere skips = .ok list ∧ (s.withList list).Intact held := by
  have skips := h.skips
  rw [List.append_assoc] at skips
  obtain ⟨list, resolved, sound, len⟩ := ActionList.Sound.resolveAllHere skips
  exact ⟨list, resolved, h.withList sound (Nat.le_of_eq len.symm)⟩

end Intact

end UnitState

/-! ## Safe steps -/

/-- From `s` the step leads to an intact state with the same things open. -/
def Lower.SafeAt {α : Type} (m : Lower α) (held : List Nat) (s : UnitState) : Prop :=
  m.Meets s fun _ t => t.Intact held ∧ s.Steady t

/-- A step that is safe wherever lowering can go on. -/
def Lower.Safe {α : Type} (m : Lower α) : Prop :=
  ∀ held s, s.Intact held → s.Inside → m.SafeAt held s

/-- What is safe at one place and goes on with what is safe behind it is safe there. -/
theorem Lower.SafeAt.bind {α β : Type} {m : Lower α} {f : α → Lower β} {held : List Nat}
    {s : UnitState} (hm : m.SafeAt held s)
    (hf : ∀ a t, t.Intact held → s.Steady t → (f a).SafeAt held t) : (m >>= f).SafeAt held s :=
  Meets.bind hm fun a t h => (hf a t h.1 h.2).mono fun _ _ h' => ⟨h'.1, h.2.trans h'.2⟩

/-- What was done on the way to a state counts as part of what is done from it. -/
theorem Lower.SafeAt.behind {α : Type} {m : Lower α} {held : List Nat} {r s : UnitState}
    (hm : m.SafeAt held s) (steady : r.Steady s) :
    m.Meets s fun _ t => t.Intact held ∧ r.Steady t :=
  hm.mono fun _ _ h => ⟨h.1, steady.trans h.2⟩

namespace Lower.Safe

variable {α β γ : Type} {m : Lower α}

/-- A value that is given back is safe. -/
theorem pure (a : α) : Safe (Pure.pure a : Lower α) := fun _ s intact _ => .pure ⟨intact, .refl s⟩

theorem throw {e : LowerError} (h : e.Regular) : Safe (MonadExcept.throw e : Lower α) :=
  fun _ _ _ _ => .throw h

theorem lift {x : Except LowerError α} (h : FailsRegularly x) : Safe (liftM x : Lower α) :=
  fun _ s intact _ => .lift h fun _ _ => ⟨intact, .refl s⟩

/-- Safe steps one behind the other are safe. -/
theorem bind {f : α → Lower β} (hm : Safe m) (hf : ∀ a, Safe (f a)) : Safe (m >>= f) :=
  fun held s intact inside => SafeAt.bind (hm held s intact inside) fun a t intact' steady =>
    hf a held t intact' (steady.inside inside)

/-- What comes after a look at the state may use what the state is. -/
theorem bindGet {f : UnitState → Lower α}
    (hf : ∀ held s, s.Intact held → s.Inside → (f s).SafeAt held s) :
    Safe (MonadState.get >>= f) :=
  fun held s intact inside => .bindRun rfl (hf held s intact inside)

theorem get : Safe (MonadState.get : Lower UnitState) :=
  fun _ s intact _ => .ofRun rfl ⟨intact, .refl s⟩

/-- With these rules steps are put together of safe ones. -/
theorem composes : Composes Lower Safe := ⟨pure, bind⟩

/-- What is made of a result is safe. -/
theorem map (f : α → β) (hm : Safe m) : Safe (f <$> m) := composes.map f hm

/-- A row of safe steps is safe. -/
theorem forM {f : γ → Lower PUnit} (hf : ∀ a, Safe (f a)) (l : List γ) : Safe (l.forM f) :=
  composes.forM fun a _ => hf a

/-- A plain step is safe when it leaves an intact state behind. -/
theorem ofPlain (plain : Plain m)
    (h : ∀ held s, s.Intact held → s.Inside → m.Meets s fun _ t => t.Intact held) : Safe m :=
  fun held s intact inside => (h held s intact inside).withRun fun a t run intact' => by
    obtain ⟨actions, e⟩ := plain s a t run
    exact ⟨intact', e.steady⟩

/-- Code without waiting skips may be emitted. -/
theorem emit {actions : List Action} (contained : Contained actions) : Safe (Lower.emit actions) :=
  fun _ s intact _ => .ofRun (run_emit actions s)
    ⟨intact.extend contained, .withList (.refl s) (s.list.extend actions)⟩

/-- A change of what neither the invariant nor what is open depends on. -/
theorem change {f : UnitState → UnitState} (plain : Plain (modify f : Lower PUnit))
    (list : ∀ s, (f s).list = s.list) (loops : ∀ s, (f s).loops = s.loops)
    (frames : ∀ s, (f s).frames = s.frames) (regions : ∀ s, (f s).regions = s.regions)
    (scopes : ∀ s, (f s).scopes = s.scopes) (session : ∀ s, (f s).session = s.session) :
    Safe (modify f : Lower PUnit) :=
  ofPlain plain fun _ s intact _ => .ofRun (run_modify f s)
    (intact.congr (list s) (loops s) (frames s) (regions s) (scopes s) (session s))

/-- A name that means nothing is regularly refused. -/
theorem lookup (name : String) : Safe (Lower.lookup name) := by
  refine .bind .get fun s => ?_
  dsimp only
  split
  · exact .pure _
  · exact .throw (.defect rfl)

/-! ## Scopes and declarations -/

/-- The innermost scope is changed, and owns what it owned. -/
theorem modifyScope {f : Scope → Scope} (grows : ∀ scope : Scope, scope.Grows (f scope))
    (exits : ∀ scope : Scope, (∀ v ∈ scope.exits, v.openCount ≠ 0) →
      ∀ v ∈ (f scope).exits, v.openCount ≠ 0)
    (owned : ∀ scope : Scope, (f scope).owned = scope.owned) : Safe (Lower.modifyScope f) := by
  refine ofPlain (.modifyScope grows) fun held s intact inside => ?_
  obtain ⟨scope, rest, e⟩ := List.exists_cons_of_ne_nil inside.scopes
  refine .ofRun (run_modifyScope_ok.2 ⟨scope, rest, e, rfl⟩) ⟨intact.skips, intact.starts,
    intact.regions, fun scope' mem => ?_, ?_, intact.built⟩
  · rcases List.mem_cons.1 mem with rfl | mem
    · exact exits scope (intact.exits scope (by rw [e]; exact List.mem_cons_self ..))
    · exact intact.exits scope' (by rw [e]; exact List.mem_cons_of_mem _ mem)
  · have := intact.lends
    rw [UnitState.owned, e] at this
    simpa only [UnitState.owned, List.flatMap_cons, owned] using this

theorem bindName (name : String) (v : Variable) : Safe (Lower.bind name v) :=
  modifyScope (fun _ => ⟨List.suffix_cons _ _, List.suffix_refl _, List.suffix_refl _⟩)
    (fun _ h => h) fun _ => rfl

/-- So is a slot that there is no room for. -/
theorem allocate (owner : String) : Safe (Lower.allocate owner) := by
  refine ofPlain (.allocate owner) fun held s intact inside => ?_
  obtain ⟨scope, rest, e⟩ := List.exists_cons_of_ne_nil inside.scopes
  refine .bindRun rfl ?_
  cases taken : (s.session.slotPool s.pool).allocate owner with
  | error _ => exact .ofRun rfl (intact.congr rfl rfl rfl rfl rfl rfl)
  | ok p =>
    refine .bindRun rfl (.bindRun (run_modifyScope_ok.2 ⟨scope, rest, e, rfl⟩) (.pure
      ⟨intact.skips, intact.starts, intact.regions, fun scope' mem => ?_, ?_, ?_⟩))
    · rcases List.mem_cons.1 mem with rfl | mem
      · exact intact.exits scope (by rw [e]; exact List.mem_cons_self ..)
      · exact intact.exits scope' (by rw [e]; exact List.mem_cons_of_mem _ mem)
    · have := intact.lends.allocate taken
      rw [UnitState.owned, e] at this
      exact this
    · cases hpool : s.pool <;> exact intact.built

theorem addSymbol (name : String) (slot : UInt32) (stacked : Bool) :
    Safe (Lower.addSymbol name slot stacked) :=
  change (.addSymbol name slot stacked) (fun _ => rfl) (fun _ => rfl) (fun _ => rfl) (fun _ => rfl)
    (fun _ => rfl) fun _ => rfl

theorem hiddenName (what : String) : Safe (Lower.hiddenName what) :=
  ofPlain (.hiddenName what) fun _ s intact _ => .ofRun (run_hiddenName what s)
    (intact.congr rfl rfl rfl rfl rfl rfl)

theorem temp (what : String) : Safe (Lower.temp what) :=
  .bind (.hiddenName what) fun name => .bind (.allocate name) fun slot =>
    .bind (.addSymbol name slot false) fun _ => .bind .get fun _ => .pure _

/-- A stack takes a slot and pushes, which is safe. -/
theorem declareStack (name : String) (initial : Option Element) :
    Safe (Lower.declareStack name initial) := by
  refine .bind (.allocate name) fun slot => .bind (.addSymbol name slot true) fun _ =>
    .bind .get fun s => .bind (.emit (contained_push _ _ _)) fun _ => .bind (modifyScope
      (fun _ => ⟨List.suffix_refl _, List.suffix_cons _ _, List.suffix_refl _⟩)
      (fun scope h v mem => ?_) fun _ => rfl) fun _ => .bind (.bindName name _) fun _ => .pure _
  rcases List.mem_cons.1 mem with rfl | mem
  · exact Nat.succ_ne_zero _
  · exact h v mem

/-- A plain variable takes a slot and writes, which is safe. -/
theorem declarePlain (name : String) (initial : Option Element) :
    Safe (Lower.declarePlain name initial) := by
  refine .bind (.allocate name) fun slot => .bind (.addSymbol name slot false) fun _ =>
    .bind .get fun _ => ?_
  cases initial with
  | none => exact .bind (.bindName name _) fun _ => .pure _
  | some value =>
    exact .bind (.emit (contained_set _ _ _ _)) fun _ => .bind (.bindName name _) fun _ => .pure _

/-- With these rules all that declares is safe. -/
theorem rules : DeclareRules Safe where
  toComposes := composes
  get := .get
  hiddenName := .hiddenName
  temp := .temp
  bindReference _ _ := .bindName _ _
  declareStack := .declareStack
  declarePlain := .declarePlain

theorem position : Safe Lower.position := .bind .get fun _ => .pure _

theorem actorVar (name : String) : Safe (Lower.actorVar name) := by
  refine .bind (.lookup name) fun v => ?_
  split
  · exact .pure _
  · exact .throw (.unsupported _)

/-- A call is regularly refused where it means nothing. -/
theorem resolveCallee (className : Option String) (method : String) :
    Safe (Lower.resolveCallee className method) := by
  refine .bind .get fun s => ?_
  cases className with
  | none => exact .bind (.lift (.findFunction _ _)) fun _ => .pure _
  | some className => exact .bind (.lift (.findMethod _ _)) fun _ => .pure _

theorem checkArity (callee : Callee) (arguments : Nat) :
    Safe (Lower.checkArity callee arguments) := by
  unfold Lower.checkArity
  split
  · exact .throw (.defect rfl)
  · exact .pure _

/-- The stacks of the scopes can be popped, as they are pushed. -/
theorem unwindTo (depth : Nat) : Safe (Lower.unwindTo depth) :=
  .bind .get fun s => .emit (.straight (straight_pendingPops s depth))

end Lower.Safe

/-! ## Scopes and frames that are closed -/

namespace Lower

variable {α : Type} {s t : UnitState} {held : List Nat}

/-- A row of steps is its first one and then the others. -/
theorem run_forM_cons {γ : Type} (f : γ → Lower PUnit) (x : γ) (l : List γ) (s : UnitState) :
    run ((x :: l).forM f) s = run (f x >>= fun _ => l.forM f) s := rfl

/-- Stacks that are pushed are popped one after the other. -/
theorem run_exits {exits : List RecursiveVar} (pushed : ∀ v ∈ exits, v.openCount ≠ 0)
    (s : UnitState) :
    run (exits.forM fun var => do
      let (pops, _) ← (var.exit none : Except LowerError _)
      emit pops) s =
        some (.ok (), s.withList (s.list.extend (exits.flatMap fun v => v.popActions none))) := by
  induction exits generalizing s with
  | nil => rfl
  | cons v rest ih =>
    -- what is open can be closed
    have pop : ∃ w, v.exit none = .ok (v.popActions none, w) := by
      unfold RecursiveVar.exit
      split
      · next e => exact absurd e (pushed v (List.mem_cons_self ..))
      · exact ⟨_, rfl⟩
    obtain ⟨w, pop⟩ := pop
    have step : run ((v :: rest).forM fun var => do
        let (pops, _) ← (var.exit none : Except LowerError _)
        emit pops) s = run (rest.forM fun var => do
          let (pops, _) ← (var.exit none : Except LowerError _)
          emit pops) (s.withList (s.list.extend (v.popActions none))) := by
      rw [run_forM_cons, run_bind, run_bind, run_lift, pop]
      rfl
    rw [step, ih fun w mem => pushed w (List.mem_cons_of_mem _ mem), List.flatMap_cons,
      ← extend_append]
    rfl

/-- Slots that are lent are given back without a failure. -/
theorem run_freeAll {owned : List (Pool × UInt32)} {σ : Session}
    (freed : owned.foldlM Session.free s.session = .ok σ) :
    run (owned.forM fun (pool, slot) => freeSlot pool slot) s =
      some (.ok (), { s with session := σ }) := by
  induction owned generalizing s with
  | nil =>
    cases freed
    rfl
  | cons o rest ih =>
    rw [List.foldlM_cons] at freed
    obtain ⟨τ, first, others⟩ := except_bind_ok.1 freed
    obtain ⟨p, released, e⟩ := except_bind_ok.1 first
    cases e
    have step : run ((o :: rest).forM fun (pool, slot) => freeSlot pool slot) s =
        run (rest.forM fun (pool, slot) => freeSlot pool slot)
          { s with session := s.session.setSlotPool p o.1 } := by
      rw [run_forM_cons, run_bind]
      simp only [freeSlot, run_bind, run_get, run_lift, released, run_set]
    rw [step]
    exact ih others

/-- A scope can be closed. -/
theorem run_closeScope {scope : Scope} {rest : List Scope} (intact : s.Intact held)
    (e : s.scopes = scope :: rest) :
    ∃ σ, run closeScope s = some (.ok (), { s with
        scopes := rest, list := s.list.extend (scopePops scope), session := σ }) ∧
      s.session.Grows σ ∧
      UnitState.Intact held
        { s with scopes := rest, list := s.list.extend (scopePops scope), session := σ } := by
  have lends := intact.lends
  rw [UnitState.owned, e, List.flatMap_cons] at lends
  obtain ⟨σ, freed, lends⟩ := lends.freeAll
  have grows := Session.Grows.freed freed
  refine ⟨σ, ?_, grows, ?_⟩
  · simp only [closeScope, run_bind, run_get, e, run_set]
    rw [run_exits (intact.exits scope (by rw [e]; exact List.mem_cons_self ..))]
    exact run_freeAll freed
  · have longer := intact.extend (contained_scopePops scope)
    exact ⟨longer.skips, longer.starts, longer.regions,
      fun scope' mem => intact.exits scope' (by rw [e]; exact List.mem_cons_of_mem _ mem), lends,
      by rw [grows.classes]; exact intact.built⟩

/-- A frame can be closed. -/
theorem run_closeFrame {frame : Frame} {frames : List Frame} (intact : s.Intact held)
    (e : s.frames = frame :: frames) :
    ∃ list, run closeFrame s = some (.ok (), s.left list) ∧ (s.left list).Intact held := by
  have run_all (positions : List Nat) (u : UnitState) (list : ActionList)
      (resolved : positions.foldlM ActionList.resolveHere u.list = .ok list) :
      run (positions.forM resolveHere) u = some (.ok (), u.withList list) := by
    induction positions generalizing u with
    | nil =>
      cases resolved
      rfl
    | cons p rest ih =>
      rw [List.foldlM_cons] at resolved
      obtain ⟨l, first, others⟩ := except_bind_ok.1 resolved
      rw [run_forM_cons, run_bind, run_resolveHere_ok.2 ⟨l, first, rfl⟩]
      exact ih (u.withList l) others
  -- The returns of the frame are no more among what waits, so somebody has to hold them.
  have outer : UnitState.Intact (frame.returns ++ held) { s with frames := frames } := by
    refine ⟨intact.skips.perm ?_, intact.starts, intact.regions, intact.exits, intact.lends,
      intact.built⟩
    rw [List.perm_iff_count]
    intro p
    simp only [UnitState.waiting, e, List.flatMap_cons, List.count_append]
    omega
  obtain ⟨list, resolved, intact'⟩ := outer.resolveAllHere
  refine ⟨list, ?_, ?_⟩
  · simp only [closeFrame, run_bind, run_get, e, run_set]
    rw [run_all _ _ list resolved]
    simp only [UnitState.withList, UnitState.left, e, List.tail_cons]
  · have same : s.left list = ({ s with frames := frames } : UnitState).withList list := by
      simp only [UnitState.withList, UnitState.left, e, List.tail_cons]
    rw [same]
    exact intact'

end Lower

namespace UnitState.Intact

variable {s : UnitState} {held : List Nat}

/-- A scope that is opened leaves a state intact. -/
theorem opened (h : s.Intact held) : s.opened.Intact held := by
  refine ⟨h.skips, h.starts, h.regions, fun scope mem => ?_, h.lends, h.built⟩
  rcases List.mem_cons.1 mem with rfl | mem
  · exact nofun
  · exact h.exits scope mem

/-- So does a frame that nothing returns to yet. -/
theorem entered (h : s.Intact held) {frame : Frame} (none : frame.returns = []) :
    (s.entered frame).Intact held := by
  refine ⟨?_, h.starts, h.regions, h.exits, h.lends, h.built⟩
  have : (s.entered frame).waiting = s.waiting := by
    simp only [UnitState.waiting, UnitState.entered, List.flatMap_cons, none, List.nil_append]
  rw [this]
  exact h.skips

end UnitState.Intact

theorem UnitState.Inside.opened {s : UnitState} (h : s.Inside) : s.opened.Inside :=
  ⟨List.cons_ne_nil _ _, h.frames⟩

namespace Lower

variable {α : Type} {s : UnitState} {held : List Nat}

/-- A step in a scope of its own, and what is known of its answer whatever the list grows to. -/
theorem meets_inScope {m : Lower α} {P : α → Nat → Prop}
    (grows : ∀ a n k, n ≤ k → P a n → P a k)
    (h : m.Meets s.opened fun a t => t.Intact held ∧ s.opened.Steady t ∧ P a t.list.length) :
    (inScope m).Meets s fun a t => t.Intact held ∧ s.Steady t ∧ P a t.list.length := by
  refine .bindRun (run_openScope s) (h.bind fun a t ⟨intact, steady, known⟩ => ?_)
  obtain ⟨scope, rest, e⟩ := steady.exists_scope (List.cons_ne_nil _ _)
  obtain ⟨σ, closed, more, intact'⟩ := run_closeScope intact e
  refine .bindRun closed (.pure ⟨intact', steady.pop e more, grows a _ _ ?_ known⟩)
  show t.list.length ≤ (t.list.extend _).length
  rw [ActionList.length_extend]
  omega

/-- The same where nothing is to be known of the answer. -/
theorem SafeAt.inScope {m : Lower α} (h : m.SafeAt held s.opened) : (inScope m).SafeAt held s :=
  (meets_inScope (P := fun _ _ => True) (fun _ _ _ _ _ => trivial)
    (h.mono fun _ _ h => ⟨h.1, h.2, trivial⟩)).mono fun _ _ h => ⟨h.1, h.2.1⟩

/-- A safe step in a scope of its own is safe. -/
theorem Safe.inScope {m : Lower α} (h : Safe m) : Safe (Lower.inScope m) :=
  fun held s intact inside => .inScope (h held s.opened intact.opened inside.opened)

theorem Safe.located {m : Lower α} (span : Span) (h : Safe m) : Safe (Lower.located span m) := by
  intro held s intact inside
  have inner := h held { s with span } (intact.congr rfl rfl rfl rfl rfl rfl)
    ⟨inside.scopes, inside.frames⟩
  refine ⟨fun a t run => ?_, fun e t run => ?_⟩ <;>
    obtain ⟨⟨r, u⟩, hrun, h⟩ := Option.bind_eq_some_iff.1 run
  · cases r with
    | error e => cases h
    | ok b =>
      cases h
      obtain ⟨intact', steady⟩ := inner.ok _ _ hrun
      exact ⟨intact'.congr rfl rfl rfl rfl rfl rfl, .span (.fromSpan steady) _⟩
  · cases r with
    | ok b => cases h
    | error e' =>
      cases h
      exact (inner.error _ _ hrun).withSpan span

end Lower

end SkipCode
