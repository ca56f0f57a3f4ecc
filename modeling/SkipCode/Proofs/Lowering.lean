import SkipCode.Proofs.Growth
import SkipCode.Proofs.Rules

/-!
# Steps of lowering that succeed

Each lemma `run_…_ok` reads the success of a step as what the step did. A step that opens and closes
nothing is *plain*: it adds actions to the list, and leaves the loops, the bodies and the regions
alone.
-/

namespace SkipCode

namespace Attempt

variable {σ α β : Type}

/-- A step that is composed of two succeeds exactly when both do, one behind the other. -/
theorem run_bind_ok {m : Attempt σ α} {f : α → Attempt σ β} {s t : σ} {b : β} :
    run (m >>= f) s = (.ok b, t) ↔ ∃ a u, run m s = (.ok a, u) ∧ run (f a) u = (.ok b, t) := by
  rw [run_bind]
  constructor
  · intro h
    split at h
    · next a u e => exact ⟨a, u, e, h⟩
    · cases h
  · rintro ⟨a, u, h, h'⟩
    rw [h]
    exact h'

@[simp] theorem run_get (s : σ) : run (get : Attempt σ σ) s = (.ok s, s) := rfl

@[simp] theorem run_set (s t : σ) : run (set t : Attempt σ PUnit) s = (.ok (), t) := rfl

/-- A change of the state gives nothing and always succeeds. -/
@[simp] theorem run_modify (f : σ → σ) (s : σ) :
    run (modify f : Attempt σ PUnit) s = (.ok (), f s) := rfl

/-- What is lifted leaves the state alone, also when it fails. -/
@[simp] theorem run_lift (x : Except LowerError α) (s : σ) :
    run (liftM x : Attempt σ α) s = (x, s) := by
  cases x <;> rfl

/-- A lifted result succeeds without a change of the state. -/
theorem run_lift_ok {x : Except LowerError α} {a : α} {s t : σ} :
    run (liftM x : Attempt σ α) s = (.ok a, t) ↔ x = .ok a ∧ s = t := by
  rw [run_lift, Prod.mk.injEq]

/-- A change that may fail leaves the state as it was when it does. -/
theorem run_modifyM (f : σ → Except LowerError σ) (s : σ) :
    run (modifyM f) s =
      match f s with
      | .ok t => (.ok (), t)
      | .error e => (.error e, s) := by
  show run (liftM (f s) >>= set) s = _
  rw [run_bind, run_lift]
  cases f s <;> rfl

end Attempt

namespace Lower

variable {α β : Type}

/-- As above for lowering, which may also be cut short by its bound. -/
theorem run_bind_ok {m : Lower α} {f : α → Lower β} {s t : UnitState} {b : β} :
    run (m >>= f) s = some (.ok b, t) ↔
      ∃ a u, run m s = some (.ok a, u) ∧ run (f a) u = some (.ok b, t) := by
  rw [run_bind]
  constructor
  · intro h
    split at h
    · cases h
    · next a u e => exact ⟨a, u, e, h⟩
    · cases h
  · rintro ⟨a, u, h, h'⟩
    rw [h]
    exact h'

/-- What is made of a result succeeds when the result is there. -/
theorem run_map_ok {m : Lower α} {f : α → β} {s t : UnitState} {b : β} :
    run (f <$> m) s = some (.ok b, t) ↔ ∃ a, run m s = some (.ok a, t) ∧ f a = b := by
  rw [← bind_pure_comp, run_bind_ok]
  simp

@[simp] theorem run_get (s : UnitState) : run (get : Lower UnitState) s = some (.ok s, s) := rfl

@[simp] theorem run_set (s t : UnitState) : run (set t : Lower PUnit) s = some (.ok (), t) := rfl

@[simp] theorem run_modify (f : UnitState → UnitState) (s : UnitState) :
    run (modify f : Lower PUnit) s = some (.ok (), f s) := rfl

/-- What is lifted from the parts of lowering neither looks at the state nor changes it. -/
@[simp] theorem run_lift (x : Except LowerError α) (s : UnitState) :
    run (liftM x : Lower α) s = some (x, s) := by
  cases x <;> rfl

/-- A lifted result succeeds without a change of the state. -/
theorem run_lift_ok {x : Except LowerError α} {a : α} {s t : UnitState} :
    run (liftM x : Lower α) s = some (.ok a, t) ↔ x = .ok a ∧ s = t := by
  rw [run_lift, Option.some.injEq, Prod.mk.injEq]

/-- The list is the only thing that changes. -/
@[simp] theorem run_modifyList (f : ActionList → ActionList) (s : UnitState) :
    run (modifyList f) s = some (.ok (), { s with list := f s.list }) := rfl

/-- What is emitted comes behind what is there. -/
@[simp] theorem run_emit (actions : List Action) (s : UnitState) :
    run (emit actions) s = some (.ok (), { s with list := s.list.extend actions }) := rfl

/-- The next position is the length of the list. -/
@[simp] theorem run_position (s : UnitState) : run position s = some (.ok s.list.length, s) := rfl

/-- A waiting skip takes the next position and gives it back. -/
@[simp] theorem run_pushSkip (s : UnitState) :
    run pushSkip s = some (.ok s.list.length, { s with list := s.list.pushSkip none }) := rfl

/-- A position is resolved in the list, and nothing else happens. -/
theorem run_resolveHere_ok {p : Nat} {s s' : UnitState} :
    run (resolveHere p) s = some (.ok (), s') ↔
      ∃ l, s.list.resolveHere p = .ok l ∧ s' = { s with list := l } := by
  simp only [resolveHere, run_bind_ok, run_get, run_lift, run_modifyList, Option.some.injEq,
    Prod.mk.injEq, Except.ok.injEq]
  constructor
  · rintro ⟨a, u, ⟨rfl, rfl⟩, l, u, ⟨h, rfl⟩, -, rfl⟩
    exact ⟨l, h, rfl⟩
  · rintro ⟨l, h, rfl⟩
    exact ⟨s, s, ⟨rfl, rfl⟩, l, s, ⟨h, rfl⟩, by simp⟩

/-! ## Plain steps -/

/-- Actions none of which waits for a count. -/
def Settled (actions : List Action) : Prop := ∀ a ∈ actions, a.isPending = false

theorem Settled.nil : Settled [] := fun a h => by cases h

theorem Settled.append {first second : List Action} (h₁ : Settled first) (h₂ : Settled second) :
    Settled (first ++ second) :=
  fun a h => (List.mem_append.1 h).elim (h₁ a) (h₂ a)

/-- Code that is put together of settled pieces is settled. -/
theorem Settled.flatMap {γ : Type} {f : γ → List Action} (h : ∀ x, Settled (f x)) (l : List γ) :
    Settled (l.flatMap f) := by
  intro a ha
  obtain ⟨x, -, hx⟩ := List.mem_flatMap.1 ha
  exact h x a hx

/-- A plain write has no skip in it. -/
theorem settled_set (v : IndexedVar) (value : Element) (actor : Option Element)
    (extra : List Element) : Settled (v.set value actor extra) := by
  unfold IndexedVar.set
  split <;>
  · intro a ha
    rw [List.mem_singleton.1 ha]
    rfl

/-- What a variable of any kind writes has no skips in it. -/
theorem settled_variable {v : Variable} {name : String} {value : Element}
    {actor : Option Element} {extra : List Element} {actions : List Action}
    (h : v.setFor name value actor extra = .ok actions) : Settled actions := by
  cases v with
  | indexed v =>
    cases h
    exact settled_set _ _ _ _
  | recursive v =>
    cases h
    exact settled_set _ _ _ _
  | reference e => cases h

/-- Pushing on a stack takes no skips. -/
theorem settled_push (v : RecursiveVar) (initial : Element) (actor : Option Element) :
    Settled (v.pushActions initial actor) := settled_set _ _ _ _

/-- Nor does popping. -/
theorem settled_pop (v : RecursiveVar) (actor : Option Element) : Settled (v.popActions actor) :=
  settled_set _ _ _ _

/-- What a plain step leaves alone, and that it adds actions to the list. -/
structure Extends (s : UnitState) (actions : List Action) (s' : UnitState) : Prop where
  list : s'.list.toList = s.list.toList ++ actions
  settled : Settled actions
  loops : s'.loops = s.loops
  frames : s'.frames = s.frames
  regions : s'.regions = s.regions
  scopes : ScopesGrow s.scopes s'.scopes
  grows : s.Grows s'

namespace Extends

variable {s s' s'' : UnitState} {actions first second : List Action}

theorem refl (s : UnitState) : Extends s [] s :=
  ⟨by simp, .nil, rfl, rfl, rfl, .refl _, .refl s⟩

/-- Two extensions one behind the other are one. -/
theorem trans (h₁ : Extends s first s') (h₂ : Extends s' second s'') :
    Extends s (first ++ second) s'' :=
  ⟨by rw [h₂.list, h₁.list, List.append_assoc], h₁.settled.append h₂.settled,
    h₂.loops.trans h₁.loops,
    h₂.frames.trans h₁.frames, h₂.regions.trans h₁.regions, h₁.scopes.trans h₂.scopes,
    h₁.grows.trans h₂.grows⟩

/-- What is clean behind an extension was clean before it. -/
theorem deferred (h : Extends s actions s') : s'.deferred = [] → s.deferred = [] :=
  h.grows.deferred

/-- An extension keeps what is open, with its positions. -/
theorem steady (h : Extends s actions s') : s.Steady s' := by
  refine ⟨h.grows, h.scopes, ?_, ?_, ?_⟩
  · rw [h.loops]
    exact List.forall₂_refl _
  · rw [h.frames]
    exact List.forall₂_refl _
  · rw [h.regions]
    exact List.forall₂_refl _

/-- Only the list is changed. -/
theorem withList {list : ActionList} (e : list.toList = s.list.toList ++ actions)
    (settled : Settled actions) : Extends s actions { s with list } :=
  ⟨e, settled, rfl, rfl, rfl, .refl _, .withList s list⟩

end Extends

/-- A step that extends the list whenever it succeeds, and does nothing else of account. -/
def Plain (m : Lower α) : Prop :=
  ∀ s a s', run m s = some (.ok a, s') → ∃ actions, Extends s actions s'

namespace Plain

/-- A value that is given back writes nothing. -/
theorem pure (a : α) : Plain (Pure.pure a : Lower α) := by
  intro s b s' h
  cases h
  exact ⟨[], .refl s⟩

/-- A step that fails is plain, as there is no state behind it. -/
theorem throw (e : LowerError) : Plain (MonadExcept.throw e : Lower α) := by
  intro s b s' h
  cases h

theorem get : Plain (MonadState.get : Lower UnitState) := by
  intro s b s' h
  cases h
  exact ⟨[], .refl s⟩

theorem lift (x : Except LowerError α) : Plain (liftM x : Lower α) := by
  intro s a s' h
  rw [run_lift] at h
  cases h
  exact ⟨[], .refl s⟩

/-- Plain steps one behind the other write what both write. -/
theorem bind {m : Lower α} {f : α → Lower β} (hm : Plain m) (hf : ∀ a, Plain (f a)) :
    Plain (m >>= f) := by
  intro s b s' h
  obtain ⟨a, u, h₁, h₂⟩ := run_bind_ok.1 h
  obtain ⟨first, e₁⟩ := hm s a u h₁
  obtain ⟨second, e₂⟩ := hf a u b s' h₂
  exact ⟨first ++ second, e₁.trans e₂⟩

/-- Settled code may be emitted. -/
theorem emit {actions : List Action} (settled : Settled actions) :
    Plain (Lower.emit actions) := by
  intro s a s' h
  cases h
  exact ⟨actions, .withList (by simp) settled⟩

/-- A change of the state that is about none of the things a plain step leaves alone. -/
theorem change {f : UnitState → UnitState} (h : ∀ s, ∃ actions, Extends s actions (f s)) :
    Plain (modify f : Lower PUnit) := by
  intro s a s' e
  cases e
  exact h s

end Plain

/-! ## Scopes and declarations -/

/-- The innermost scope is changed, if there is one. -/
theorem run_modifyScope_ok {f : Scope → Scope} {s s' : UnitState} :
    run (modifyScope f) s = some (.ok (), s') ↔
      ∃ scope rest, s.scopes = scope :: rest ∧ s' = { s with scopes := f scope :: rest } := by
  simp only [modifyScope, run_bind_ok, run_get, Option.some.injEq, Prod.mk.injEq, Except.ok.injEq]
  constructor
  · rintro ⟨a, u, ⟨rfl, rfl⟩, h⟩
    split at h
    · next scope rest e =>
      cases h
      exact ⟨scope, rest, e, rfl⟩
    · cases h
  · rintro ⟨scope, rest, e, rfl⟩
    refine ⟨s, s, ⟨rfl, rfl⟩, ?_⟩
    rw [e]
    rfl

/-- A scope that only gets more is a plain change. -/
theorem Plain.modifyScope {f : Scope → Scope} (grows : ∀ scope : Scope, scope.Grows (f scope)) :
    Plain (Lower.modifyScope f) := by
  intro s a s' h
  obtain ⟨scope, rest, e, rfl⟩ := run_modifyScope_ok.1 h
  refine ⟨[], by simp, .nil, rfl, rfl, rfl, ?_, .withScopes s _⟩
  rw [e]
  exact .cons (grows scope)

/-- A new scope is empty and lies on top. -/
@[simp] theorem run_openScope (s : UnitState) :
    run openScope s = some (.ok (), { s with scopes := .empty :: s.scopes }) := rfl

/-- A name is bound in the innermost scope. -/
theorem Plain.bindName (name : String) (v : Variable) : Plain (Lower.bind name v) :=
  Plain.modifyScope fun _ => ⟨List.suffix_cons _ _, List.suffix_refl _, List.suffix_refl _⟩

end Lower

/-- A slot is given back to its pool. -/
def Session.free (s : Session) (owned : Pool × UInt32) : Except LowerError Session := do
  return s.setSlotPool (← (s.slotPool owned.1).release owned.2) owned.1

namespace Lower

/-- A slot that is given back goes to its pool, in the session. -/
theorem run_freeSlot_ok {pool : Pool} {slot : UInt32} {s s' : UnitState}
    (h : run (freeSlot pool slot) s = some (.ok (), s')) :
    ∃ σ, s.session.free (pool, slot) = .ok σ ∧ s' = { s with session := σ } := by
  simp only [freeSlot, run_bind_ok, run_get, run_lift, run_set, Option.some.injEq,
    Prod.mk.injEq] at h
  obtain ⟨_, _, ⟨⟨⟩, rfl⟩, p, _, ⟨h, rfl⟩, -, rfl⟩ := h
  exact ⟨_, by rw [Session.free, h]; rfl, rfl⟩

/-- So do all the slots that a scope owns, in order. -/
theorem run_freeAll_ok {owned : List (Pool × UInt32)} {s s' : UnitState}
    (h : run (owned.forM fun (pool, slot) => freeSlot pool slot) s = some (.ok (), s')) :
    ∃ σ, owned.foldlM Session.free s.session = .ok σ ∧ s' = { s with session := σ } := by
  induction owned generalizing s with
  | nil =>
    cases h
    exact ⟨_, rfl, rfl⟩
  | cons p rest ih =>
    have h : run (freeSlot p.1 p.2 >>= fun _ => rest.forM fun (pool, slot) =>
      freeSlot pool slot) s =
        some (.ok (), s') := h
    obtain ⟨_, u, h₁, h₂⟩ := run_bind_ok.1 h
    obtain ⟨σ, e, rfl⟩ := run_freeSlot_ok h₁
    obtain ⟨σ', e', rfl⟩ := ih h₂
    rw [List.foldlM_cons]
    exact ⟨σ', by rw [e]; exact e', rfl⟩

/-- The pops that close a scope. -/
def scopePops (scope : Scope) : List Action := scope.exits.flatMap fun v => v.popActions none

/-- The stacks of a scope are popped, and nothing else happens. -/
theorem run_exits_ok {exits : List RecursiveVar} {s s' : UnitState}
    (h : run (exits.forM fun var => do
      let (pops, _) ← (var.exit none : Except LowerError _)
      emit pops) s = some (.ok (), s')) :
    s' = { s with list := s.list.extend (exits.flatMap fun v => v.popActions none) } := by
  induction exits generalizing s with
  | nil =>
    cases h
    rfl
  | cons v rest ih =>
    have h : run ((do
        let (pops, _) ← (v.exit none : Except LowerError _)
        emit pops) >>= fun _ => rest.forM fun var => do
          let (pops, _) ← (var.exit none : Except LowerError _)
          emit pops) s = some (.ok (), s') := h
    obtain ⟨_, u, h₁, h₂⟩ := run_bind_ok.1 h
    simp only [run_bind_ok, run_lift, run_emit, Option.some.injEq, Prod.mk.injEq] at h₁
    obtain ⟨⟨pops, v'⟩, _, ⟨e, rfl⟩, -, rfl⟩ := h₁
    -- an exit that succeeds was of an open stack
    have hp : pops = v.popActions none := by
      unfold RecursiveVar.exit at e
      split at e
      · cases e
      · cases e
        rfl
    rw [ih h₂, hp]
    congr 1
    exact ActionList.ext_toList (by simp)

/-- A scope that is closed gives back its slots, pops its stacks and is gone. -/
theorem run_closeScope_ok {s s' : UnitState} (h : run closeScope s = some (.ok (), s')) :
    ∃ scope rest σ, s.scopes = scope :: rest ∧
      scope.owned.foldlM Session.free s.session = .ok σ ∧
      s' = { s with scopes := rest, list := s.list.extend (scopePops scope), session := σ } := by
  simp only [closeScope, run_bind_ok, run_get, Option.some.injEq, Prod.mk.injEq] at h
  obtain ⟨_, _, ⟨⟨⟩, rfl⟩, h⟩ := h
  split at h
  · cases h
  · next scope rest e =>
    simp only [run_bind_ok, run_set, Option.some.injEq, Prod.mk.injEq] at h
    obtain ⟨_, _, ⟨-, rfl⟩, _, u, h₁, h₂⟩ := h
    have := run_exits_ok h₁
    subst this
    obtain ⟨σ, hσ, rfl⟩ := run_freeAll_ok h₂
    exact ⟨scope, rest, σ, e, hσ, rfl⟩

/-- On the way out of a body the stacks above the place are popped, and stay declared. -/
theorem run_unwindTo (depth : Nat) (s : UnitState) :
    run (unwindTo depth) s =
      some (.ok (), { s with list := s.list.extend (pendingPops s depth) }) := rfl

/-- Looking a name up changes nothing. -/
theorem run_lookup_ok {name : String} {s s' : UnitState} {v : Variable}
    (h : run (lookup name) s = some (.ok v, s')) : s' = s := by
  simp only [lookup, run_bind_ok, run_get, Option.some.injEq, Prod.mk.injEq] at h
  obtain ⟨_, _, ⟨⟨⟩, rfl⟩, h⟩ := h
  split at h
  · cases h
    rfl
  · cases h

/-- A made-up name counts up. -/
theorem run_hiddenName (what : String) (s : UnitState) :
    run (hiddenName what) s =
      some (.ok s!"__{what}{s.hidden + 1}", { s with hidden := s.hidden + 1 }) := rfl

/-- A slot comes from the pool of the unit and belongs to the innermost scope; or there is none
left, which is noted. -/
theorem run_allocate_ok {owner : String} {s s' : UnitState} {slot : UInt32}
    (h : run (allocate owner) s = some (.ok slot, s')) :
    (∃ p scope rest, (s.session.slotPool s.pool).allocate owner = .ok (slot, p) ∧
        s.scopes = scope :: rest ∧
        s' = { s with
          session := s.session.setSlotPool p s.pool
          scopes := { scope with owned := (s.pool, slot) :: scope.owned } :: rest }) ∨
      ∃ e, s' = { s with deferred := e :: s.deferred } := by
  simp only [allocate, run_bind_ok, run_get, Option.some.injEq, Prod.mk.injEq] at h
  obtain ⟨_, _, ⟨⟨⟩, rfl⟩, h⟩ := h
  split at h
  · next slot' p e =>
    simp only [run_bind_ok, run_set, Option.some.injEq, Prod.mk.injEq] at h
    obtain ⟨_, _, ⟨-, rfl⟩, _, u, hm, h⟩ := h
    obtain ⟨scope, rest, hs, rfl⟩ := run_modifyScope_ok.1 hm
    cases h
    exact Or.inl ⟨p, scope, rest, e, hs, rfl⟩
  · next e _ =>
    simp only [run_bind_ok, run_set, Option.some.injEq, Prod.mk.injEq] at h
    obtain ⟨_, _, ⟨-, rfl⟩, h⟩ := h
    cases h
    -- the slot is the placeholder then, and lowering goes on
    exact Or.inr ⟨_, rfl⟩

/-- The symbol that a declaration is noted by. -/
def symbolOf (s : UnitState) (name : String) (slot : UInt32) (stacked : Bool) : Symbol :=
  ⟨name, s.pool, slot, stacked, s.scopes.length, s.frames.length,
    s.regions.getLast?.map (·.bodyStart)⟩

/-- A slot that was taken and noted, and what it adds to the innermost scope. -/
structure Takes (s : UnitState) (name : String) (stacked : Bool) (slot : UInt32)
    (bindings : List (String × Variable)) (exits : List RecursiveVar) (actions : List Action)
    (hidden : Nat) (s' : UnitState) : Prop where
  taken : ∃ p scope rest, (s.session.slotPool s.pool).allocate name = .ok (slot, p) ∧
    s.scopes = scope :: rest ∧
    s' = { s with
      session := s.session.setSlotPool p s.pool
      scopes := ⟨bindings ++ scope.bindings, exits ++ scope.exits,
        (s.pool, slot) :: scope.owned⟩ :: rest
      symbols := symbolOf s name slot stacked :: s.symbols
      list := s.list.extend actions
      hidden := hidden }

/-- What a slot is taken for extends the list by that. -/
theorem Takes.extends {s s' : UnitState} {name : String} {stacked : Bool} {slot : UInt32}
    {bindings : List (String × Variable)} {exits : List RecursiveVar} {actions : List Action}
    {hidden' : Nat} (h : Takes s name stacked slot bindings exits actions hidden' s')
    (settled : Settled actions) (hidden : s.hidden ≤ hidden') : Extends s actions s' := by
  obtain ⟨p, scope, rest, -, e, rfl⟩ := h.taken
  refine ⟨by simp, settled, rfl, rfl, rfl, ?_, ?_⟩
  · rw [e]
    exact .cons ⟨List.suffix_append _ _, List.suffix_append _ _, List.suffix_cons _ _⟩
  · exact ⟨rfl, rfl, .setSlotPool _ _ _, List.suffix_cons _ _, hidden, id⟩

/-- A temporary has a slot of its own, which is noted, and no name in scope. -/
theorem run_temp_ok {what : String} {s s' : UnitState} {v : IndexedVar}
    (h : run (temp what) s = some (.ok v, s')) (clean : s'.deferred = []) :
    ∃ slot, v = .plain s!"__{what}{s.hidden + 1}" s.pool slot ∧
      Takes s s!"__{what}{s.hidden + 1}" false slot [] [] [] (s.hidden + 1) s' := by
  simp only [temp, run_bind_ok, run_hiddenName, Option.some.injEq, Prod.mk.injEq,
    Except.ok.injEq, addSymbol, run_modify, run_get, run_pure] at h
  obtain ⟨name, _, ⟨rfl, rfl⟩, slot, u, h, _, _, ⟨-, rfl⟩, _, _, ⟨rfl, rfl⟩, rfl, rfl⟩ := h
  rcases run_allocate_ok h with ⟨p, scope, rest, hp, hs, rfl⟩ | ⟨e, rfl⟩
  · have hs : s.scopes = scope :: rest := hs
    refine ⟨slot, rfl, ⟨p, scope, rest, hp, hs, ?_⟩⟩
    rw [symbolOf, hs]
    rfl
  · cases clean

/-- Extending twice is extending by both. -/
theorem extend_append (l : ActionList) (first second : List Action) :
    (l.extend first).extend second = l.extend (first ++ second) :=
  ActionList.ext_toList (by simp)

/-- A declared stack has a slot of its own, is noted, is bound, and is popped at the end of the
scope. -/
theorem run_declareStack_ok {name : String} {initial : Option Element} {s s' : UnitState}
    {v : RecursiveVar} (h : run (declareStack name initial) s = some (.ok v, s'))
    (clean : s'.deferred = []) :
    ∃ slot, v = ⟨.plain name s.pool slot, 1⟩ ∧
      Takes s name true slot [(name, .recursive v)] [v]
        ((RecursiveVar.new name s.pool slot).pushActions (initial.getD .neutral) none) s.hidden
          s' := by
  simp only [declareStack, run_bind_ok, run_get, Option.some.injEq, Prod.mk.injEq,
    Except.ok.injEq, addSymbol, run_modify, run_emit, run_pure, Lower.bind] at h
  obtain ⟨slot, u, ha, _, _, ⟨-, rfl⟩, _, _, ⟨rfl, rfl⟩, _, _, ⟨-, rfl⟩, _, u', h₁, _, u'', h₂,
    rfl, rfl⟩ := h
  obtain ⟨scope, rest, hs, rfl⟩ := run_modifyScope_ok.1 h₁
  obtain ⟨scope', rest', hs', rfl⟩ := run_modifyScope_ok.1 h₂
  cases hs'
  rcases run_allocate_ok ha with ⟨p, scope₀, rest₀, hp, hs₀, rfl⟩ | ⟨e, rfl⟩
  · cases hs
    refine ⟨slot, rfl, ⟨p, scope₀, _, hp, hs₀, ?_⟩⟩
    rw [symbolOf, hs₀]
    rfl
  · cases clean

/-- A declared variable has a slot of its own, is noted and is bound. -/
theorem run_declarePlain_ok {name : String} {initial : Option Element} {s s' : UnitState}
    {v : IndexedVar} (h : run (declarePlain name initial) s = some (.ok v, s'))
    (clean : s'.deferred = []) :
    ∃ slot, v = .plain name s.pool slot ∧
      Takes s name false slot [(name, .indexed v)] []
        (initial.toList.flatMap fun value => v.set value none []) s.hidden s' := by
  -- the two forms differ in the write of the initial value only
  have he : ∃ u u', run (allocate name) s = some (.ok v.slot, u) ∧
      v = .plain name u.pool v.slot ∧
      u' = { u with
        symbols := symbolOf u name v.slot false :: u.symbols
        list := u.list.extend (initial.toList.flatMap fun value => v.set value none []) } ∧
      run (Lower.bind name (.indexed v)) u' = some (.ok (), s') := by
    cases initial <;>
    · simp only [declarePlain, run_bind_ok, run_get, Option.some.injEq, Prod.mk.injEq,
        Except.ok.injEq, addSymbol, run_modify, run_pure, run_emit] at h
      first
      | obtain ⟨slot, u, ha, _, _, ⟨-, rfl⟩, _, _, ⟨rfl, rfl⟩, _, _, h₁, rfl, rfl⟩ := h
        exact ⟨u, _, ha, rfl, rfl, h₁⟩
      | obtain ⟨slot, u, ha, _, _, ⟨-, rfl⟩, _, _, ⟨rfl, rfl⟩, _, _, ⟨-, rfl⟩, _, _, h₁, rfl,
          rfl⟩ := h
        exact ⟨u, _, ha, rfl, rfl, h₁⟩
  obtain ⟨u, u', ha, hv, rfl, h₁⟩ := he
  obtain ⟨scope', rest', hs', rfl⟩ := run_modifyScope_ok.1 h₁
  rcases run_allocate_ok ha with ⟨p, scope₀, rest₀, hp, hs₀, rfl⟩ | ⟨e, rfl⟩
  · cases hs'
    refine ⟨v.slot, hv, ⟨p, scope₀, _, hp, hs₀, ?_⟩⟩
    rw [symbolOf, symbolOf, hs₀]
    rfl
  · cases clean

/-- A declaration takes one slot, as a stack where the frame is recursive or the declaration says
so. -/
theorem run_declare_ok {name : String} {initial : Option Element} {stacked : Bool}
    {s s' : UnitState} {v : Variable}
    (h : run (declare name initial stacked) s = some (.ok v, s')) :
    ((stacked || s.inRecursiveFrame) = true ∧
        ∃ w, v = .recursive w ∧ run (declareStack name initial) s = some (.ok w, s')) ∨
      ((stacked || s.inRecursiveFrame) = false ∧
        ∃ w, v = .indexed w ∧ run (declarePlain name initial) s = some (.ok w, s')) := by
  obtain ⟨_, _, ⟨⟩, h⟩ := run_bind_ok.1 h
  cases hb : stacked || s.inRecursiveFrame with
  | true =>
    rw [if_pos hb] at h
    obtain ⟨w, u, hw, h⟩ := run_bind_ok.1 h
    cases h
    exact Or.inl ⟨rfl, w, rfl, hw⟩
  | false =>
    rw [if_neg (by simp [hb])] at h
    obtain ⟨w, u, hw, h⟩ := run_bind_ok.1 h
    cases h
    exact Or.inr ⟨rfl, w, rfl, hw⟩

namespace Plain

/-- A slot that is asked for may be refused, which is noted and changes no code. -/
theorem allocate (owner : String) : Plain (Lower.allocate owner) := by
  intro s a s' h
  rcases run_allocate_ok h with ⟨p, scope, rest, -, hs, rfl⟩ | ⟨e, rfl⟩
  · refine ⟨[], by simp, .nil, rfl, rfl, rfl, ?_, ?_⟩
    · rw [hs]
      exact .cons ⟨List.suffix_refl _, List.suffix_refl _, List.suffix_cons _ _⟩
    · exact ⟨rfl, rfl, .setSlotPool _ _ _, List.suffix_refl _, Nat.le_refl _, id⟩
  · exact ⟨[], by simp, .nil, rfl, rfl, rfl, .refl _, rfl, rfl, .refl _, List.suffix_refl _,
      Nat.le_refl _, fun e => by cases e⟩

/-- What a slot is for is noted. -/
theorem addSymbol (name : String) (slot : UInt32) (stacked : Bool) :
    Plain (Lower.addSymbol name slot stacked) :=
  .change fun s => ⟨[], by simp, .nil, rfl, rfl, rfl, .refl _, rfl, rfl, .refl _,
    List.suffix_cons _ _, Nat.le_refl _, id⟩

theorem hiddenName (what : String) : Plain (Lower.hiddenName what) := by
  intro s a s' h
  rw [run_hiddenName] at h
  cases h
  exact ⟨[], by simp, .nil, rfl, rfl, rfl, .refl _, rfl, rfl, .refl _, List.suffix_refl _,
    Nat.le_succ _, id⟩

/-- A temporary is plain. -/
theorem temp (what : String) : Plain (Lower.temp what) :=
  .bind (.hiddenName what) fun name => .bind (.allocate name) fun slot =>
    .bind (.addSymbol name slot false) fun _ => .bind .get fun _ => .pure _

/-- A stack that is declared pushes its first value, and that is all it writes. -/
theorem declareStack (name : String) (initial : Option Element) :
    Plain (Lower.declareStack name initial) :=
  .bind (.allocate name) fun slot => .bind (.addSymbol name slot true) fun _ =>
    .bind .get fun _ => .bind (.emit (settled_push _ _ _)) fun _ => .bind (.modifyScope fun _ =>
      ⟨List.suffix_refl _, List.suffix_cons _ _, List.suffix_refl _⟩) fun _ =>
        .bind (.bindName name _) fun _ => .pure _

/-- A variable that is declared writes its first value, if there is one. -/
theorem declarePlain (name : String) (initial : Option Element) :
    Plain (Lower.declarePlain name initial) := by
  refine .bind (.allocate name) fun slot => .bind (.addSymbol name slot false) fun _ =>
    .bind .get fun _ => ?_
  cases initial with
  | none => exact .bind (.bindName name _) fun _ => .pure _
  | some value =>
    exact .bind (.emit (settled_set _ _ _ _)) fun _ => .bind (.bindName name _) fun _ => .pure _

/-- With these rules all that declares is plain. -/
theorem rules : DeclareRules Plain :=
  ⟨⟨pure, bind⟩, get, hiddenName, temp, fun name e => bindName name (.reference e), declareStack,
    declarePlain⟩

end Plain

end Lower

/-! ## Storage of instances -/

namespace ClassStorage

variable {α β : Type}

/-- A step on the storage that adds actions to the list whenever it succeeds. -/
def Adds (m : Step α) : Prop :=
  ∀ s a s', Attempt.run m s = (.ok a, s') →
    s.data.Grows s'.data ∧
      ∃ actions, s'.list.toList = s.list.toList ++ actions ∧ Lower.Settled actions

/-- A step on the storage that has nothing to do with the list. -/
def Keeps (m : Step α) : Prop :=
  ∀ s a s', Attempt.run m s = (.ok a, s') → s.data.Grows s'.data ∧ s'.list = s.list

/-- The table of handles is there behind the step that looks for it. -/
theorem run_handleTable_ok {s t : ClassStorage} {table : IndexedVar}
    (h : Attempt.run handleTable s = (.ok table, t)) : t.data.table = some table := by
  obtain ⟨_, _, ⟨⟩, h₁⟩ := Attempt.run_bind_ok.1 h
  split at h₁
  · next e =>
    cases h₁
    exact e
  · obtain ⟨table', u, -, h₂⟩ := Attempt.run_bind_ok.1 h₁
    cases h₂
    rfl

namespace Keeps

theorem pure (a : α) : Keeps (Pure.pure a : Step α) := by
  intro s b s' h
  cases h
  exact ⟨.refl _, rfl⟩

theorem throw (e : LowerError) : Keeps (MonadExcept.throw e : Step α) := by
  intro s b s' h
  cases h

theorem get : Keeps (MonadState.get : Step ClassStorage) := by
  intro s b s' h
  cases h
  exact ⟨.refl _, rfl⟩

/-- Steps that keep the list do so together. -/
theorem bind {m : Step α} {f : α → Step β} (hm : Keeps m) (hf : ∀ a, Keeps (f a)) :
    Keeps (m >>= f) := by
  intro s b s' h
  obtain ⟨a, u, h₁, h₂⟩ := Attempt.run_bind_ok.1 h
  obtain ⟨g₁, e₁⟩ := hm s a u h₁
  obtain ⟨g₂, e₂⟩ := hf a u b s' h₂
  exact ⟨g₁.trans g₂, e₂.trans e₁⟩

/-- With these rules steps are put together of steps that keep the list. -/
theorem composes : Composes Step Keeps := ⟨pure, bind⟩

/-- A slot for the storage comes out of the global pool. -/
theorem allocate (owner : String) : Keeps (ClassStorage.allocate owner) := by
  intro s a s' h
  simp only [ClassStorage.allocate, Attempt.run_bind_ok, Attempt.run_get, Attempt.run_lift,
    Attempt.run_set, Attempt.run_pure, Prod.mk.injEq] at h
  obtain ⟨_, _, ⟨⟨⟩, rfl⟩, p, _, ⟨-, rfl⟩, _, _, ⟨-, rfl⟩, -, rfl⟩ := h
  exact ⟨.refl _, rfl⟩

/-- The data may only grow. -/
theorem modifyData {f : ClassData → ClassData} (grows : ∀ d : ClassData, d.Grows (f d)) :
    Keeps (ClassStorage.modifyData f) := by
  intro s a s' h
  cases h
  exact ⟨grows _, rfl⟩

/-- The table of handles is made at most once. -/
theorem handleTable : Keeps handleTable := by
  intro s a s' h
  obtain ⟨_, _, ⟨⟩, h⟩ := Attempt.run_bind_ok.1 h
  split at h
  · exact pure _ _ _ _ h
  · next empty =>
    obtain ⟨table, u, h₁, h₂⟩ := Attempt.run_bind_ok.1 h
    obtain ⟨-, same⟩ := allocate _ _ _ _ h₁
    have old : u.data = s.data := by
      simp only [ClassStorage.allocate, Attempt.run_bind_ok, Attempt.run_get, Attempt.run_lift,
        Attempt.run_set, Attempt.run_pure, Prod.mk.injEq] at h₁
      obtain ⟨_, _, ⟨⟨⟩, rfl⟩, p, _, ⟨-, rfl⟩, _, _, ⟨-, rfl⟩, -, rfl⟩ := h₁
      rfl
    cases h₂
    refine ⟨?_, same⟩
    rw [← old]
    exact ⟨fun v e => (by rw [old, empty] at e; cases e), List.prefix_refl _, List.prefix_refl _⟩

/-- So is each stack of a field. -/
theorem fieldStack (index : Nat) : Keeps (fieldStack index) := by
  refine .bind .get fun s => ?_
  dsimp only
  have make : Keeps (do
      let stack ← ClassStorage.allocate s!"__field_stack_{index}"
      ClassStorage.modifyData fun d => { d with fieldStacks := d.fieldStacks ++ [stack] }
      return stack) :=
    .bind (.allocate _) fun stack => .bind (.modifyData fun _ =>
      ⟨fun _ h => h, List.prefix_append _ _, List.prefix_refl _⟩) fun _ => .pure _
  split
  · exact .pure _
  · split
    · exact .bind (.throw _) fun _ => make
    · exact make

/-- Before a class is used its stacks are made up to the last one. -/
theorem prepare (layout : ClassLayout) : Keeps (prepare layout) :=
  composes.forM fun index _ => .bind (.fieldStack index) fun _ => .pure _

/-- A static field has one slot in all units. -/
theorem staticField (className field : String) : Keeps (staticField className field) := by
  refine .bind .get fun s => ?_
  split
  · exact .pure _
  · exact .bind (.allocate _) fun var => .bind (.modifyData fun _ =>
      ⟨fun _ h => h, List.prefix_refl _, List.prefix_append _ _⟩) fun _ => .pure _

end Keeps

namespace Adds

/-- What keeps the list adds nothing to it. -/
theorem ofKeeps {m : Step α} (h : Keeps m) : Adds m :=
  fun s a s' e => ⟨(h s a s' e).1, [], by rw [(h s a s' e).2, List.append_nil], .nil⟩

theorem pure (a : α) : Adds (Pure.pure a : Step α) := ofKeeps (.pure a)

/-- What is added by two steps is added by both together. -/
theorem bind {m : Step α} {f : α → Step β} (hm : Adds m)
    (hf : ∀ s a s', Attempt.run m s = (.ok a, s') → Adds (f a)) : Adds (m >>= f) := by
  intro s b s' h
  obtain ⟨a, u, h₁, h₂⟩ := Attempt.run_bind_ok.1 h
  obtain ⟨g₁, first, e₁, settled₁⟩ := hm s a u h₁
  obtain ⟨g₂, second, e₂, settled₂⟩ := hf s a u h₁ u b s' h₂
  exact ⟨g₁.trans g₂, first ++ second, by rw [e₂, e₁, List.append_assoc],
    settled₁.append settled₂⟩

/-- A value that may be an error, and what it is when it is none. -/
theorem bindLift {x : Except LowerError α} {f : α → Step β} (hf : ∀ a, x = .ok a → Adds (f a)) :
    Adds (liftM x >>= f) := by
  intro s b s' h
  obtain ⟨a, u, h₁, h₂⟩ := Attempt.run_bind_ok.1 h
  rw [Attempt.run_lift] at h₁
  cases h₁
  exact hf a rfl s b s' h₂

/-- With these rules steps are put together of steps that add to the list. -/
theorem composes : Composes Step Adds := ⟨pure, fun hm hf => hm.bind fun _ a _ _ => hf a⟩

theorem emit {actions : List Action} (settled : Lower.Settled actions) :
    Adds (ClassStorage.emit actions) := by
  intro s a s' h
  cases h
  exact ⟨.refl _, actions, by simp, settled⟩

/-- Taking a handle writes settled code. -/
theorem acquireHandle (config : LowerConfig) (handle : Variable) :
    Adds (acquireHandle config handle) := by
  have skip (condition : Element) (count : Int32) :
      Lower.Settled [.skipIf condition (some count)] := by
    intro a ha
    rw [List.mem_singleton.1 ha]
    rfl
  have full (condition : Element) :
      Lower.Settled [.skipIf condition (some 1), .abort] := by
    have abort : Lower.Settled [.abort] := fun a ha => by
      rw [List.mem_singleton.1 ha]
      rfl
    exact (skip condition 1).append abort
  refine .bind (.ofKeeps .handleTable) fun _ table _ _ => .bindLift fun next hnext => ?_
  dsimp only
  have rest : Adds (do
      ClassStorage.emit next
      ClassStorage.emit [.skipIf (.compare handle.get .less (.ofNat config.classCapacity.toNat))
        (some 1), .abort]
      ClassStorage.emit ((← handleTable).set (.ofNat 1) none [handle.get])) :=
    .bind (.emit (Lower.settled_variable hnext)) fun _ _ _ _ =>
      .bind (.emit (full _)) fun _ _ _ _ =>
      .bind (.ofKeeps .handleTable) fun _ _ _ _ => .emit (Lower.settled_set _ _ _ _)
  split
  · exact .bindLift fun first hfirst => .bind (.emit (Lower.settled_variable hfirst))
      fun _ _ _ _ => .bind (.emit (skip _ _)) fun _ _ _ _ => rest
  · exact rest

/-- So does giving up an instance. -/
theorem release (classes : ClassTable) (className : String) (handle : Element) :
    Adds (release classes className handle) := by
  refine .bindLift fun layout _ => .bind (.ofKeeps (.prepare layout)) fun _ _ _ _ =>
    .bindLift fun fields _ => .bind (composes.forIn (fun field _ => ?_) _ _) fun _ _ _ _ =>
      .bind (.ofKeeps .handleTable) fun _ _ _ _ => .emit (Lower.settled_set _ _ _ _)
  exact .bind (.ofKeeps (.fieldStack _)) fun _ _ _ _ =>
    .bind (.emit (Lower.settled_set _ _ _ _)) fun _ _ _ _ => .pure _

end Adds

end ClassStorage

/-- The state behind a step on the storage of instances. -/
def UnitState.stored (s : UnitState) (storage : ClassStorage) : UnitState :=
  { s with
    session := { s.session with classData := storage.data, global := storage.pool }
    list := storage.list }

namespace Lower

variable {α : Type}

/-- A step on the storage sees the data, the global pool and the list, and the rest of the unit
stays. -/
theorem run_onStorage (m : ClassStorage.Step α) (s : UnitState) :
    run (onStorage m) s =
      some ((Attempt.run m ⟨s.session.classData, s.session.global, s.list⟩).1,
        s.stored (Attempt.run m ⟨s.session.classData, s.session.global, s.list⟩).2) := rfl

/-- It succeeds in the unit exactly when it does on these. -/
theorem run_onStorage_ok {m : ClassStorage.Step α} {s s' : UnitState} {a : α} :
    run (onStorage m) s = some (.ok a, s') ↔
      ∃ t, Attempt.run m ⟨s.session.classData, s.session.global, s.list⟩ = (.ok a, t) ∧
        s' = { s with
          session := { s.session with classData := t.data, global := t.pool }
          list := t.list } := by
  rw [run_onStorage]
  rcases Attempt.run m ⟨s.session.classData, s.session.global, s.list⟩ with ⟨r, t⟩
  simp only [Option.some.injEq, Prod.mk.injEq]
  constructor
  · rintro ⟨rfl, rfl⟩
    exact ⟨t, ⟨rfl, rfl⟩, rfl⟩
  · rintro ⟨t', ⟨rfl, rfl⟩, rfl⟩
    exact ⟨rfl, rfl⟩

/-- What a step on the storage adds is plain in the unit. -/
theorem Plain.onStorage {m : ClassStorage.Step α} (hm : ClassStorage.Adds m) :
    Plain (onStorage m) := by
  intro s a s' h
  obtain ⟨t, ht, rfl⟩ := run_onStorage_ok.1 h
  obtain ⟨grows, actions, e, settled⟩ := hm _ _ _ ht
  exact ⟨actions, e, settled, rfl, rfl, rfl, .refl _, rfl, rfl, ⟨rfl, rfl, rfl, grows⟩,
    List.suffix_refl _, Nat.le_refl _, id⟩

/-- What extends the list by nothing. -/
def Silent (m : Lower α) : Prop := ∀ s a s', run m s = some (.ok a, s') → Extends s [] s'

/-- Silent steps one behind the other are silent. -/
theorem Silent.bind {β : Type} {m : Lower α} {f : α → Lower β} (hm : Silent m)
    (hf : ∀ a, Silent (f a)) : Silent (m >>= f) := by
  intro s b s' h
  obtain ⟨a, u, h₁, h₂⟩ := run_bind_ok.1 h
  exact (hm s a u h₁).trans (hf a u b s' h₂)

theorem Silent.pure (a : α) : Silent (Pure.pure a : Lower α) := by
  intro s b s' h
  cases h
  exact .refl s

theorem Silent.get : Silent (MonadState.get : Lower UnitState) := by
  intro s b s' h
  cases h
  exact .refl s

theorem Silent.lift (x : Except LowerError α) : Silent (liftM x : Lower α) := by
  intro s a s' h
  rw [run_lift] at h
  cases h
  exact .refl s

/-- A step on the storage that keeps the list is silent in the unit. -/
theorem Silent.onStorage {m : ClassStorage.Step α} (hm : ClassStorage.Keeps m) :
    Silent (onStorage m) := by
  intro s a s' h
  obtain ⟨t, ht, rfl⟩ := run_onStorage_ok.1 h
  obtain ⟨grows, same⟩ := hm _ _ _ ht
  exact ⟨by rw [same, List.append_nil], .nil, rfl, rfl, rfl, .refl _, rfl, rfl,
    ⟨rfl, rfl, rfl, grows⟩, List.suffix_refl _, Nat.le_refl _, id⟩

/-- Finding the place of a field writes nothing. -/
theorem Silent.fieldVar (className field : String) (handle : Element) :
    Silent (fieldVar className field handle) :=
  .bind .get fun _ => .bind (.lift _) fun _ => .bind (.lift _) fun _ =>
    .bind (.onStorage (.prepare _)) fun _ => .bind (.onStorage (.fieldStack _)) fun _ => .pure _

/-- Nor does finding that of a static field. -/
theorem Silent.staticVar (className field : String) : Silent (staticVar className field) :=
  .bind .get fun _ => .bind (.lift _) fun _ => .onStorage (.staticField _ _)

theorem Silent.hiddenName (what : String) : Silent (Lower.hiddenName what) := by
  intro s a s' h
  rw [run_hiddenName] at h
  cases h
  exact ⟨by simp, .nil, rfl, rfl, rfl, .refl _, rfl, rfl, .refl _, List.suffix_refl _,
    Nat.le_succ _, id⟩

/-- A temporary takes a slot without writing anything. -/
theorem Silent.temp (what : String) : Silent (temp what) := by
  intro s v s' h
  simp only [Lower.temp, run_bind_ok, run_hiddenName, Option.some.injEq, Prod.mk.injEq,
    Except.ok.injEq, Lower.addSymbol, run_modify, run_get, run_pure] at h
  obtain ⟨name, _, ⟨rfl, rfl⟩, slot, u, h, _, _, ⟨-, rfl⟩, _, _, ⟨rfl, rfl⟩, rfl, rfl⟩ := h
  rcases run_allocate_ok h with ⟨p, scope, rest, hp, hs, rfl⟩ | ⟨e, rfl⟩
  · have hs : s.scopes = scope :: rest := hs
    refine ⟨by simp, .nil, rfl, rfl, rfl, ?_, ?_⟩
    · rw [hs]
      exact .cons ⟨List.suffix_refl _, List.suffix_refl _, List.suffix_cons _ _⟩
    · exact ⟨rfl, rfl, .setSlotPool _ _ _, List.suffix_cons _ _, Nat.le_succ _, id⟩
  · exact ⟨by simp, .nil, rfl, rfl, rfl, .refl _, rfl, rfl, .refl _, List.suffix_cons _ _,
      Nat.le_succ _, fun e => by cases e⟩

/-- A variable of other actors is one that the name means here, and is kept by actors. -/
theorem run_actorVar_ok {name : String} {s s' : UnitState} {v : Variable}
    (h : run (actorVar name) s = some (.ok v, s')) :
    s' = s ∧ run (lookup name) s = some (.ok v, s) ∧ v.pool? = some .actor := by
  obtain ⟨w, u, h₁, h₂⟩ := run_bind_ok.1 h
  obtain rfl := run_lookup_ok h₁
  split at h₂
  · next e =>
    cases h₂
    exact ⟨rfl, h₁, e⟩
  · cases h₂

/-- The region that is found by its key stands at its index. -/
theorem findRegion?_at {regions : List Region} {key : String} {index : Nat} {region : Region}
    (found : findRegion? regions key = some (index, region)) : regions[index]? = some region := by
  unfold findRegion? at found
  split at found
  · obtain ⟨region', found, e⟩ := Option.map_eq_some_iff.1 found
    cases e
    exact found
  · cases found

end Lower

end SkipCode
