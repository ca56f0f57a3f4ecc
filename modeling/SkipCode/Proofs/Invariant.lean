import SkipCode.Proofs.Composition

/-!
# Invariants of lowering

The steps of lowering that touch the session or the symbols are few: a slot is handed out and noted,
a slot is given back, and the storage of instances grows. What those keep and the rest of the state
has nothing to do with is an `Invariant`, and all that is composed of the steps of lowering
preserves it, whatever its outcome (`Lower.Composed.preserves`).
-/

namespace SkipCode

open Lower

/-- A step that keeps what is true of a unit, whatever its outcome. -/
def Lower.Preserves {α : Type} (P : UnitState → Prop) (m : Lower α) : Prop :=
  ∀ s r t, run m s = some (r, t) → P s → P t

/-- What stays true of a unit through the steps that deal with slots. -/
class Invariant (P : UnitState → Prop) : Prop where
  congr {s t : UnitState} : P s → t.session = s.session → t.symbols = s.symbols →
    t.deferred = s.deferred → P t
  /-- A slot is taken and noted. -/
  declared {α : Type} {name : String} {stacked : Bool} {f : UInt32 → Lower α} :
    (∀ slot, Preserves P (f slot)) →
      Preserves P (Lower.allocate name >>= fun slot =>
        Lower.addSymbol name slot stacked >>= fun _ =>
        f slot)
  freeSlot (pool : Pool) (slot : UInt32) : Preserves P (Lower.freeSlot pool slot)
  onStorage {α : Type} {m : ClassStorage.Step α} : ClassStorage.Orders m →
    Preserves P (Lower.onStorage m)

namespace Lower.Preserves

variable {P : UnitState → Prop} {α β γ : Type}

/-- A result alone keeps every invariant. -/
theorem pure (a : α) : Preserves P (Pure.pure a : Lower α) := by
  intro s r t h holds
  cases h
  exact holds

/-- So does looking at the state. -/
theorem get : Preserves P (MonadState.get : Lower UnitState) := by
  intro s r t h holds
  cases h
  exact holds

/-- So does a failure. -/
theorem lift (x : Except LowerError α) : Preserves P (liftM x : Lower α) := by
  intro s r t h holds
  rw [run_lift] at h
  cases h
  exact holds

/-- Steps that keep an invariant compose. -/
theorem bind {m : Lower α} {f : α → Lower β} (hm : Preserves P m) (hf : ∀ a, Preserves P (f a)) :
    Preserves P (m >>= f) := by
  intro s r t h holds
  obtain ⟨e, first, -⟩ | ⟨a, u, first, second⟩ := run_bind_cases h
  · exact hm s _ t first holds
  · exact hf a u r t second (hm s _ u first holds)

/-- So do whole lowerings. -/
theorem composes : Composes Lower (Preserves P) := ⟨pure, bind⟩

/-- A new state that is made of the one before. -/
theorem replace {f : UnitState → Lower PUnit}
    (h : ∀ s r t, run (f s) s = some (r, t) → P s → P t) :
    Preserves P (MonadState.get >>= f) := by
  intro s r t e holds
  rw [run_bind] at e
  exact h s r t e holds

/-- So does going through a list. -/
theorem forM {f : γ → Lower PUnit} (hf : ∀ a, Preserves P (f a)) (l : List γ) :
    Preserves P (l.forM f) :=
  composes.forM fun a _ => hf a

/-! ## The steps that lowering is composed of -/

variable [Invariant P]

/-- A step that has to do with no slot. -/
theorem aside {m : Lower α} (hm : Aside m) : Preserves P m := by
  intro s r t h holds
  have same := hm s r t h
  exact Invariant.congr holds same.session same.symbols same.deferred

/-- A change of what no slot has to do with. -/
theorem change {f : UnitState → UnitState} (session : ∀ s, (f s).session = s.session)
    (symbols : ∀ s, (f s).symbols = s.symbols) (deferred : ∀ s, (f s).deferred = s.deferred) :
    Preserves P (modify f : Lower PUnit) := by
  intro s r t h holds
  cases h
  exact Invariant.congr holds (session s) (symbols s) (deferred s)

/-- Writing actions keeps an invariant of the slots. -/
theorem emit (actions : List Action) : Preserves P (Lower.emit actions) :=
  change (fun _ => rfl) (fun _ => rfl) fun _ => rfl

/-- So does a span. -/
theorem located {m : Lower α} (span : Source.Span) (hm : Preserves P m) :
    Preserves P (Lower.located span m) := by
  intro s r t h holds
  obtain ⟨x, u, inside, -, rfl⟩ := run_located h
  exact Invariant.congr (hm _ _ _ inside (Invariant.congr holds rfl rfl rfl)) rfl rfl rfl

/-- So does a change of the scope. -/
theorem modifyScope (f : Scope → Scope) : Preserves P (Lower.modifyScope f) := by
  refine .replace fun s r t h holds => ?_
  split at h
  · cases h
    exact Invariant.congr holds rfl rfl rfl
  · cases h
    exact holds

/-- So does closing it. -/
theorem closeScope : Preserves P Lower.closeScope := by
  refine .replace fun s r t h holds => ?_
  split at h
  · cases h
    exact holds
  · next scope rest _ =>
    rw [run_bind, run_set] at h
    exact Preserves.bind (.forM (fun _ => .bind (.lift _) fun _ => .emit _) _)
      (fun _ => .forM (fun _ => Invariant.freeSlot _ _) _) _ r t h
        (Invariant.congr holds rfl rfl rfl)

/-- An invariant that allocation keeps is kept by every rule. -/
theorem rules : SlotRules (Preserves P) where
  slotless hm := aside hm.aside
  bind := bind
  located := located
  openScope := change (fun _ => rfl) (fun _ => rfl) fun _ => rfl
  closeScope := closeScope
  modifyScope _ := modifyScope _
  declared := Invariant.declared
  onStorage orders _ := Invariant.onStorage orders

end Lower.Preserves

/-- All of lowering preserves an invariant. -/
theorem Lower.Composed.preserves {α : Type} {P : UnitState → Prop} [Invariant P] {m : Lower α}
    (composed : Composed m) : Preserves P m := Preserves.rules.composed composed

/-! ## What a session was made of -/

/-- Handing out a slot changes its pool only. -/
theorem Lower.run_allocate {owner : String} {s t : UnitState} {r : Except LowerError UInt32}
    (h : run (Lower.allocate owner) s = some (r, t)) :
    t.symbols = s.symbols ∧ t.pool = s.pool ∧
      ((∃ slot p, (s.session.slotPool s.pool).allocate owner = .ok (slot, p) ∧
          t.session = s.session.setSlotPool p s.pool ∧ t.deferred = s.deferred ∧
          ∀ a, r = .ok a → a = slot) ∨
        ∃ e, (s.session.slotPool s.pool).allocate owner = .error e ∧ t.session = s.session ∧
          t.deferred = e.withSpan s.span :: s.deferred ∧ ∀ a, r = .ok a → a = placeholderSlot) := by
  rw [Lower.allocate, run_bind, run_get] at h
  dsimp only at h
  split at h
  · next slot p taken =>
    rw [run_bind, run_set] at h
    dsimp only at h
    rw [run_bind] at h
    -- the slot is taken also where there is no scope to note it in, though the step fails then
    cases hscopes : s.scopes with
    | nil =>
      simp only [modifyScope, run_bind, run_get, hscopes] at h
      cases h
      exact ⟨rfl, rfl, Or.inl ⟨slot, p, taken, rfl, rfl, fun a h => by cases h⟩⟩
    | cons scope rest =>
      simp only [modifyScope, run_bind, run_get, hscopes] at h
      cases h
      exact ⟨rfl, rfl, Or.inl ⟨slot, p, taken, rfl, rfl, fun a h => by cases h; rfl⟩⟩
  · next e failed =>
    rw [run_bind, run_set] at h
    cases h
    exact ⟨rfl, rfl, Or.inr ⟨e, failed, rfl, rfl, fun a h => by cases h; rfl⟩⟩

/-- Two sessions of one program. -/
structure Session.Akin (σ τ : Session) : Prop where
  config : τ.config = σ.config
  classes : τ.classes = σ.classes
  functions : τ.functions = σ.functions

/-- A session stays of its kind when a pool changes. -/
theorem Session.Akin.setSlotPool {σ τ : Session} (h : σ.Akin τ) (p : SlotPool) (pool : Pool) :
    σ.Akin (τ.setSlotPool p pool) := by
  cases pool <;> exact ⟨h.config, h.classes, h.functions⟩

/-- No step of lowering changes what the program declares. -/
instance (σ : Session) : Invariant fun s => σ.Akin s.session where
  congr akin session _ _ := session ▸ akin
  declared hf := by
    intro s r t h akin
    rw [run_bind] at h
    cases hrun : run (Lower.allocate _) s with
    | none =>
      rw [hrun] at h
      cases h
    | some q =>
      obtain ⟨x, u⟩ := q
      rw [hrun] at h
      -- the pool of the slot changes, or nothing does
      have kept : σ.Akin u.session := by
        obtain ⟨-, -, ⟨slot, p, -, session, -⟩ | ⟨e, -, session, -⟩⟩ := run_allocate hrun <;>
          rw [session]
        · exact akin.setSlotPool _ _
        · exact akin
      cases x with
      | error e =>
        cases h
        exact kept
      | ok slot => exact hf slot _ _ _ h kept
  freeSlot pool slot := by
    refine .replace fun s r t h akin => ?_
    rw [run_bind, run_lift] at h
    cases freed : (s.session.slotPool pool).release slot with
    | error e =>
      rw [freed] at h
      cases h
      exact akin
    | ok p =>
      rw [freed] at h
      cases h
      exact akin.setSlotPool _ _
  onStorage _ := by
    intro s r t h akin
    cases h
    exact ⟨akin.config, akin.classes, akin.functions⟩

end SkipCode
