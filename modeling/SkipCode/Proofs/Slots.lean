import SkipCode.Proofs.Invariant

/-!
# No slot is handed out twice

Without reuse a pool hands out its slots in order. So the symbols of a unit have places of their
own, which no instance is stored in (`UnitState.Orderly`). That holds however the units before
ended, also where one failed in the middle: every step of lowering keeps it, whatever its outcome
(`Lower.Preserves`).
-/

namespace SkipCode

open Lower

/-! ## Units -/

/-- The pools of a session hand out their slots in order, and what instances need is taken. -/
structure Session.Orderly (σ : Session) : Prop where
  linear : ∀ pool, (σ.slotPool pool).Linear
  storage : ∀ l ∈ σ.classData.locations, l.slot < (σ.slotPool l.pool).next
  shared : ∀ l ∈ σ.classData.locations, l.pool = .global
  distinct : σ.classData.locations.Nodup

/-- The symbols of a unit and those of the units before it have no slot of the storage of instances.
Unless there was no slot left, those of the unit have slots of their own. -/
structure UnitState.Orderly (past : List Symbol) (s : UnitState) : Prop where
  session : s.session.Orderly
  taken : ∀ sym ∈ s.symbols ++ past,
    sym.slot = placeholderSlot ∨ sym.slot < (s.session.slotPool sym.pool).next
  distinct : s.deferred = [] → (s.symbols.map Symbol.location).Nodup
  storage : ∀ l ∈ s.session.classData.locations, l ∉ (s.symbols ++ past).map Symbol.location

section

variable {past : List Symbol} {s t : UnitState}

/-- Order depends on the session, the symbols and what was put off. -/
theorem UnitState.Orderly.congr (h : s.Orderly past) (session : t.session = s.session)
    (symbols : t.symbols = s.symbols) (deferred : t.deferred = s.deferred) : t.Orderly past := by
  refine ⟨?_, ?_, ?_, ?_⟩
  · rw [session]
    exact h.session
  · rw [session, symbols]
    exact h.taken
  · rw [symbols, deferred]
    exact h.distinct
  · rw [session, symbols]
    exact h.storage

/-- A pool that was set is there, and the other one is as it was. -/
theorem Session.slotPool_setSlotPool (σ : Session) (p : SlotPool) (pool other : Pool) :
    (σ.setSlotPool p pool).slotPool other = if other = pool then p else σ.slotPool other := by
  cases pool <;> cases other <;> rfl

/-- Setting a pool leaves class storage alone. -/
theorem Session.classData_setSlotPool (σ : Session) (p : SlotPool) (pool : Pool) :
    (σ.setSlotPool p pool).classData = σ.classData := by
  cases pool <;> rfl

/-- One more slot is handed out. -/
theorem Session.Orderly.allocate {σ : Session} {pool : Pool} {owner : String} {slot : UInt32}
    {p : SlotPool} (h : σ.Orderly) (taken : (σ.slotPool pool).allocate owner = .ok (slot, p)) :
    (σ.setSlotPool p pool).Orderly ∧ slot = (σ.slotPool pool).next ∧
      ∀ other, ((σ.setSlotPool p pool).slotPool other).next.toNat =
        (σ.slotPool other).next.toNat + if other = pool then 1 else 0 := by
  obtain ⟨linear, e, next⟩ := (h.linear pool).allocate taken
  have later (other : Pool) : ((σ.setSlotPool p pool).slotPool other).next.toNat =
      (σ.slotPool other).next.toNat + if other = pool then 1 else 0 := by
    rw [Session.slotPool_setSlotPool]
    split
    · next e =>
      rw [next, e]
    · rfl
  refine ⟨⟨fun other => ?_, fun l hl => ?_, ?_, ?_⟩, e, later⟩
  · rw [Session.slotPool_setSlotPool]
    split
    · exact linear
    · exact h.linear other
  · rw [Session.classData_setSlotPool] at hl
    have := UInt32.lt_iff_toNat_lt.1 (h.storage l hl)
    rw [UInt32.lt_iff_toNat_lt, later]
    omega
  · rw [Session.classData_setSlotPool]
    exact h.shared
  · rw [Session.classData_setSlotPool]
    exact h.distinct

/-- A slot that is handed out is none that stands for a slot that was missing. -/
theorem SlotPool.ne_placeholder {p : SlotPool} {slot : UInt32} (lt : slot < p.next) :
    slot ≠ placeholderSlot := by
  rintro rfl
  have := UInt32.lt_iff_toNat_lt.1 lt
  have := p.next.toNat_lt
  have : placeholderSlot.toNat = 2 ^ 32 - 1 := rfl
  omega

namespace UnitState.Orderly

variable {slot : UInt32} {p : SlotPool} {owner : String}

/-- A slot is handed out and not noted. -/
theorem waste (orderly : s.Orderly past)
    (taken : (s.session.slotPool s.pool).allocate owner = .ok (slot, p))
    (session : t.session = s.session.setSlotPool p s.pool) (symbols : t.symbols = s.symbols)
    (deferred : t.deferred = s.deferred) : t.Orderly past := by
  obtain ⟨orderly', -, later⟩ := orderly.session.allocate taken
  refine ⟨?_, fun sym hs => ?_, ?_, ?_⟩
  · rw [session]
    exact orderly'
  · rw [symbols] at hs
    rcases orderly.taken sym hs with missing | lt
    · exact Or.inl missing
    · have := UInt32.lt_iff_toNat_lt.1 lt
      right
      rw [session, UInt32.lt_iff_toNat_lt, later]
      omega
  · rw [symbols, deferred]
    exact orderly.distinct
  · rw [session, symbols, Session.classData_setSlotPool]
    exact orderly.storage

/-- A slot is handed out and noted: it is beyond all that were taken. -/
theorem take (orderly : s.Orderly past) {sym : Symbol}
    (taken : (s.session.slotPool s.pool).allocate owner = .ok (slot, p))
    (session : t.session = s.session.setSlotPool p s.pool) (symbols : t.symbols = sym :: s.symbols)
    (deferred : t.deferred = s.deferred) (place : sym.location = ⟨s.pool, slot⟩) :
    t.Orderly past := by
  obtain ⟨orderly', e, later⟩ := orderly.session.allocate taken
  obtain ⟨hpool, hslot⟩ : sym.pool = s.pool ∧ sym.slot = slot := by
    simpa [Symbol.location] using place
  have wasted : ({ t with symbols := s.symbols } : UnitState).Orderly past :=
    orderly.waste taken session rfl deferred
  have inside : slot < ((s.session.setSlotPool p s.pool).slotPool s.pool).next := by
    rw [UInt32.lt_iff_toNat_lt, later, e, if_pos rfl]
    omega
  -- all that was handed out before is below the new slot
  have fresh (l : Location) (hl : l.slot < (s.session.slotPool l.pool).next) :
      l ≠ sym.location := by
    rintro rfl
    rw [place] at hl
    have := UInt32.lt_iff_toNat_lt.1 hl
    rw [e] at this
    exact Nat.lt_irrefl _ this
  refine ⟨wasted.session, fun other hs => ?_, fun clean => ?_, fun l hl mem => ?_⟩
  · rw [symbols, List.cons_append] at hs
    rcases List.mem_cons.1 hs with rfl | hs
    · right
      rw [session, hpool, hslot]
      exact inside
    · exact wasted.taken other hs
  · rw [symbols, List.map_cons, List.nodup_cons]
    refine ⟨fun mem => ?_, orderly.distinct (deferred ▸ clean)⟩
    obtain ⟨other, hs, e'⟩ := List.mem_map.1 mem
    rcases orderly.taken other (List.mem_append_left _ hs) with missing | lt
    · apply SlotPool.ne_placeholder inside
      rw [← hslot, ← missing]
      exact congrArg Location.slot e'.symm
    · exact fresh other.location lt e'
  · rw [session, Session.classData_setSlotPool] at hl
    rw [symbols, List.cons_append, List.map_cons] at mem
    rcases List.mem_cons.1 mem with rfl | mem
    · exact fresh _ (orderly.session.storage _ hl) rfl
    · exact orderly.storage l hl mem

/-- There was no slot left, and a placeholder is noted. -/
theorem exhausted (orderly : s.Orderly past) (syms : List Symbol)
    (session : t.session = s.session) (symbols : t.symbols = syms ++ s.symbols)
    (missing : ∀ sym ∈ syms, sym.slot = placeholderSlot) (noted : t.deferred ≠ []) :
    t.Orderly past := by
  refine ⟨?_, fun sym hs => ?_, fun clean => absurd clean noted, fun l hl mem => ?_⟩
  · rw [session]
    exact orderly.session
  · rw [symbols, List.append_assoc] at hs
    rcases List.mem_append.1 hs with hs | hs
    · exact Or.inl (missing sym hs)
    · rw [session]
      exact orderly.taken sym hs
  · rw [session] at hl
    rw [symbols, List.append_assoc, List.map_append] at mem
    rcases List.mem_append.1 mem with mem | mem
    · obtain ⟨sym, hs, rfl⟩ := List.mem_map.1 mem
      exact SlotPool.ne_placeholder (orderly.session.storage _ hl) (missing sym hs)
    · exact orderly.storage l hl mem

end UnitState.Orderly

namespace UnitState.Orderly

/-- A slot is taken and noted. -/
theorem declared {α : Type} {name : String} {stacked : Bool} {f : UInt32 → Lower α}
    (hf : ∀ slot, Preserves (UnitState.Orderly past) (f slot)) :
    Preserves (UnitState.Orderly past) (Lower.allocate name >>= fun slot =>
      Lower.addSymbol name slot stacked >>= fun _ =>
      f slot) := by
  intro s r t h orderly
  rw [run_bind] at h
  cases hrun : run (Lower.allocate name) s with
  | none =>
    rw [hrun] at h
    cases h
  | some q =>
    obtain ⟨x, u⟩ := q
    rw [hrun] at h
    -- the slot is taken before it is noted, so it can be taken without being noted
    obtain ⟨symbols, pool, ⟨slot, p, taken, session, deferred, found⟩ | ⟨e, -, session, noted,
      found⟩⟩ :=
      Lower.run_allocate hrun
    · cases x with
      | error e =>
        cases h
        exact orderly.waste taken session symbols deferred
      | ok a =>
        obtain rfl := found a rfl
        refine hf a _ _ _ h (orderly.take taken session (congrArg _ symbols) deferred ?_)
        exact congrArg (Location.mk · a) pool
    · -- no slot was left, and from here on the state is one with exhaustions
      have noted : u.deferred ≠ [] := noted ▸ List.cons_ne_nil _ _
      cases x with
      | error e =>
        cases h
        exact orderly.exhausted [] session symbols nofun noted
      | ok a =>
        obtain rfl := found a rfl
        refine hf _ _ _ _ h (orderly.exhausted [_] session (congrArg _ symbols) ?_ noted)
        exact fun sym hs => by
          rw [List.mem_singleton.1 hs]

/-- Giving a slot back keeps order. -/
theorem freeSlot (pool : Pool) (slot : UInt32) :
    Preserves (UnitState.Orderly past) (Lower.freeSlot pool slot) := by
  refine .replace fun s r t h orderly => ?_
  rw [run_bind, run_lift] at h
  cases freed : (s.session.slotPool pool).release slot with
  | error e =>
    rw [freed] at h
    cases h
    exact orderly
  | ok p =>
    rw [freed] at h
    cases h
    obtain rfl := (orderly.session.linear pool).release freed
    refine orderly.congr ?_ rfl rfl
    cases pool <;> rfl

/-- So does making class storage. -/
theorem onStorage {α : Type} {m : ClassStorage.Step α} (hm : ClassStorage.Orders m) :
    Preserves (UnitState.Orderly past) (Lower.onStorage m) := by
  intro s r t h orderly
  rw [run_onStorage] at h
  cases hrun : Attempt.run m ⟨s.session.classData, s.session.global, s.list⟩ with
  | mk x u =>
    rw [hrun] at h
    cases h
    obtain ⟨linear, next, places, distinct⟩ :=
      (hm _ _ _ hrun).orderly (orderly.session.linear .global)
    have next := UInt32.le_iff_toNat_le.1 next
    -- no pool is behind where it was
    have later (pool : Pool) : (s.session.slotPool pool).next.toNat ≤
        (({ s.session with classData := u.data, global := u.pool } : Session).slotPool
          pool).next.toNat := by
      cases pool with
      | global => exact next
      | actor => exact Nat.le_refl _
    refine ⟨⟨fun pool => ?_, fun l hl => ?_, fun l hl => ?_, distinct orderly.session.distinct
        fun l hl => ?_⟩, fun sym hs => ?_, orderly.distinct, fun l hl mem => ?_⟩
    · cases pool with
      | global => exact linear
      | actor => exact orderly.session.linear .actor
    · rcases places l hl with hl | ⟨global, -, high⟩
      · have := UInt32.lt_iff_toNat_lt.1 (orderly.session.storage l hl)
        exact UInt32.lt_iff_toNat_lt.2 (Nat.lt_of_lt_of_le this (later l.pool))
      · rw [global]
        exact high
    · exact (places l hl).elim (orderly.session.shared l) (·.1)
    · have := orderly.session.storage l hl
      rwa [orderly.session.shared l hl] at this
    · rcases orderly.taken sym hs with missing | lt
      · exact Or.inl missing
      · have := UInt32.lt_iff_toNat_lt.1 lt
        exact Or.inr (UInt32.lt_iff_toNat_lt.2 (Nat.lt_of_lt_of_le this (later sym.pool)))
    · rcases places l hl with hl | ⟨global, low, high⟩
      · exact orderly.storage l hl mem
      · obtain ⟨sym, hs, rfl⟩ := List.mem_map.1 mem
        rcases orderly.taken sym hs with missing | lt
        · exact SlotPool.ne_placeholder high missing
        · have := UInt32.lt_iff_toNat_lt.1 lt
          rw [show sym.pool = .global from global] at this
          have low : s.session.global.next.toNat ≤ sym.slot.toNat := UInt32.le_iff_toNat_le.1 low
          exact absurd this (Nat.not_lt.2 low)

instance : Invariant (UnitState.Orderly past) where
  congr := congr
  declared := declared
  freeSlot := freeSlot
  onStorage := onStorage

end UnitState.Orderly

end

end SkipCode
