import SkipCode.Proofs.Coverage
import SkipCode.Proofs.Loans

/-!
# Where the slots of a unit come from

Every slot of a unit and of the storage of instances was handed out by a pool. So a condition on
pools that handing out and taking back keep, and that holds each slot it hands out to another
condition (`Issues`), tells of all of them where they are (`UnitState.Issued`): with a bound on the
pool they are inside the capacity (`History.inside`), and with the first free slot of a pool that
hands out in order they are behind it (`History.fresh`).
-/

namespace SkipCode

open Lower

/-- A condition on pools that lasts, and one on the slots that such a pool hands out. -/
structure Issues (G : Pool → SlotPool → Prop) (P : Location → Prop) : Prop where
  allocate : ∀ {pool p owner slot q}, G pool p → p.allocate owner = .ok (slot, q) →
    G pool q ∧ P ⟨pool, slot⟩
  release : ∀ {pool p slot q}, G pool p → p.release slot = .ok q → G pool q

/-- The slots that a unit and the storage of instances have been given since the storage was `old`.
Where a pool was exhausted a symbol may have none. -/
structure UnitState.Issued (G : Pool → SlotPool → Prop) (P : Location → Prop)
    (old : List IndexedVar) (s : UnitState) : Prop where
  pools : ∀ pool, G pool (s.session.slotPool pool)
  symbols : ∀ sym ∈ s.symbols, P sym.location ∨ s.deferred ≠ []
  storage : ∀ v ∈ s.session.classData.vars, v ∈ old ∨ v.path = [] ∧ P v.location

section

variable {G : Pool → SlotPool → Prop} {P : Location → Prop} {old : List IndexedVar} {α : Type}

namespace UnitState.Issued

variable {s t : UnitState}

/-- What was issued depends on the session, the symbols and what was put off. -/
theorem congr (h : s.Issued G P old) (session : t.session = s.session)
    (symbols : t.symbols = s.symbols) (deferred : t.deferred = s.deferred) : t.Issued G P old :=
  ⟨session ▸ h.pools, fun sym hs => deferred ▸ h.symbols sym (symbols ▸ hs), session ▸ h.storage⟩

/-- One more slot is handed out. -/
theorem take (issues : Issues G P) (h : s.Issued G P old) {pool : Pool} {owner : String}
    {slot : UInt32} {p : SlotPool}
    (taken : (s.session.slotPool pool).allocate owner = .ok (slot, p))
    (session : t.session = s.session.setSlotPool p pool) (deferred : t.deferred = s.deferred)
    (symbols : ∀ sym ∈ t.symbols, sym ∈ s.symbols ∨ sym.location = ⟨pool, slot⟩) :
    t.Issued G P old := by
  obtain ⟨kept, issued⟩ := issues.allocate (h.pools pool) taken
  refine ⟨fun other => ?_, fun sym hs => ?_, ?_⟩
  · rw [session, Session.slotPool_setSlotPool]
    split
    · next e => exact e ▸ kept
    · exact h.pools other
  · rw [deferred]
    rcases symbols sym hs with old | new
    · exact h.symbols sym old
    · exact Or.inl (new ▸ issued)
  · rw [session, Session.classData_setSlotPool]
    exact h.storage

/-- A slot may be issued and then declared. -/
theorem declared (issues : Issues G P) {name : String} {stacked : Bool} {f : UInt32 → Lower α}
    (hf : ∀ slot, Preserves (UnitState.Issued G P old) (f slot)) :
    Preserves (UnitState.Issued G P old)
      (Lower.allocate name >>= fun slot => Lower.addSymbol name slot stacked >>= fun _ =>
        f slot) := by
  intro s r t h issued
  rw [run_bind] at h
  cases hrun : run (Lower.allocate name) s with
  | none =>
    rw [hrun] at h
    cases h
  | some q =>
    obtain ⟨x, u⟩ := q
    rw [hrun] at h
    -- a slot was taken, or there was none and that was noted
    obtain ⟨symbols, pool, ⟨slot, p, taken, session, deferred, found⟩ | ⟨e, -, session, noted,
      found⟩⟩ :=
      Lower.run_allocate hrun
    · cases x with
      | error e =>
        cases h
        exact issued.take issues taken session deferred fun sym hs => Or.inl (symbols ▸ hs)
      | ok a =>
        obtain rfl := found a rfl
        refine hf a _ _ _ h (issued.take issues taken session deferred fun sym hs => ?_)
        rcases List.mem_cons.1 hs with rfl | hs
        · exact Or.inr (congrArg (Location.mk · a) pool)
        · exact Or.inl (symbols ▸ hs)
    · -- from now on a slot is missing
      have noted : u.deferred ≠ [] := noted ▸ List.cons_ne_nil _ _
      have missing {t : UnitState} (same : t.session = u.session) (noted : t.deferred ≠ []) :
          t.Issued G P old :=
        ⟨same ▸ session ▸ issued.pools, fun _ _ => Or.inr noted, same ▸ session ▸ issued.storage⟩
      cases x with
      | error e =>
        cases h
        exact missing rfl noted
      | ok a => exact hf _ _ _ _ h (missing rfl noted)

/-- Giving a slot back issues nothing. -/
theorem freeSlot (issues : Issues G P) (pool : Pool) (slot : UInt32) :
    Preserves (UnitState.Issued G P old) (Lower.freeSlot pool slot) := by
  refine .replace fun s r t h issued => ?_
  rw [run_bind, run_lift] at h
  cases freed : (s.session.slotPool pool).release slot with
  | error e =>
    rw [freed] at h
    cases h
    exact issued
  | ok p =>
    rw [freed] at h
    cases h
    refine ⟨fun other => ?_, issued.symbols, ?_⟩
    · rw [Session.slotPool_setSlotPool]
      split
      · next e => exact e ▸ issues.release (issued.pools pool) freed
      · exact issued.pools other
    · show ∀ v ∈ (s.session.setSlotPool p pool).classData.vars, _
      rw [Session.classData_setSlotPool]
      exact issued.storage

/-- What the storage draws from the shared pool. -/
theorem draws (issues : Issues G P) {s t : ClassStorage} (h : s.Draws t) (pool : G .global s.pool)
    (storage : ∀ v ∈ s.data.vars, v ∈ old ∨ v.path = [] ∧ P v.location) :
    G .global t.pool ∧ ∀ v ∈ t.data.vars, v ∈ old ∨ v.path = [] ∧ P v.location := by
  induction h with
  | keep same data => exact ⟨same ▸ pool, data ▸ storage⟩
  | take _ taken noted ih =>
    obtain ⟨kept, issued⟩ := issues.allocate ih.1 taken
    refine ⟨kept, fun v hv => ?_⟩
    rcases List.mem_cons.1 (noted.subset hv) with rfl | before
    · exact Or.inr ⟨rfl, issued⟩
    · exact ih.2 v before

/-- Making class storage issues its slots. -/
theorem onStorage (issues : Issues G P) {m : ClassStorage.Step α} (hm : ClassStorage.Orders m) :
    Preserves (UnitState.Issued G P old) (Lower.onStorage m) := by
  intro s r t h issued
  rw [run_onStorage] at h
  cases hrun : Attempt.run m ⟨s.session.classData, s.session.global, s.list⟩ with
  | mk x u =>
    rw [hrun] at h
    cases h
    obtain ⟨pool, storage⟩ := draws issues (hm _ _ _ hrun) (issued.pools .global) issued.storage
    refine ⟨fun other => ?_, issued.symbols, storage⟩
    cases other with
    | global => exact pool
    | actor => exact issued.pools .actor

theorem invariant (issues : Issues G P) : Invariant (UnitState.Issued G P old) where
  congr := congr
  declared := declared issues
  freeSlot := freeSlot issues
  onStorage := onStorage issues

end UnitState.Issued

/-- What a session has been given. -/
structure Session.Issued (G : Pool → SlotPool → Prop) (P : Location → Prop) (old : List IndexedVar)
    (σ : Session) : Prop where
  pools : ∀ pool, G pool (σ.slotPool pool)
  storage : ∀ v ∈ σ.classData.vars, v ∈ old ∨ v.path = [] ∧ P v.location

/-- A unit issues slots as its steps do. -/
theorem Session.Issued.runUnit (issues : Issues G P) {σ : Session} (h : σ.Issued G P old)
    {unit : String} {pool : Pool} {body : Expander → Lower Unit} {output : UnitOutput}
    (composed : ∀ into : Expander, into.Composed → Composed (body into))
    (done : σ.runUnit unit pool body = some output) :
    output.session.Issued G P old ∧
      (output.deferred = [] → ∀ sym ∈ output.symbols, P sym.location) := by
  obtain ⟨⟨r, last⟩, hrun, e⟩ := Option.bind_eq_some_iff.1 done
  cases e
  have : Invariant (UnitState.Issued G P old) := UnitState.Issued.invariant issues
  have issued := (Composed.unitBody (composed _ (.expander _))).preserves _ _ _ hrun
    (⟨h.pools, nofun, h.storage⟩ : (UnitState.new σ unit pool).Issued G P old)
  refine ⟨⟨issued.pools, issued.storage⟩, fun clean sym hs => ?_⟩
  exact (issued.symbols sym (List.mem_reverse.1 hs)).resolve_right fun missing =>
    missing (List.reverse_eq_nil_iff.1 clean)

/-- A unit is given slots by the pools of its session. -/
theorem Session.Issued.lowered (issues : Issues G P) {σ : Session} (h : σ.Issued G P old)
    {body : List Source.Stmt} {output : UnitOutput} (lowered : σ.Lowered body output) :
    output.session.Issued G P old ∧
      (output.deferred = [] → ∀ sym ∈ output.symbols, P sym.location) := by
  cases lowered with
  | rule done => exact h.runUnit issues (fun _ bodies => .stmts bodies _) done
  | statics done => exact h.runUnit issues (fun _ bodies => .staticInitials bodies _) done

end

/-! ## Inside the capacity -/

/-- How many slots the store of a pool has. -/
def LowerConfig.capacity (config : LowerConfig) : Pool → UInt32
  | .global => config.globalCapacity
  | .actor => config.actorCapacity

/-- A pool that knows its capacity and has handed out no slot beyond it. -/
structure SlotPool.Bounded (config : LowerConfig) (pool : Pool) (p : SlotPool) : Prop where
  capacity : p.capacity = config.capacity pool
  next : p.next ≤ p.capacity
  lends : p.Lends []

/-- Inside the capacity of its store. -/
def Location.Inside (config : LowerConfig) (l : Location) : Prop := l.slot < config.capacity l.pool

/-- Giving back leaves the bounds of the pool alone. -/
theorem SlotPool.capacity_release {p q : SlotPool} {slot : UInt32}
    (freed : p.release slot = .ok q) :
    q.capacity = p.capacity ∧ q.next = p.next := by
  obtain ⟨-, rfl⟩ | ⟨-, -, -, rfl⟩ := release_ok_iff.1 freed <;> exact ⟨rfl, rfl⟩

/-- Handing out leaves the capacity alone and stays below it. -/
theorem SlotPool.capacity_allocate {p q : SlotPool} {owner : String} {slot : UInt32}
    (taken : p.allocate owner = .ok (slot, q)) (next : p.next ≤ p.capacity) :
    q.capacity = p.capacity ∧ q.next ≤ q.capacity := by
  obtain ⟨rest, -, rfl⟩ | ⟨-, room, -, rfl⟩ := allocate_ok taken
  · exact ⟨rfl, next⟩
  · refine ⟨rfl, UInt32.le_iff_toNat_le.2 ?_⟩
    show (p.next + 1).toNat ≤ p.capacity.toNat
    rw [toNat_next_succ room]
    exact UInt32.lt_iff_toNat_lt.1 room

/-- Slots that are issued are inside of the configured stores. -/
theorem issues_bounded (config : LowerConfig) :
    Issues (SlotPool.Bounded config) (Location.Inside config) where
  allocate h taken := by
    obtain ⟨capacity, next⟩ := SlotPool.capacity_allocate taken h.next
    have lends := h.lends.allocate taken
    refine ⟨⟨capacity.trans h.capacity, next, lends.forget⟩, ?_⟩
    rw [Location.Inside, ← h.capacity, ← capacity]
    exact UInt32.lt_of_lt_of_le (lends.below _ List.mem_cons_self) next
  release h freed := by
    obtain ⟨capacity, next⟩ := SlotPool.capacity_release freed
    exact ⟨capacity.trans h.capacity, next ▸ capacity ▸ h.next, h.lends.released freed⟩

section

variable {config : LowerConfig} {program : Source.Program} {past : List Symbol} {σ : Session}
  {body : List Source.Stmt} {output : UnitOutput} {list : ActionList}

/-- So it is in every history. -/
theorem History.bounded (h : History config program past σ) :
    σ.Issued (SlotPool.Bounded config) (Location.Inside config) [] := by
  induction h with
  | start h =>
    obtain ⟨classes, -, h⟩ := except_bind_ok.1 h
    obtain ⟨_, -, h⟩ := except_bind_ok.1 h
    cases h
    refine ⟨fun pool => ?_, nofun⟩
    cases pool <;> exact ⟨rfl, UInt32.le_iff_toNat_le.2 (Nat.zero_le _), SlotPool.lends_new _ _ _⟩
  | unit _ h ih => exact (ih.lowered (issues_bounded config) (.rule h)).1
  | statics _ h ih => exact (ih.lowered (issues_bounded config) (.statics h)).1

/-- What is in the storage of a session is whole slots. -/
theorem History.whole (h : History config program past σ) : σ.classData.Whole :=
  fun v hv => ((h.bounded.storage v hv).resolve_left nofun).1

/-- A unit that went past no exhaustion has its places inside the capacities. -/
theorem History.inside (h : History config program past σ) (lowered : σ.Lowered body output)
    (clean : output.deferred = []) : ∀ l ∈ output.places, l.Inside config := by
  obtain ⟨session, symbols⟩ := h.bounded.lowered (issues_bounded config) lowered
  intro l hl
  rcases List.mem_append.1 hl with hl | hl
  · obtain ⟨sym, hs, rfl⟩ := List.mem_map.1 hl
    exact symbols clean sym hs
  · obtain ⟨v, hv, rfl⟩ := List.mem_map.1 hl
    exact ((session.storage v hv).resolve_left nofun).2

end

/-! ## Behind a slot -/

/-- A pool that hands out its slots in order, from one on. -/
structure SlotPool.From (low : Pool → UInt32) (pool : Pool) (p : SlotPool) : Prop where
  linear : p.Linear
  next : low pool ≤ p.next

/-- Slots that are issued are behind the ones before. -/
theorem issues_from (low : Pool → UInt32) :
    Issues (SlotPool.From low) fun l => low l.pool ≤ l.slot where
  allocate h taken := by
    obtain ⟨linear, rfl, next⟩ := h.linear.allocate taken
    have := UInt32.le_iff_toNat_le.1 h.next
    exact ⟨⟨linear, UInt32.le_iff_toNat_le.2 (by omega)⟩, h.next⟩
  release h freed := h.linear.release freed ▸ h

end SkipCode
