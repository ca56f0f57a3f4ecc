import Mathlib.Data.List.Perm.Subperm
import SkipCode.Proofs.Balance

/-!
# Pools

What the two operations of a pool can do is said once (`SlotPool.allocate_ok`,
`SlotPool.release_ok_iff`), and what they keep follows from it.

Without reuse a pool hands out its slots in order, so a slot that it has handed out is below its
next one for ever. What a step on the storage of instances adds comes from the shared pool
(`ClassStorage.Orders`), whatever its outcome, so without reuse it is added in order.
-/

namespace SkipCode

open Lower

/-! ## What the two operations can do -/

namespace SlotPool

variable {p q : SlotPool} {owner : String} {slot : UInt32}

/-- Below the capacity the next slot does not overflow. -/
theorem toNat_next_succ (room : p.next < p.capacity) : (p.next + 1).toNat = p.next.toNat + 1 := by
  have := UInt32.lt_iff_toNat_lt.1 room
  have := p.capacity.toNat_lt
  rw [UInt32.toNat_add, UInt32.toNat_one]
  omega

/-- The first free slot is handed out, and the next one if none is free. -/
theorem allocate_ok (taken : p.allocate owner = .ok (slot, q)) :
    (∃ rest, p.free = slot :: rest ∧ q = record { p with free := rest }) ∨
      p.free = [] ∧ p.next < p.capacity ∧ slot = p.next ∧
        q = record { p with next := p.next + 1 } := by
  unfold SlotPool.allocate at taken
  split at taken
  · next first rest free =>
    cases taken
    exact Or.inl ⟨rest, free, rfl⟩
  · next free =>
    split at taken
    · next room =>
      cases taken
      exact Or.inr ⟨free, room, rfl, rfl⟩
    · cases taken

/-- A request is refused when no slot is free and all were handed out. -/
theorem allocate_error {e : LowerError} (refused : p.allocate owner = .error e) :
    p.free = [] ∧ ¬ p.next < p.capacity ∧ e = .exhausted p.pool p.capacity owner := by
  unfold SlotPool.allocate at refused
  split at refused
  · cases refused
  · next free =>
    split at refused
    · cases refused
    · next full =>
      cases refused
      exact ⟨free, full, rfl⟩

/-- Only what was handed out and is not free yet is taken back. -/
theorem release_ok_iff : p.release slot = .ok q ↔
    p.reuse = false ∧ q = p ∨
      p.reuse = true ∧ slot < p.next ∧ slot ∉ p.free ∧
        q = { p with free := insertSorted slot p.free } := by
  unfold SlotPool.release
  cases reuse : p.reuse with
  | false => simp [eq_comm]
  | true =>
    rw [if_neg (by simp)]
    by_cases above : p.next ≤ slot
    · simp [above, UInt32.not_lt.2 above]
    · by_cases free : slot ∈ p.free
      · simp [above, free]
      · simp [above, free, UInt32.not_le.1 above, eq_comm]

end SlotPool

/-! ## In order -/

/-- A pool that hands out its slots in order. -/
structure SlotPool.Linear (p : SlotPool) : Prop where
  reuse : p.reuse = false
  free : p.free = []

namespace SlotPool

variable {p q : SlotPool} {owner : String} {slot : UInt32}

/-- Without reuse the next slot is given out, and the one behind it is next. -/
theorem Linear.allocate (h : p.Linear) (taken : p.allocate owner = .ok (slot, q)) :
    q.Linear ∧ slot = p.next ∧ q.next.toNat = p.next.toNat + 1 := by
  obtain ⟨rest, free, -⟩ | ⟨free, room, rfl, rfl⟩ := allocate_ok taken
  · rw [h.free] at free
    cases free
  · exact ⟨⟨h.reuse, free⟩, rfl, toNat_next_succ room⟩

/-- A slot that is given back stays taken. -/
theorem Linear.release (h : p.Linear) (freed : p.release slot = .ok q) : q = p := by
  obtain ⟨-, same⟩ | ⟨reuse, -⟩ := release_ok_iff.1 freed
  · exact same
  · cases h.reuse.symm.trans reuse

end SlotPool

/-! ## The storage of instances -/

/-- The variables of the storage. -/
def ClassData.vars (d : ClassData) : List IndexedVar :=
  d.table.toList ++ d.fieldStacks ++ d.statics.map (·.2)

/-- What a step on the storage does to it: it takes slots of the pool, and notes each of them. -/
inductive ClassStorage.Draws (s : ClassStorage) : ClassStorage → Prop
  | keep {t} : t.pool = s.pool → t.data = s.data → s.Draws t
  | take {t u owner slot} : s.Draws t → t.pool.allocate owner = .ok (slot, u.pool) →
      u.data.vars.Perm (.plain owner .global slot :: t.data.vars) → s.Draws u

/-- What such a step adds when the pool hands out its slots in order. -/
structure ClassStorage.Orderly (s t : ClassStorage) : Prop where
  pool : t.pool.Linear
  next : s.pool.next ≤ t.pool.next
  places : ∀ l ∈ t.data.locations, l ∈ s.data.locations ∨
    l.pool = .global ∧ s.pool.next ≤ l.slot ∧ l.slot < t.pool.next
  distinct : s.data.locations.Nodup → (∀ l ∈ s.data.locations, l.slot < s.pool.next) →
    t.data.locations.Nodup

namespace ClassStorage

variable {α β : Type} {s t u : ClassStorage}

theorem Draws.refl (s : ClassStorage) : s.Draws s := .keep rfl rfl

/-- What draws on a pool is told by the pool and the data. -/
theorem Draws.same (h : s.Draws t) (pool : u.pool = t.pool) (data : u.data = t.data) :
    s.Draws u := by
  induction h with
  | keep pool' data' => exact .keep (pool.trans pool') (data.trans data')
  | take first taken noted =>
    exact .take first (by rw [pool]; exact taken) (by rw [data]; exact noted)

/-- A slot that is noted is the only new place. -/
theorem mem_locations_of_vars {d d' : ClassData} {owner : String} {slot : UInt32}
    (noted : d'.vars.Perm (.plain owner .global slot :: d.vars)) :
    ∀ l ∈ d'.locations, l ∈ d.locations ∨ l = ⟨.global, slot⟩ := by
  intro l hl
  obtain ⟨v, hv, rfl⟩ := List.mem_map.1 hl
  rcases List.mem_cons.1 (noted.subset hv) with rfl | old
  · exact Or.inr rfl
  · exact Or.inl (List.mem_map_of_mem old)

/-- It is none of the others when it is fresh. -/
theorem nodup_locations_of_vars {d d' : ClassData} {owner : String} {slot : UInt32}
    (noted : d'.vars.Perm (.plain owner .global slot :: d.vars)) (distinct : d.locations.Nodup)
    (fresh : ⟨.global, slot⟩ ∉ d.locations) : d'.locations.Nodup := by
  have all : (⟨.global, slot⟩ :: d.locations : List Location).Nodup :=
    List.nodup_cons.2 ⟨fresh, distinct⟩
  exact (noted.map IndexedVar.location).symm.nodup all

/-- Two steps draw what both draw. -/
theorem Draws.trans (h₁ : s.Draws t) (h₂ : t.Draws u) : s.Draws u := by
  induction h₂ with
  | keep pool data => exact h₁.same pool data
  | take _ taken noted ih => exact .take ih taken noted

/-- Out of a pool without reuse slots come in order. -/
theorem Draws.orderly (h : s.Draws t) (linear : s.pool.Linear) : s.Orderly t := by
  induction h with
  | keep pool data =>
    exact ⟨pool ▸ linear, pool ▸ Nat.le_refl _, fun l hl => Or.inl (data ▸ hl),
      fun distinct _ => data ▸ distinct⟩
  | @take t u _ _ first taken noted ih =>
    obtain ⟨linear', rfl, next⟩ := ih.pool.allocate taken
    have before := UInt32.le_iff_toNat_le.1 ih.next
    refine ⟨linear', UInt32.le_iff_toNat_le.2 (by omega), fun l hl => ?_, fun distinct below => ?_⟩
    · rcases mem_locations_of_vars noted l hl with hl | rfl
      · rcases ih.places l hl with hl | ⟨global, low, high⟩
        · exact Or.inl hl
        · have := UInt32.lt_iff_toNat_lt.1 high
          exact Or.inr ⟨global, low, UInt32.lt_iff_toNat_lt.2 (by omega)⟩
      · exact Or.inr ⟨rfl, ih.next, UInt32.lt_iff_toNat_lt.2 (by
          show t.pool.next.toNat < u.pool.next.toNat
          omega)⟩
    · -- the slot is behind all that were noted before
      refine nodup_locations_of_vars noted (ih.distinct distinct below) fun mem => ?_
      rcases ih.places _ mem with old | ⟨-, -, high⟩
      · have := UInt32.lt_iff_toNat_lt.1 (below _ old)
        exact absurd before (Nat.not_le.2 this)
      · exact UInt32.lt_irrefl _ high

/-- A step that adds only what it takes from the pool, whatever its outcome. -/
def Orders (m : Step α) : Prop := ∀ s r t, Attempt.run m s = (r, t) → s.Draws t

namespace Orders

theorem pure (a : α) : Orders (Pure.pure a : Step α) := by
  intro s r t h
  cases h
  exact .refl _

theorem throw (e : LowerError) : Orders (MonadExcept.throw e : Step α) := by
  intro s r t h
  cases h
  exact .refl _

theorem get : Orders (MonadState.get : Step ClassStorage) := by
  intro s r t h
  cases h
  exact .refl _

theorem lift (x : Except LowerError α) : Orders (liftM x : Step α) := by
  intro s r t h
  rw [Attempt.run_lift] at h
  cases h
  exact .refl _

theorem emit (actions : List Action) : Orders (ClassStorage.emit actions) := by
  intro s r t h
  cases h
  exact .keep rfl rfl

/-- Steps that draw in order do so together. -/
theorem bind {m : Step α} {f : α → Step β} (hm : Orders m) (hf : ∀ a, Orders (f a)) :
    Orders (m >>= f) := by
  intro s r t h
  rw [Attempt.run_bind] at h
  cases hrun : Attempt.run m s with
  | mk x u =>
    rw [hrun] at h
    have first := hm s x u hrun
    cases x with
    | error e =>
      cases h
      exact first
    | ok a => exact first.trans (hf a u r t h)

/-- With these rules steps are put together that draw in order. -/
theorem composes : Composes Step Orders := ⟨pure, bind⟩

/-- A slot is taken and noted. -/
theorem stored {owner : String} {f : IndexedVar → ClassData → ClassData} {s t : ClassStorage}
    {r : Except LowerError IndexedVar} (noted : ∀ v, (f v s.data).vars.Perm (v :: s.data.vars))
    (h : Attempt.run (do
      let v ← ClassStorage.allocate owner
      ClassStorage.modifyData (f v)
      return v) s = (r, t)) : s.Draws t := by
  simp only [ClassStorage.allocate, Attempt.run_bind, Attempt.run_get, Attempt.run_lift,
    Attempt.run_set] at h
  cases taken : s.pool.allocate owner with
  | error e =>
    rw [taken] at h
    cases h
    exact .refl _
  | ok p =>
    rw [taken] at h
    cases h
    exact .take (.refl _) taken (noted _)

/-- The table of handles is drawn at most once. -/
theorem handleTable : Orders handleTable := by
  intro s r t h
  rw [ClassStorage.handleTable, Attempt.run_bind, Attempt.run_get] at h
  dsimp only at h
  split at h
  · cases h
    exact .refl _
  · next none =>
    -- there was no table, so no variable is forgotten
    refine stored (f := fun v d => { d with table := some v }) (fun v => ?_) h
    rw [ClassData.vars, ClassData.vars, none]
    exact .refl _

/-- So is each stack. -/
theorem fieldStack (index : Nat) : Orders (fieldStack index) := by
  refine .bind .get fun s => ?_
  have make : Orders (do
      let stack ← ClassStorage.allocate s!"__field_stack_{index}"
      ClassStorage.modifyData fun d => { d with fieldStacks := d.fieldStacks ++ [stack] }
      return stack) := by
    intro s r t h
    refine stored (f := fun v d => { d with fieldStacks := d.fieldStacks ++ [v] }) (fun v => ?_) h
    simpa [ClassData.vars] using
      @List.perm_middle _ v (s.data.table.toList ++ s.data.fieldStacks) (s.data.statics.map (·.2))
  dsimp only
  split
  · exact .pure _
  · split
    · exact .bind (.throw _) fun _ => make
    · exact make

/-- The stacks of a class are drawn one by one. -/
theorem prepare (layout : ClassLayout) : Orders (prepare layout) :=
  composes.forM fun index _ => .bind (.fieldStack index) fun _ => .pure _

/-- The slot of a static field is drawn once. -/
theorem staticField (className field : String) : Orders (staticField className field) := by
  refine .bind .get fun s => ?_
  split
  · exact .pure _
  · intro s r t h
    refine stored (f := fun v d => { d with statics := d.statics ++ [(_, v)] }) (fun v => ?_) h
    simpa [ClassData.vars] using
      List.perm_append_singleton v
        (s.data.table.toList ++ (s.data.fieldStacks ++ s.data.statics.map (·.2)))

/-- Taking a handle draws the table. -/
theorem acquireHandle (config : LowerConfig) (handle : Variable) :
    Orders (acquireHandle config handle) := by
  have rest (next : List Action) : Orders (do
      ClassStorage.emit next
      ClassStorage.emit [.skipIf (.compare handle.get .less (.ofNat config.classCapacity.toNat))
        (some 1), .abort]
      ClassStorage.emit ((← ClassStorage.handleTable).set (.ofNat 1) none [handle.get])) :=
    .bind (.emit _) fun _ => .bind (.emit _) fun _ => .bind .handleTable fun _ => .emit _
  refine .bind .handleTable fun table => .bind (.lift _) fun next => ?_
  dsimp only
  split
  · exact .bind (.lift _) fun first => .bind (.emit _) fun _ => .bind (.emit _) fun _ => rest next
  · exact rest next

/-- Giving up an instance draws what is missing of its storage. -/
theorem release (classes : ClassTable) (className : String) (handle : Element) :
    Orders (release classes className handle) :=
  .bind (.lift _) fun layout => .bind (.prepare layout) fun _ => .bind (.lift _) fun _ =>
    .bind (composes.forIn (fun _ _ => .bind (.fieldStack _) fun _ => .bind (.emit _) fun _ =>
      .pure _)
      _ _) fun _ => .bind .handleTable fun _ => .emit _

end Orders

end ClassStorage

end SkipCode
