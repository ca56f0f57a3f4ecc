import SkipCode.Proofs.Slots

/-!
# Slots on loan

A pool with reuse takes its slots back, so it matters that the ones that are lent and the ones that
are free are all different and were all handed out before (`SlotPool.Lends`). Then a slot that is on
loan can always be given back, once.
-/

namespace SkipCode

/-- The slots of `taken` are on loan. -/
structure SlotPool.Lends (p : SlotPool) (taken : List UInt32) : Prop where
  nodup : (taken ++ p.free).Nodup
  below : ∀ slot ∈ taken ++ p.free, slot < p.next

namespace SlotPool

variable {p q : SlotPool} {taken : List UInt32} {owner : String} {slot : UInt32}

/-- Putting a slot in its place keeps the others. -/
theorem insertSorted_perm (slot : UInt32) (free : List UInt32) :
    (insertSorted slot free).Perm (slot :: free) := by
  induction free with
  | nil => exact .refl _
  | cons other rest ih =>
    rw [insertSorted]
    split
    · exact .refl _
    · exact (ih.cons other).trans (.swap ..)

/-- A new pool has lent nothing. -/
theorem lends_new (pool : Pool) (capacity : UInt32) (reuse : Bool) :
    (SlotPool.new pool capacity reuse).Lends [] :=
  ⟨List.nodup_nil, fun slot h => by cases h⟩

/-- A loan that is forgotten is never given back. -/
theorem Lends.forget (h : p.Lends (slot :: taken)) : p.Lends taken :=
  ⟨(List.nodup_cons.1 h.nodup).2, fun slot mem => h.below slot (List.mem_cons_of_mem _ mem)⟩

/-- A slot that is handed out is lent besides. -/
theorem Lends.allocate (h : p.Lends taken) (ok : p.allocate owner = .ok (slot, q)) :
    q.Lends (slot :: taken) := by
  obtain ⟨rest, free, rfl⟩ | ⟨-, room, rfl, rfl⟩ := allocate_ok ok
  · -- a slot that was given back changes sides
    have perm : (taken ++ p.free).Perm (slot :: (taken ++ rest)) := by
      rw [free]
      exact List.perm_middle
    exact ⟨perm.nodup h.nodup, fun other mem => h.below other (perm.mem_iff.2 mem)⟩
  · have later {other : UInt32} (h : other.toNat ≤ p.next.toNat) : other < p.next + 1 := by
      rw [UInt32.lt_iff_toNat_lt, toNat_next_succ room]
      omega
    refine ⟨List.nodup_cons.2 ⟨fun mem => ?_, h.nodup⟩, fun other mem => ?_⟩
    · exact absurd (h.below _ mem) (UInt32.lt_irrefl _)
    · rcases List.mem_cons.1 mem with rfl | mem
      · exact later (Nat.le_refl _)
      · exact later (Nat.le_of_lt (UInt32.lt_iff_toNat_lt.1 (h.below _ mem)))

/-- What is on loan can be given back. -/
theorem Lends.release (h : p.Lends (slot :: taken)) :
    ∃ q, p.release slot = .ok q ∧ q.Lends taken := by
  cases reuse : p.reuse with
  | false => exact ⟨p, release_ok_iff.2 (Or.inl ⟨reuse, rfl⟩), h.forget⟩
  | true =>
    have fresh : slot ∉ p.free := fun free =>
      (List.nodup_cons.1 h.nodup).1 (List.mem_append_right taken free)
    have perm : (taken ++ insertSorted slot p.free).Perm (slot :: taken ++ p.free) :=
      ((insertSorted_perm slot p.free).append_left taken).trans List.perm_middle
    exact ⟨{ p with free := insertSorted slot p.free },
      release_ok_iff.2 (Or.inr ⟨reuse, h.below slot List.mem_cons_self, fresh, rfl⟩),
      perm.symm.nodup h.nodup, fun other mem => h.below other (perm.mem_iff.1 mem)⟩

/-- Whatever is given back is free afterwards, and nothing is free twice. -/
theorem Lends.released (h : p.Lends []) (ok : p.release slot = .ok q) : q.Lends [] := by
  obtain ⟨-, rfl⟩ | ⟨-, handed, fresh, rfl⟩ := release_ok_iff.1 ok
  · exact h
  · have perm := insertSorted_perm slot p.free
    refine ⟨perm.symm.nodup (List.nodup_cons.2 ⟨fresh, h.nodup⟩), fun other mem => ?_⟩
    rcases List.mem_cons.1 (perm.mem_iff.1 mem) with rfl | mem
    · exact handed
    · exact h.below other mem

end SlotPool

/-- The storage takes its slots for ever. -/
theorem ClassStorage.Draws.lends {s t : ClassStorage} {taken : List UInt32} (h : s.Draws t)
    (lends : s.pool.Lends taken) : t.pool.Lends taken := by
  induction h with
  | keep pool _ => exact pool ▸ lends
  | take _ ok _ ih => exact (ih.allocate ok).forget

/-- The slots of one pool among those of both. -/
def slotsIn (pool : Pool) (owned : List (Pool × UInt32)) : List UInt32 :=
  owned.filterMap fun o => if o.1 = pool then some o.2 else none

/-- Both pools of a session have lent the slots of `owned`. -/
def Session.Lends (σ : Session) (owned : List (Pool × UInt32)) : Prop :=
  ∀ pool, (σ.slotPool pool).Lends (slotsIn pool owned)

namespace Session.Lends

variable {σ τ : Session} {owned rest : List (Pool × UInt32)} {pool : Pool} {slot : UInt32}

/-- The slots of a pool are counted one by one. -/
theorem slotsIn_cons (o : Pool × UInt32) (owned : List (Pool × UInt32)) (pool : Pool) :
    slotsIn pool (o :: owned) = if o.1 = pool then o.2 :: slotsIn pool owned else slotsIn pool
      owned := by
  unfold slotsIn
  rw [List.filterMap_cons]
  by_cases h : o.1 = pool <;> simp [h]

/-- A slot may be forgotten. -/
theorem forget {o : Pool × UInt32} (h : σ.Lends (o :: owned)) : σ.Lends owned := by
  intro pool
  have := h pool
  rw [slotsIn_cons] at this
  split at this
  · exact this.forget
  · exact this

/-- A session lends what its pools do. -/
theorem allocate {owner : String} {p : SlotPool} (h : σ.Lends owned)
    (ok : (σ.slotPool pool).allocate owner = .ok (slot, p)) :
    (σ.setSlotPool p pool).Lends ((pool, slot) :: owned) := by
  intro other
  rw [slotPool_setSlotPool, slotsIn_cons]
  by_cases e : other = pool
  · subst e
    rw [if_pos rfl, if_pos rfl]
    exact (h other).allocate ok
  · rw [if_neg e, if_neg fun e' => e e'.symm]
    exact h other

/-- A slot that is lent can be given back. -/
theorem free {o : Pool × UInt32} (h : σ.Lends (o :: owned)) :
    ∃ τ, σ.free o = .ok τ ∧ τ.Lends owned := by
  have first := h o.1
  rw [slotsIn_cons, if_pos rfl] at first
  obtain ⟨p, freed, lends⟩ := first.release
  refine ⟨σ.setSlotPool p o.1, by rw [Session.free, freed]; rfl, fun other => ?_⟩
  rw [slotPool_setSlotPool]
  split
  · next e =>
    rw [e]
    exact lends
  · exact h.forget other

/-- So can all of them. -/
theorem freeAll (h : σ.Lends (owned ++ rest)) :
    ∃ τ, owned.foldlM Session.free σ = .ok τ ∧ τ.Lends rest := by
  induction owned generalizing σ with
  | nil => exact ⟨σ, rfl, h⟩
  | cons o owned ih =>
    obtain ⟨τ, first, lends⟩ := Session.Lends.free h
    obtain ⟨τ', others, lends'⟩ := ih lends
    refine ⟨τ', ?_, lends'⟩
    rw [List.foldlM_cons, first]
    exact others

end Session.Lends

end SkipCode
