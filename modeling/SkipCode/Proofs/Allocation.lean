import Mathlib.Data.Finset.Card
import SkipCode.Proofs.Loans

/-!
# What a pool hands out

A pool knows the slots that are live only indirectly: they are the ones below its next slot that are
not on its list of free ones. What was handed out and not taken back can also be told from the
answers that the pool gave so far, without looking into it (`liveSlots`).

* `SlotPool.Tracks`: the slots below the next one are live or free, and none is both;
* `SlotPool.Tracks.allocated`, `SlotPool.Tracks.released`: every call that succeeds keeps that;
* `SlotPool.serveAll_answers`: behind every sequence of calls the pool counts what the answers say,
  and answers the next call by them.
-/

namespace SkipCode

/-! ## Calls and their answers -/

/-- A call to a pool. -/
inductive PoolCall where
  | allocate (owner : String)
  /-- Gives a slot back, which may be any number. -/
  | free (slot : UInt32)

/-- What a pool answers. -/
inductive PoolEvent where
  | handedOut (slot : UInt32)
  | takenBack (slot : UInt32)
  | refused (error : LowerError)

/-- The slots that are live behind an event. Without reuse a slot stays live for ever. -/
def PoolEvent.play (reuse : Bool) (live : Finset UInt32) : PoolEvent → Finset UInt32
  | handedOut slot => insert slot live
  | takenBack slot => if reuse then live.erase slot else live
  | refused _ => live

/-- The slots that are live behind some events. -/
def liveSlots (reuse : Bool) (events : List PoolEvent) : Finset UInt32 :=
  events.foldl (PoolEvent.play reuse) ∅

/-- The number of slots that were handed out. -/
def handOuts (events : List PoolEvent) : Nat :=
  events.countP fun | .handedOut _ => true | _ => false

/-- Answers a call. A call that fails leaves the pool as it is. -/
def SlotPool.serve (p : SlotPool) : PoolCall → PoolEvent × SlotPool
  | .allocate owner =>
    match p.allocate owner with
    | .ok (slot, q) => (.handedOut slot, q)
    | .error e => (.refused e, p)
  | .free slot =>
    match p.release slot with
    | .ok q => (.takenBack slot, q)
    | .error e => (.refused e, p)

/-- Answers one call after the other. -/
def SlotPool.serveAll (p : SlotPool) (calls : List PoolCall) : List PoolEvent × SlotPool :=
  calls.foldl (fun past call => (past.1 ++ [(past.2.serve call).1], (past.2.serve call).2)) ([], p)

theorem liveSlots_concat (reuse : Bool) (events : List PoolEvent) (event : PoolEvent) :
    liveSlots reuse (events ++ [event]) = event.play reuse (liveSlots reuse events) := by
  simp [liveSlots]

theorem handOuts_concat (events : List PoolEvent) (event : PoolEvent) :
    handOuts (events ++ [event]) = handOuts events + handOuts [event] := by
  simp [handOuts]

theorem SlotPool.serveAll_concat (p : SlotPool) (calls : List PoolCall) (call : PoolCall) :
    p.serveAll (calls ++ [call]) =
      ((p.serveAll calls).1 ++ [((p.serveAll calls).2.serve call).1],
        ((p.serveAll calls).2.serve call).2) := by
  simp [serveAll]

/-! ## Live and free slots -/

/-- The slots below the next one are live or free, and none is both. The free ones are in order. -/
structure SlotPool.Tracks (p : SlotPool) (live : Finset UInt32) : Prop where
  next_le : p.next ≤ p.capacity
  below : ∀ slot ∈ live, slot < p.next
  mem_free : ∀ slot, slot ∈ p.free ↔ slot < p.next ∧ slot ∉ live
  ascending : p.free.Pairwise (· < ·)
  total : live.card + p.free.length = p.next.toNat
  unused : p.reuse = false → p.free = []

namespace SlotPool

variable {p q : SlotPool} {live : Finset UInt32} {owner : String} {slot : UInt32} {e : LowerError}

theorem ascending_insertSorted {free : List UInt32} (fresh : slot ∉ free)
    (ascending : free.Pairwise (· < ·)) : (insertSorted slot free).Pairwise (· < ·) := by
  induction free with
  | nil => exact List.pairwise_singleton _ _
  | cons other rest ih =>
    rw [List.mem_cons, not_or] at fresh
    -- the new slot goes before the first greater one
    obtain ⟨above, ascending⟩ := List.pairwise_cons.1 ascending
    rw [insertSorted]
    split
    · next lt =>
      refine List.pairwise_cons.2 ⟨fun s mem => ?_, List.pairwise_cons.2 ⟨above, ascending⟩⟩
      rcases List.mem_cons.1 mem with rfl | mem
      · exact lt
      · exact UInt32.lt_trans lt (above s mem)
    · next ge =>
      refine List.pairwise_cons.2 ⟨fun s mem => ?_, ih fresh.2 ascending⟩
      rcases List.mem_cons.1 ((insertSorted_perm slot rest).mem_iff.1 mem) with rfl | mem
      · exact UInt32.lt_of_le_of_ne (UInt32.not_lt.1 ge) (Ne.symm fresh.1)
      · exact above s mem

theorem tracks_new (pool : Pool) (capacity : UInt32) (reuse : Bool) :
    (SlotPool.new pool capacity reuse).Tracks ∅ where
  next_le := UInt32.le_iff_toNat_le.2 (Nat.zero_le _)
  below := by simp
  mem_free slot := by simp [SlotPool.new]
  ascending := .nil
  total := rfl
  unused _ := rfl

/-- The number of live slots is counted right, and nothing is taken from less. -/
theorem Tracks.live_eq (tracks : p.Tracks live) :
    p.free.length ≤ p.next.toNat ∧ p.live.toNat = live.card := by
  have total := tracks.total
  have bound := p.next.toNat_lt
  have free : (UInt32.ofNat p.free.length).toNat = p.free.length :=
    UInt32.toNat_ofNat_of_lt' (by show _ < 2 ^ 32; omega)
  refine ⟨by omega, ?_⟩
  rw [SlotPool.live, UInt32.toNat_sub_of_le _ _ (UInt32.le_iff_toNat_le.2 (by omega)), free]
  omega

/-- The first free slot is the least that is not live. -/
theorem Tracks.popped (tracks : p.Tracks live) {rest : List UInt32} (free : p.free = slot :: rest) :
    (record { p with free := rest }).Tracks (insert slot live) ∧ slot < p.next ∧ slot ∉ live ∧
      ∀ s < slot, s ∈ live := by
  obtain ⟨above, ascending⟩ := List.pairwise_cons.1 (free ▸ tracks.ascending)
  obtain ⟨inside, dead⟩ := (tracks.mem_free slot).1 (by rw [free]; exact List.mem_cons_self)
  -- the list is ascending, so its first slot is not among the others
  have mem_rest (s : UInt32) : s ∈ rest ↔ s < p.next ∧ s ∉ insert slot live := by
    have mem := tracks.mem_free s
    rw [free, List.mem_cons] at mem
    rw [Finset.mem_insert, not_or]
    constructor
    · intro later
      obtain ⟨inside, dead⟩ := mem.1 (Or.inr later)
      exact ⟨inside, (UInt32.ne_of_lt (above s later)).symm, dead⟩
    · rintro ⟨inside, other, dead⟩
      exact (mem.2 ⟨inside, dead⟩).resolve_left other
  refine ⟨⟨tracks.next_le, ?_, mem_rest, ascending, ?_, fun noReuse => ?_⟩, inside, dead,
    fun s lt => ?_⟩
  · exact (Finset.forall_mem_insert _ _ _).2 ⟨inside, tracks.below⟩
  · have total := tracks.total
    rw [free, List.length_cons] at total
    rw [Finset.card_insert_of_notMem dead]
    show live.card + 1 + rest.length = p.next.toNat
    omega
  · rw [tracks.unused noReuse] at free
    cases free
  · -- what is below the first free slot is not free
    by_contra dead
    have mem := (tracks.mem_free s).2 ⟨UInt32.lt_trans lt inside, dead⟩
    rw [free] at mem
    rcases List.mem_cons.1 mem with rfl | later
    · exact UInt32.lt_irrefl _ lt
    · exact UInt32.lt_asymm lt (above s later)

/-- Where no slot is free all below the next one are live. -/
theorem Tracks.mem_of_lt_next (tracks : p.Tracks live) (free : p.free = []) {s : UInt32}
    (lt : s < p.next) : s ∈ live := by
  by_contra dead
  have mem := (tracks.mem_free s).2 ⟨lt, dead⟩
  rw [free] at mem
  cases mem

theorem Tracks.bumped (tracks : p.Tracks live) (free : p.free = []) (room : p.next < p.capacity) :
    (record { p with next := p.next + 1 }).Tracks (insert p.next live) ∧ p.next ∉ live := by
  have dead : p.next ∉ live := fun mem => UInt32.lt_irrefl _ (tracks.below _ mem)
  have next := toNat_next_succ room
  have lt_next (s : UInt32) : s < p.next + 1 ↔ s = p.next ∨ s < p.next := by
    rw [UInt32.lt_iff_toNat_lt, UInt32.lt_iff_toNat_lt, next, ← UInt32.toNat_inj]
    omega
  have free' : (record { p with next := p.next + 1 }).free = [] := free
  refine ⟨⟨?_, fun s mem => (lt_next s).2 ?_, fun s => ?_, by rw [free']; exact .nil, ?_,
    fun _ => free⟩, dead⟩
  · show p.next + 1 ≤ p.capacity
    rw [UInt32.le_iff_toNat_le, next]
    exact UInt32.lt_iff_toNat_lt.1 room
  · exact (Finset.mem_insert.1 mem).imp_right (tracks.below s)
  · rw [free']
    refine ⟨fun mem => absurd mem List.not_mem_nil, fun ⟨lt, dead⟩ => ?_⟩
    rw [Finset.mem_insert, not_or] at dead
    -- all below the next one are live, so only that one could be free, and it is live now
    exact absurd (tracks.mem_of_lt_next free (((lt_next s).1 lt).resolve_left dead.1)) dead.2
  · have total := tracks.total
    rw [free, List.length_nil] at total
    rw [free', Finset.card_insert_of_notMem dead]
    show live.card + 1 + 0 = (p.next + 1).toNat
    omega

/-- What is handed out is the least slot that is not live, whether it was free before or never
handed out. -/
theorem Tracks.allocated (tracks : p.Tracks live) (ok : p.allocate owner = .ok (slot, q)) :
    q.Tracks (insert slot live) ∧ slot < p.capacity ∧ slot ∉ live ∧ ∀ s < slot, s ∈ live := by
  obtain ⟨rest, free, rfl⟩ | ⟨free, room, rfl, rfl⟩ := allocate_ok ok
  · obtain ⟨tracks', inside, dead, least⟩ := tracks.popped free
    exact ⟨tracks', UInt32.lt_of_lt_of_le inside tracks.next_le, dead, least⟩
  · obtain ⟨tracks', dead⟩ := tracks.bumped free room
    exact ⟨tracks', room, dead, fun s => tracks.mem_of_lt_next free⟩

/-- There is no slot left exactly when as many are live as there are. -/
theorem Tracks.allocate_cases (tracks : p.Tracks live) (owner : String) :
    (∃ slot q, p.allocate owner = .ok (slot, q) ∧ live.card < p.capacity.toNat) ∨
      p.allocate owner = .error (.exhausted p.pool p.capacity owner) ∧
        live.card = p.capacity.toNat := by
  -- a slot is left if one is free or the next one is below the capacity, and else all are live
  have total := tracks.total
  have limit := UInt32.le_iff_toNat_le.1 tracks.next_le
  unfold SlotPool.allocate
  split
  · next first rest e =>
    rw [e, List.length_cons] at total
    exact Or.inl ⟨_, _, rfl, by omega⟩
  · next none =>
    rw [none, List.length_nil] at total
    split
    · next room =>
      have := UInt32.lt_iff_toNat_lt.1 room
      exact Or.inl ⟨_, _, rfl, by omega⟩
    · next full =>
      rw [UInt32.lt_iff_toNat_lt] at full
      exact Or.inr ⟨rfl, by omega⟩

/-- A pool with reuse takes back exactly what is live. -/
theorem Tracks.release_cases (tracks : p.Tracks live) (reuse : p.reuse = true) (slot : UInt32) :
    slot ∈ live ∧ (∃ q, p.release slot = .ok q) ∨ slot ∉ live ∧ ∃ e, p.release slot = .error e := by
  unfold SlotPool.release
  rw [if_neg (by simp [reuse])]
  by_cases above : p.next ≤ slot
  · rw [if_pos above]
    exact Or.inr ⟨fun mem => UInt32.not_lt.2 above (tracks.below slot mem), _, rfl⟩
  · rw [if_neg above]
    have mem := tracks.mem_free slot
    by_cases free : slot ∈ p.free
    · rw [if_pos (List.contains_iff_mem.2 free)]
      exact Or.inr ⟨(mem.1 free).2, _, rfl⟩
    · rw [if_neg (by simpa using free)]
      refine Or.inl ⟨?_, _, rfl⟩
      by_contra dead
      exact free (mem.2 ⟨UInt32.not_le.1 above, dead⟩)

/-- A slot that is taken back is free. -/
theorem Tracks.released (tracks : p.Tracks live) (ok : p.release slot = .ok q) :
    q.Tracks ((PoolEvent.takenBack slot).play p.reuse live) := by
  have total := tracks.total
  obtain ⟨reuse, rfl⟩ | ⟨reuse, inside, fresh, rfl⟩ := release_ok_iff.1 ok
  · rw [reuse]
    exact tracks
  · have play : (PoolEvent.takenBack slot).play p.reuse live = live.erase slot := by
      rw [reuse]
      rfl
    have mem : slot ∈ live := by
      by_contra dead
      exact fresh ((tracks.mem_free slot).2 ⟨inside, dead⟩)
    -- a live slot is not free, so it stands once in the new list
    have perm := insertSorted_perm slot p.free
    rw [play]
    refine ⟨tracks.next_le, fun s mem => tracks.below s (Finset.mem_of_mem_erase mem), fun s => ?_,
      ascending_insertSorted fresh tracks.ascending, ?_, fun noReuse => ?_⟩
    · rw [perm.mem_iff, List.mem_cons, tracks.mem_free, Finset.mem_erase]
      by_cases same : s = slot
      · subst same
        simp [inside]
      · simp [same]
    · rw [Finset.card_erase_of_mem mem, perm.length_eq, List.length_cons]
      have := Finset.card_pos.2 ⟨slot, mem⟩
      show _ = p.next.toNat
      omega
    · cases reuse.symm.trans noReuse

/-! ## Sequences of calls -/

/-- How a pool stands behind some events: what it counts, and what it answers to the next call. -/
structure Answers (pool : Pool) (capacity : UInt32) (reuse : Bool) (events : List PoolEvent)
    (p : SlotPool) : Prop where
  /-- The number of live slots is that of the slots handed out and not taken back, and nothing is
  taken from less. -/
  live : p.free.length ≤ p.next.toNat ∧ p.live.toNat = (liveSlots reuse events).card
  /-- The peak is reached at some time, and never passed. -/
  highWater : (∀ past, past <+: events → (liveSlots reuse past).card ≤ p.highWater.toNat) ∧
    ∃ past, past <+: events ∧ (liveSlots reuse past).card = p.highWater.toNat
  allocations : p.allocations = handOuts events
  below : ∀ slot ∈ liveSlots reuse events, slot < capacity
  /-- With reuse the least slot that is not live is handed out, without it the next number. There is
  none when as many slots are live as there are, which without reuse is when as many were handed
  out. -/
  allocate : ∀ owner,
    (∃ slot q, p.serve (.allocate owner) = (.handedOut slot, q) ∧
        (liveSlots reuse events).card < capacity.toNat ∧ slot < capacity ∧
        slot ∉ liveSlots reuse events ∧ (∀ s < slot, s ∈ liveSlots reuse events) ∧
        (reuse = false → slot.toNat = handOuts events ∧ handOuts events < capacity.toNat)) ∨
      p.serve (.allocate owner) = (.refused (.exhausted pool capacity owner), p) ∧
        (liveSlots reuse events).card = capacity.toNat ∧
        (reuse = false → handOuts events = capacity.toNat)
  /-- With reuse exactly the live slots are taken back, without it any number is, and nothing
  changes. -/
  free : ∀ slot, if reuse then
      slot ∈ liveSlots reuse events ∧ (∃ q, p.serve (.free slot) = (.takenBack slot, q)) ∨
        slot ∉ liveSlots reuse events ∧ ∃ e, p.serve (.free slot) = (.refused e, p)
    else p.serve (.free slot) = (.takenBack slot, p)

/-- What every call keeps. -/
structure Follows (pool : Pool) (capacity : UInt32) (reuse : Bool) (events : List PoolEvent)
    (p : SlotPool) : Prop where
  tracks : p.Tracks (liveSlots reuse events)
  samePool : p.pool = pool
  sameCapacity : p.capacity = capacity
  sameReuse : p.reuse = reuse
  highWater : (∀ past, past <+: events → (liveSlots reuse past).card ≤ p.highWater.toNat) ∧
    ∃ past, past <+: events ∧ (liveSlots reuse past).card = p.highWater.toNat
  allocations : p.allocations = handOuts events
  /-- Without reuse whatever was handed out is live. -/
  kept : reuse = false → (liveSlots reuse events).card = handOuts events

variable {pool : Pool} {capacity : UInt32} {reuse : Bool} {events : List PoolEvent}

theorem follows_new (pool : Pool) (capacity : UInt32) (reuse : Bool) :
    Follows pool capacity reuse [] (SlotPool.new pool capacity reuse) where
  tracks := tracks_new pool capacity reuse
  samePool := rfl
  sameCapacity := rfl
  sameReuse := rfl
  highWater := ⟨fun past h => by rw [List.prefix_nil.1 h]; rfl, [], List.prefix_refl [], rfl⟩
  allocations := rfl
  kept _ := rfl

/-- An event after which no more slots are live than before does not move the peak. -/
theorem Follows.peak_kept (h : Follows pool capacity reuse events p) {event : PoolEvent}
    (fewer : (event.play reuse (liveSlots reuse events)).card ≤ (liveSlots reuse events).card) :
    (∀ past, past <+: events ++ [event] → (liveSlots reuse past).card ≤ p.highWater.toNat) ∧
      ∃ past, past <+: events ++ [event] ∧ (liveSlots reuse past).card = p.highWater.toNat := by
  obtain ⟨bound, past, before, reached⟩ := h.highWater
  refine ⟨fun past h => ?_, past, before.trans (List.prefix_append _ _), reached⟩
  rcases List.prefix_concat_iff.1 h with rfl | h
  · rw [liveSlots_concat]
    exact Nat.le_trans fewer (bound events (List.prefix_refl _))
  · exact bound past h

theorem Follows.allocated (h : Follows pool capacity reuse events p)
    (ok : p.allocate owner = .ok (slot, q)) :
    Follows pool capacity reuse (events ++ [.handedOut slot]) q := by
  obtain ⟨tracks, -, dead, -⟩ := h.tracks.allocated ok
  -- whichever way the slot was found, the pool that it was taken from is recorded
  obtain ⟨r, rfl, same, high, met⟩ : ∃ r : SlotPool, q = record r ∧
      (r.pool = p.pool ∧ r.capacity = p.capacity ∧ r.reuse = p.reuse) ∧
        r.highWater = p.highWater ∧ r.allocations = p.allocations := by
    obtain ⟨rest, -, rfl⟩ | ⟨-, -, -, rfl⟩ := allocate_ok ok <;>
      exact ⟨_, rfl, ⟨rfl, rfl, rfl⟩, rfl, rfl⟩
  have live : r.live.toNat = (insert slot (liveSlots reuse events)).card := tracks.live_eq.2
  have highWater : (record r).highWater.toNat = max p.highWater.toNat r.live.toNat := by
    show (max r.highWater r.live).toNat = _
    rw [UInt32.toNat_max, high]
  -- the peak is the old one or the number of slots that are live now
  obtain ⟨bound, past, before, reached⟩ := h.highWater
  refine ⟨by rwa [liveSlots_concat], same.1.trans h.samePool, same.2.1.trans h.sameCapacity,
    same.2.2.trans h.sameReuse, ⟨fun past h => ?_, ?_⟩, ?_, fun noReuse => ?_⟩
  · rw [highWater]
    rcases List.prefix_concat_iff.1 h with rfl | h
    · rw [liveSlots_concat, PoolEvent.play, ← live]
      exact Nat.le_max_right _ _
    · exact Nat.le_trans (bound past h) (Nat.le_max_left _ _)
  · rw [highWater]
    rcases Nat.le_total p.highWater.toNat r.live.toNat with le | le
    · refine ⟨_, List.prefix_refl _, ?_⟩
      rw [Nat.max_eq_right le, live, liveSlots_concat, PoolEvent.play]
    · exact ⟨past, before.trans (List.prefix_append _ _), by rw [Nat.max_eq_left le, reached]⟩
  · show r.allocations + 1 = _
    rw [met, h.allocations, handOuts_concat]
    rfl
  · rw [liveSlots_concat, PoolEvent.play, Finset.card_insert_of_notMem dead, h.kept noReuse,
      handOuts_concat]
    rfl

theorem Follows.released (h : Follows pool capacity reuse events p) (ok : p.release slot = .ok q) :
    Follows pool capacity reuse (events ++ [.takenBack slot]) q := by
  have tracks := h.tracks.released ok
  rw [h.sameReuse] at tracks
  obtain ⟨fewer, same⟩ : ((PoolEvent.takenBack slot).play reuse (liveSlots reuse events)).card ≤
      (liveSlots reuse events).card ∧ (reuse = false →
        (PoolEvent.takenBack slot).play reuse (liveSlots reuse events) =
          liveSlots reuse events) := by
    cases reuse with
    | false => exact ⟨Nat.le_refl _, fun _ => rfl⟩
    | true => exact ⟨Finset.card_le_card (Finset.erase_subset _ _), nofun⟩
  -- whatever happens to the free slots, the counters stay
  obtain ⟨free, rfl⟩ : ∃ free, q = { p with free := free } := by
    obtain ⟨-, same⟩ | ⟨-, -, -, same⟩ := release_ok_iff.1 ok
    · exact ⟨p.free, same⟩
    · exact ⟨_, same⟩
  refine ⟨by rwa [liveSlots_concat], h.samePool, h.sameCapacity, h.sameReuse,
    h.peak_kept fewer, ?_, ?_⟩
  · rw [handOuts_concat]
    exact h.allocations
  · intro noReuse
    rw [liveSlots_concat, same noReuse, h.kept noReuse, handOuts_concat]
    rfl

theorem Follows.refused (h : Follows pool capacity reuse events p) (e : LowerError) :
    Follows pool capacity reuse (events ++ [.refused e]) p := by
  refine ⟨by rw [liveSlots_concat]; exact h.tracks, h.samePool, h.sameCapacity, h.sameReuse,
    h.peak_kept (Nat.le_refl _), ?_, fun noReuse => ?_⟩
  · rw [handOuts_concat]
    exact h.allocations
  · rw [liveSlots_concat, handOuts_concat]
    exact h.kept noReuse

/-- One more call is answered. -/
theorem Follows.served (h : Follows pool capacity reuse events p) (call : PoolCall) :
    Follows pool capacity reuse (events ++ [(p.serve call).1]) (p.serve call).2 := by
  cases call with
  | allocate owner =>
    rw [serve]
    split
    · next slot q ok => exact h.allocated ok
    · next e refused => exact h.refused e
  | free slot =>
    rw [serve]
    split
    · next q ok => exact h.released ok
    · next e refused => exact h.refused e

theorem follows_serveAll (pool : Pool) (capacity : UInt32) (reuse : Bool) (calls : List PoolCall) :
    Follows pool capacity reuse ((SlotPool.new pool capacity reuse).serveAll calls).1
      ((SlotPool.new pool capacity reuse).serveAll calls).2 := by
  induction calls using List.reverseRecOn with
  | nil => exact follows_new pool capacity reuse
  | append_singleton calls call ih =>
    rw [serveAll_concat]
    exact ih.served call

/-- Behind every sequence of calls a pool counts what its answers say, and answers the next call by
them. -/
theorem serveAll_answers (pool : Pool) (capacity : UInt32) (reuse : Bool) (calls : List PoolCall) :
    Answers pool capacity reuse ((SlotPool.new pool capacity reuse).serveAll calls).1
      ((SlotPool.new pool capacity reuse).serveAll calls).2 := by
  have follows := follows_serveAll pool capacity reuse calls
  generalize (SlotPool.new pool capacity reuse).serveAll calls = reached at follows
  obtain ⟨events, p⟩ := reached
  have inside : p.next ≤ capacity := follows.sameCapacity ▸ follows.tracks.next_le
  refine ⟨follows.tracks.live_eq, follows.highWater, follows.allocations,
    fun slot mem => UInt32.lt_of_lt_of_le (follows.tracks.below slot mem) inside, fun owner => ?_,
    fun slot => ?_⟩
  · obtain ⟨slot, q, ok, room⟩ | ⟨refused, full⟩ := follows.tracks.allocate_cases owner
    · obtain ⟨-, limit, dead, least⟩ := follows.tracks.allocated ok
      rw [follows.sameCapacity] at room limit
      refine Or.inl ⟨slot, q, by rw [serve, ok], room, limit, dead, least, fun noReuse => ?_⟩
      rw [← follows.kept noReuse]
      refine ⟨?_, room⟩
      -- nothing is free, so the next slot is handed out and all slots below it are live
      have total := follows.tracks.total
      have free := follows.tracks.unused (follows.sameReuse.trans noReuse)
      obtain ⟨rest, first, -⟩ | ⟨-, -, rfl, -⟩ := allocate_ok ok
      · rw [free] at first
        cases first
      · rw [free] at total
        exact total.symm
    · rw [follows.samePool, follows.sameCapacity] at refused
      rw [follows.sameCapacity] at full
      exact Or.inr ⟨by rw [serve, refused], full,
        fun noReuse => by rw [← follows.kept noReuse, full]⟩
  · cases reuse with
    | false =>
      rw [if_neg Bool.false_ne_true, serve, release_ok_iff.2 (Or.inl ⟨follows.sameReuse, rfl⟩)]
    | true =>
      rw [if_pos rfl]
      obtain ⟨mem, q, ok⟩ | ⟨dead, e, refused⟩ :=
        follows.tracks.release_cases follows.sameReuse slot
      · exact Or.inl ⟨mem, q, by rw [serve, ok]⟩
      · exact Or.inr ⟨dead, e, by rw [serve, refused]⟩

end SlotPool

end SkipCode
