import SkipCode.Proofs.Effects
import SkipCode.Proofs.StoredHeap

/-!
# Simple statements and the heap

The code of a simple statement, gone through from its start to its end, does to the storage what its
events do to a heap (`Effect.passes`). That takes a unit whose slots are none of the storage, each
taken once (`UnitState.Fits`).
-/

namespace SkipCode

open Engine (Context Host Memory)
open Lower

/-- The storage has a heap with the events behind it, if it had one that allows them before, and the
handles of instances that are made were not live in that. -/
def Session.Follows (σ : Session) (c : Engine.Config) (m : Memory) (events : List HeapEvent)
    (m' : Memory) :
    Prop :=
  ∀ H : Heap, H.Stored σ.classes σ.classData c m → H.legal σ.classes events = true →
    (H.after σ.classes events).Stored σ.classes σ.classData c m' ∧
      ∀ x className, HeapEvent.made x className ∈ events → H x = none

/-- A state of a unit of a session: its slots are not those of instances, and each was taken once.
-/
structure UnitState.Fits (s : UnitState) (σ : Session) : Prop where
  classes : s.session.classes = σ.classes
  grows : s.session.classData.Grows σ.classData
  apart : ∀ l ∈ s.ownPlaces, l ∉ σ.classData.core.map IndexedVar.location
  distinct : (s.symbols.map Symbol.location).Nodup

variable {σ : Session} {s t : UnitState} {h : Host} {list : ActionList} {p pe : Nat}
  {m m' m'' me : Memory}

/-- A session that fits later fits before. -/
theorem UnitState.Fits.before (fits : t.Fits σ) (grows : s.Grows t) : s.Fits σ where
  classes := grows.session.classes.symm.trans fits.classes
  grows := grows.session.classData.trans fits.grows
  apart l mem := fits.apart l (grows.ownPlaces l mem)
  distinct := fits.distinct.sublist (grows.symbols.map _).sublist

/-- Actions inside of a set of places are writes. -/
theorem Action.Within.writes {a : Action} {places : List Location} (h : a.Within places) :
    a.Writes := by
  obtain ⟨st, slot, index, value, e, -⟩ := h
  exact ⟨st, slot, index, value, e⟩

/-- Writing a variable is a list of writes. -/
theorem writes_set (v : IndexedVar) (x : Element) (extra : List Element) :
    ∀ a ∈ v.set x none extra, a.Writes := fun a mem =>
  (IndexedVar.set_within (List.mem_singleton_self _) _ _ _ a mem).writes

/-- So are the initial values of fields. -/
theorem FieldWrites.writes {d : ClassData} {values : FieldSlot → Value} {handle : Element}
    {slots : List FieldSlot} {actions : List Action}
      (h : FieldWrites d values handle slots actions) :
    ∀ a ∈ actions, a.Writes := by
  induction h with
  | nil => exact List.forall_mem_nil _
  | cons _ _ _ ih => exact List.forall_mem_append.2 ⟨writes_set _ _ _, ih⟩

/-- The fields of a class have their own stacks. -/
theorem ClassTable.Built.stacks_distinct {classes : ClassTable} {className : String}
    {slots : List FieldSlot} (built : classes.Built)
      (all : classes.allFields className = .ok slots) :
    (slots.map FieldSlot.stack).Nodup := by
  obtain ⟨chain, -, rfl⟩ := built.allFields all
  rw [stack_chainSlots]
  exact List.nodup_range'

namespace Lower.Acquires

variable {config : LowerConfig} {v table : IndexedVar} {first : Option (List Action × Element)}
  {next mark : List Action} {full : Element}

/-- So is finding the next handle. -/
theorem writes_next (acquires : Acquires config (.indexed v) table first next full mark) :
    ∀ a ∈ next, a.Writes := by
  have e := acquires.next
  cases e
  exact writes_set _ _ _

/-- So is finding the first one. -/
theorem writes_first (acquires : Acquires config (.indexed v) table first next full mark) :
    ∀ f, first = some f → ∀ a ∈ f.1, a.Writes := by
  rintro ⟨firsts, found⟩ rfl
  have e := acquires.first.1
  cases e
  exact writes_set _ _ _

/-- So is marking a handle. -/
theorem writes_mark (acquires : Acquires config (.indexed v) table first next full mark) :
    ∀ a ∈ mark, a.Writes := by
  rw [acquires.mark]
  exact writes_set _ _ _

/-- Finding a handle takes fewer actions than a skip can count. -/
theorem small_next (acquires : Acquires config (.indexed v) table first next full mark)
    (plain : v.path = []) : next.length < 2 ^ 31 := by
  have e : Except.ok _ = Except.ok next := acquires.next
  cases e
  rw [IndexedVar.set_whole plain, List.length_singleton]
  decide

end Lower.Acquires

/-- An event that is allowed is about a live instance. -/
theorem Heap.live_of_allows {H : Heap} {x : Binary64} {p : Instance → Bool}
    (allowed : (H x).any p = true) :
    ∃ obj, H x = some obj ∧ p obj = true := by
  cases live : H x with
  | none =>
    rw [live] at allowed
    cases allowed
  | some obj =>
    rw [live] at allowed
    exact ⟨obj, rfl, allowed⟩

/-- What is written outside the storage is no event. -/
theorem Session.Follows.quiet {c : Engine.Config} (same : σ.classData.Same c m m') :
    σ.Follows c m [] m' :=
  fun _ stored _ => ⟨stored.same same, fun _ _ mem => absurd mem List.not_mem_nil⟩

/-- Writing a field changes the heap at that field. -/
theorem ClassData.Sound.follows_written (sound : σ.classData.Sound) (built : σ.classes.Built)
    {className field : String} {slot : FieldSlot} {stack : IndexedVar} {handle x : Element}
    (found : σ.classes.findField className field = .ok slot)
    (stacked : σ.classData.fieldStacks[slot.stack]? = some stack)
    (done : h.acts m ((stack.child handle).set x none []) = some m') : ∃ n value,
      handle.number? (h.context m) = some n ∧ Engine.eval (h.context m) x = .ok value ∧
        σ.Follows h.config m [.written n className field value] m' := by
  rw [IndexedVar.set_child (sound.core_whole (mem_core_stack stacked))] at done
  obtain ⟨value, n, hx, hn, flags, entry⟩ := sound.item_written stacked done
  refine ⟨n.asNumber, value, by rw [Element.number?, hn]; rfl, hx, fun H stored legal =>
    ⟨?_, by simp⟩⟩
  obtain ⟨obj, live, derives⟩ := Heap.live_of_allows (Bool.and_eq_true_iff.1 legal).1
  exact stored.written built live derives found flags entry

/-- Deleting an instance takes it from the heap. -/
theorem ClassData.Sound.follows_deleted (sound : σ.classData.Sound) (built : σ.classes.Built)
    {className : String} {slots : List FieldSlot} {v table : IndexedVar} {handle : Element}
    {clears : List Action} (plain : v.path = [])
    (apart : v.location ∉ σ.classData.core.map IndexedVar.location)
    (all : σ.classes.allFields className = .ok slots)
    (writes : FieldWrites σ.classData (fun _ => .neutral) (v.get none) slots clears)
    (known : σ.classData.table = some table)
    (done : h.acts m (v.set handle none [] ++ (clears ++ table.set (.ofNat 0) none [v.get none])) =
      some m') :
    ∃ n, handle.number? (h.context m) = some n ∧
      σ.Follows h.config m [.deleted n className] m' := by
  obtain ⟨m₁, kept, rest⟩ := acts_append done
  obtain ⟨m₂, cleared, freed⟩ := acts_append rest
  obtain ⟨x, hx, here⟩ := Host.whole_written plain kept
  -- the handle goes to a variable of its own first, which is no place of the storage
  have same := sound.untouched (IndexedVar.set_within (List.mem_singleton_self _) _ _ _)
    (fun l mem => List.mem_singleton.1 mem ▸ apart) kept
  obtain ⟨here', flags, -, others⟩ :=
    writes.written sound (built.stacks_distinct all) plain apart here cleared
  obtain ⟨value, n, hvalue, hn, flags', entry⟩ := sound.flag_written known freed
  rw [here'] at hn
  cases hn
  rw [Element.ofNat, Location.eval_number] at hvalue
  cases hvalue
  rw [flags, same.flags] at flags'
  refine ⟨x.asNumber, by rw [Element.number?, hx]; rfl, fun H stored legal => ⟨?_, by simp⟩⟩
  obtain ⟨obj, live, -⟩ := Heap.live_of_allows (Bool.and_eq_true_iff.1 legal).1
  refine stored.deleted live className flags' fun s j ne => ?_
  rw [entry, others s j fun e => absurd e ne, same.entry]

/-- Making an instance adds it to the heap with its initial values. -/
theorem ClassData.Sound.follows_made (sound : σ.classData.Sound) (built : σ.classes.Built)
    {config : LowerConfig} {className : String} {slots : List FieldSlot} {v table : IndexedVar}
    {first : Option (List Action × Element)} {next mark inits others : List Action} {full : Element}
    {newer : List Location} {m₁ m₂ : Memory} (plain : v.path = [])
    (apart : v.location ∉ σ.classData.core.map IndexedVar.location)
    (known : σ.classData.table = some table)
    (acquires : Acquires config (.indexed v) table first next full mark)
    (all : σ.classes.allFields className = .ok slots)
    (writes : FieldWrites σ.classData σ.classes.initialValue (v.get none) slots inits)
    (within : ∀ a ∈ others, a.Within newer) (own : v.location ∉ newer)
    (apart' : ∀ l ∈ newer, l ∉ σ.classData.core.map IndexedVar.location)
    (taken : h.Acquired first next full mark m m₁) (initialized : h.acts m₁ inits = some m₂)
    (done : h.acts m₂ others = some m') :
    ∃ n, (v.get none).number? (h.context m') = some n ∧
      σ.Follows h.config m [.made n className] m' := by
  -- the handle is in its variable from the acquisition to the end, past the initial values and the
  -- other code
  obtain ⟨x, here⟩ := acquires.valued known plain apart taken
  obtain ⟨here', flags, initials, others'⟩ :=
    writes.written sound (built.stacks_distinct all) plain apart here initialized
  have last := (Host.eval_get_congr plain (Host.acts_elsewhere within done own)).trans here'
  have same := sound.untouched within apart' done
  refine ⟨x.asNumber, by rw [Element.number?, last]; rfl, fun H stored legal => ?_⟩
  obtain ⟨k, found, taken⟩ := acquires.taken sound known plain apart stored.short taken
  rw [here] at found
  cases found
  have small := taken.small
  have index : (Value.number (.ofNat k)).asNumber.toIndex = k := Binary64.toIndex_ofNat (by omega)
  rw [index] at initials others'
  refine ⟨stored.made built taken all (same.flags.trans flags)
    (fun slot mem => (same.entry _ _).trans (initials slot mem))
    (fun s j ne => (same.entry s j).trans (others' s j fun e => absurd e ne)), fun y name mem => ?_⟩
  cases List.mem_singleton.1 mem
  exact stored.taken_fresh taken

/-- A statement is gone through, and the storage follows its events. -/
theorem Effect.passes {actions : List Action} {f : Context → Context → Option (List HeapEvent)}
    (effect : Effect t actions f) (fits : t.Fits σ) (built : σ.classes.Built)
    (sound : σ.classData.Sound) (short : list.length < 2 ^ 63) (here : ActsAt list p actions)
    (passes : Passes h list p m pe me) :
    ∃ m' events, Forward h list p m (p + actions.length) m' ∧
      Passes h list (p + actions.length) m' pe me ∧ f (h.context m) (h.context m') = some events ∧
        σ.Follows h.config m events m' := by
  have classes := fits.classes
  cases effect with
  | quiet within =>
    obtain ⟨m', done, go, passes⟩ := forward_acts (fun a mem => (within a mem).writes) here passes
    exact ⟨m', [], go, passes, rfl, .quiet (sound.untouched within fits.apart done)⟩
  | written found stacked =>
    obtain ⟨m', done, go, passes⟩ := forward_acts (writes_set _ _ _) here passes
    obtain ⟨n, value, hn, hx, follows⟩ := sound.follows_written built (classes ▸ found)
      (fits.grows.fieldStack stacked) done
    exact ⟨m', _, go, passes, Option.bind_eq_some_iff.2 ⟨n, hn, Option.bind_eq_some_iff.2
      ⟨value, congrArg Except.toOption hx, rfl⟩⟩, follows⟩
  | @deleted className handle slots clears v table plain own all writes known =>
    have acts : ∀ a ∈ v.set handle none [] ++ (clears ++ table.set (.ofNat 0) none [v.get none]),
        a.Writes :=
      List.forall_mem_append.2 ⟨writes_set _ _ _,
        List.forall_mem_append.2 ⟨writes.writes, writes_set _ _ _⟩⟩
    obtain ⟨m', done, go, passes⟩ := forward_acts acts here passes
    obtain ⟨n, hn, follows⟩ := sound.follows_deleted built plain (fits.apart _ own) (classes ▸ all)
      (writes.mono fits.grows) (fits.grows.table _ known) done
    exact ⟨m', _, go, passes, Option.bind_eq_some_iff.2 ⟨n, hn, rfl⟩, follows⟩
  | made makes =>
    obtain ⟨plain, symbols, own, known, acquires, all, writes, within⟩ := makes
    obtain ⟨acquireAt, rest⟩ := ActsAt.append.1 here
    obtain ⟨initsAt, othersAt⟩ := ActsAt.append.1 rest
    obtain ⟨m₁, taken, go₁, passes₁⟩ := forward_acquire short (acquires.small_next plain)
      acquires.writes_first acquires.writes_next acquires.writes_mark acquireAt passes
    obtain ⟨m₂, initialized, go₂, passes₂⟩ := forward_acts writes.writes initsAt passes₁
    obtain ⟨m', done, go₃, passes₃⟩ :=
      forward_acts (fun a mem => (within a mem).writes) othersAt passes₂
    -- the slot of the handle is older than those that are written behind
    have distinct := fits.distinct
    rw [← symbols, List.map_append] at distinct
    have fresh (mem : _ ∈ _) := (List.nodup_append.1 distinct).2.2 _ mem _ own rfl
    have places : ∀ l, l ∈ _ ++ _ → l ∈ t.ownPlaces := fun l mem =>
      t.symbols_ownPlaces l (by rw [← symbols, List.map_append]; exact mem)
    obtain ⟨n, hn, follows⟩ := sound.follows_made built plain
      (fits.apart _ (places _ (List.mem_append_right _ own))) (fits.grows.table _ known) acquires
      (classes ▸ all) (classes ▸ writes.mono fits.grows) within fresh
      (fun l mem => fits.apart l (places l (List.mem_append_left _ mem))) taken initialized done
    refine ⟨m', _, ?_, ?_, Option.bind_eq_some_iff.2 ⟨n, hn, rfl⟩, follows⟩
    · rw [List.length_append, List.length_append, ← Nat.add_assoc, ← Nat.add_assoc]
      exact (go₁.trans go₂).trans go₃
    · rw [List.length_append, List.length_append, ← Nat.add_assoc, ← Nat.add_assoc]
      exact passes₃

end SkipCode
