import Mathlib.Data.Finset.Card
import Mathlib.Data.Finset.Range
import SkipCode.Proofs.Acquisition
import SkipCode.Proofs.Entries

/-!
# The life of handles

Handles are taken and released by the code for that, one after another and with other code in
between. Here every such event is told by what it does to the flags of the handle table
(`FlagStep`), and a sequence of them is followed from its start on.

* `Happens.flagStep`: one event;
* `FlagRun.handed`, `FlagRun.live`: which handles were given out, and which of them are live;
* `handles_apart`: where handles are not used again none is given out twice, and where they are the
  next one is refused exactly when as many are live as there may be.

The length of an array is an exact number up to `2 ^ 53`, so the table and the stack that a handle
is put on are taken to be no longer, and handles that are freed to be below that.
-/

namespace SkipCode

open Engine (Host Memory StoreKey eval execute)
open Lower (acquireActions)

/-- The code that takes a handle for a variable, where the handle table is in a slot. -/
structure Acquisition (c : Engine.Config) (config : LowerConfig) (slot : UInt32) (runner : Int64)
    (m : Memory) (v : Variable) (l : Location) (code : List Action) : Prop where
  emitted : ∃ s t owner, Attempt.run (ClassStorage.acquireHandle config v) s = (.ok (), t) ∧
    t.data.table = some (.plain owner .global slot) ∧ t.list.toList = s.list.toList ++ code
  holds : HandleVar ⟨c, runner⟩ m v l
  apart : l ≠ ⟨.global, slot⟩

/-- What can happen to handles. -/
inductive HandleEvent where
  | given (x : Binary64)
  | refused
  | freed (x : Binary64)
  /-- Anything that leaves the table alone. -/
  | other

/-- An event, and the memory behind it. A handle is given out where the code that takes one
completes, and refused where that aborts. A handle is freed by the last action of the code that
releases it, at a place that is an exact number. -/
inductive Happens (c : Engine.Config) (config : LowerConfig) (slot : UInt32) :
    Memory → HandleEvent → Memory → Prop
  | given {runner : Int64} {m m' : Memory} {v : Variable} {l : Location} {code : List Action}
      {steps : Nat} {x : Binary64} : Acquisition c config slot runner m v l code →
      Engine.runList ⟨c, m, runner, 0⟩ (.ofList code) runner =
        some (.ok .completed, ⟨c, m', runner, steps⟩) →
      eval ⟨c, m', runner⟩ v.get = .ok (.number x) → Happens c config slot m (.given x) m'
  | refused {runner : Int64} {m m' : Memory} {v : Variable} {l : Location} {code : List Action}
      {steps : Nat} : Acquisition c config slot runner m v l code →
      Engine.runList ⟨c, m, runner, 0⟩ (.ofList code) runner =
        some (.ok .aborted, ⟨c, m', runner, steps⟩) →
      Happens c config slot m .refused m'
  | freed {runner : Int64} {m m₁ m' : Memory} {s t : ClassStorage} {classes : ClassTable}
      {className owner : String} {handle : Element} {clears : List Action} {mark : Action}
        {w : Value} :
      Attempt.run (ClassStorage.release classes className handle) s = (.ok (), t) →
      t.data.table = some (.plain owner .global slot) →
      (∀ v ∈ t.data.fieldStacks, v.location ≠ ⟨.global, slot⟩) →
      t.list.toList = s.list.toList ++ (clears ++ [mark]) →
      Host.acts ⟨c, runner⟩ m clears = some m₁ → eval ⟨c, m₁, runner⟩ handle = .ok w →
      w.asNumber.toIndex < 2 ^ 53 →
      Host.act ⟨c, runner⟩ m₁ mark = some m' → Happens c config slot m (.freed w.asNumber) m'
  | other {m m' : Memory} : m'.get .global slot = m.get .global slot →
      Happens c config slot m .other m'

/-- Events one after another. -/
inductive HandleHistory (c : Engine.Config) (config : LowerConfig) (slot : UInt32) (m₀ : Memory) :
    List HandleEvent → Memory → Prop
  | start : HandleHistory c config slot m₀ [] m₀
  | later {events : List HandleEvent} {e : HandleEvent} {m m' : Memory} :
      HandleHistory c config slot m₀ events m → Happens c config slot m e m' →
      HandleHistory c config slot m₀ (events ++ [e]) m'

namespace HandleEvent

/-- The handles that were given out, in order. -/
def handed (events : List HandleEvent) : List Binary64 :=
  events.filterMap fun
    | .given x => some x
    | _ => none

/-- The handles that were given out and not freed since. -/
def live (events : List HandleEvent) : Finset Nat :=
  events.foldl (fun s e => match e with
    | .given x => insert x.toIndex s
    | .freed x => s.erase x.toIndex
    | _ => s) ∅

end HandleEvent

open HandleEvent (handed live)

/-- What an event does to the flags. -/
inductive FlagStep (config : LowerConfig) (taken : List Bool) : HandleEvent → List Bool → Prop
  | given : config.nextHandle taken < config.classCapacity.toNat →
      FlagStep config taken (.given (.ofNat (config.nextHandle taken)))
        (setFlag taken (config.nextHandle taken) true)
  | refused : config.classCapacity.toNat ≤ config.nextHandle taken →
      FlagStep config taken .refused taken
  | freed (x : Binary64) : FlagStep config taken (.freed x) (setFlag taken x.toIndex false)
  | other : FlagStep config taken .other taken

inductive FlagRun (config : LowerConfig) (taken₀ : List Bool) : List HandleEvent → List Bool → Prop
  | start : FlagRun config taken₀ [] taken₀
  | later {events : List HandleEvent} {e : HandleEvent} {taken taken' : List Bool} :
      FlagRun config taken₀ events taken → FlagStep config taken e taken' →
      FlagRun config taken₀ (events ++ [e]) taken'

/-! ## One event -/

variable {c : Engine.Config} {config : LowerConfig} {slot : UInt32} {runner : Int64}
  {m m' m₀ : Memory} {v : Variable} {l : Location} {code : List Action}
  {taken taken₀ taken' : List Bool} {events : List HandleEvent} {e : HandleEvent}

theorem HandleVar.set_shape {h : Host} (holds : HandleVar h m v l) (name : String) (x : Element) :
    ∃ st slot index value, v.set name x [] = .ok [.set st slot index value] := by
  cases holds <;> exact ⟨_, _, _, _, rfl⟩

namespace Acquisition

/-- The code is short, and nothing in it is refused. -/
theorem check (acquisition : Acquisition c config slot runner m v l code) :
    (ActionList.ofList code).check = .ok () ∧ code.length ≤ 6 := by
  obtain ⟨⟨s, t, owner, ran, known, list⟩, holds, -⟩ := acquisition
  obtain ⟨table, first, next, full, mark, acquires, known', list', -⟩ := run_acquireHandle_ok ran
  obtain rfl := Option.some.inj (known'.symm.trans known)
  obtain rfl := List.append_cancel_left (list'.symm.trans list)
  obtain ⟨st, s, index, value, set⟩ := holds.set_shape "new handle"
    (.countOf ((IndexedVar.plain owner .global slot).get none))
  obtain rfl := Except.ok.inj (acquires.next.symm.trans set)
  rw [acquires.mark]
  cases first with
  | none => exact ⟨rfl, show 4 ≤ 6 by decide⟩
  | some f =>
    obtain ⟨st', s', index', value', set'⟩ := holds.set_shape "new handle"
      (.indexOf ((IndexedVar.plain owner .global slot).get none) (.ofNat 0))
    obtain ⟨firsts, found⟩ := f
    obtain rfl := Except.ok.inj (acquires.first.1.symm.trans set')
    exact ⟨rfl, show 6 ≤ 6 by decide⟩

variable (inside : slot < c.globalCapacity)
  (capacity : config.classCapacity.toNat ≤ c.maxArrayLength)

include inside capacity

/-- Wherever the code stands, it takes the next handle or aborts. -/
theorem takes (acquisition : Acquisition c config slot runner m v l code)
    (flags : (m.get .global slot).IsFlags taken)
    (short : taken.length ≤ min c.maxArrayLength (2 ^ 53)) :
    ∃ n m', n ≤ 5 ∧ TakesHandle config ⟨c, runner⟩ slot v l taken m m' ∧
      ∀ (list : ActionList) (p : Nat), list.length < 2 ^ 63 → ActsAt list p code →
        ∀ steps, Host.Allows ⟨c, runner⟩ (steps + n) → ∀ fuel,
          execute list (n + fuel) p ⟨c, m, runner, steps⟩ =
            if config.nextHandle taken < config.classCapacity.toNat then
              execute list fuel (p + code.length) ⟨c, m', runner, steps + n⟩
            else some (.ok .aborted, ⟨c, m', runner, steps + n⟩) := by
  obtain ⟨⟨s, t, owner, ran, known, list⟩, holds, apart⟩ := acquisition
  obtain ⟨table, first, next, full, mark, acquires, known', list', policy⟩ :=
    run_acquireHandle_ok ran
  obtain rfl := Option.some.inj (known'.symm.trans known)
  obtain rfl := List.append_cancel_left (list'.symm.trans list)
  exact acquires.takes policy holds apart inside flags short capacity

/-- A list of nothing but the code, run from its start. -/
theorem run (acquisition : Acquisition c config slot runner m v l code)
    (flags : (m.get .global slot).IsFlags taken)
    (short : taken.length ≤ min c.maxArrayLength (2 ^ 53))
    (enough : Host.Allows ⟨c, runner⟩ 5) :
    ∃ n m', TakesHandle config ⟨c, runner⟩ slot v l taken m m' ∧
      Engine.runList ⟨c, m, runner, 0⟩ (.ofList code) runner =
        some (.ok (if config.nextHandle taken <
          config.classCapacity.toNat then .completed else .aborted),
          ⟨c, m', runner, n⟩) := by
  -- the code is short, so the fuel of a whole run is enough for it
  obtain ⟨n, m', few, took, runs⟩ := acquisition.takes inside capacity flags short
  obtain ⟨checked, length⟩ := acquisition.check
  -- the last of the fuel sees the end
  obtain ⟨more, fuel⟩ : ∃ more, Engine.fuel c = n + (more + 1) := by
    refine ⟨Engine.fuel c - n - 1, ?_⟩
    unfold Engine.fuel
    split
    · next limit known =>
      have : 5 ≤ limit := enough limit known
      omega
    · omega
  have ran := runs (.ofList code) 0 (Nat.lt_of_le_of_lt length (by decide)) (actsAt_ofList code) 0
    (fun limit known => Nat.le_trans (by omega) (enough limit known)) (more + 1)
  rw [Nat.zero_add, Nat.zero_add, Host.execute_at_end _ more (get?_behind code)] at ran
  refine ⟨n, m', took, ?_⟩
  rw [Engine.runList, checked]
  show execute _ (Engine.fuel c) 0 ⟨c, m, runner, 0⟩ = _
  rw [fuel, ran]
  split <;> rfl

end Acquisition

/-- The fields of an instance are in other slots than the table. -/
theorem FieldWrites.within {d : ClassData} {values : FieldSlot → Value} {handle : Element}
    {slots : List FieldSlot} {actions : List Action}
    (writes : FieldWrites d values handle slots actions) :
    ∀ a ∈ actions, a.Within (d.fieldStacks.map IndexedVar.location) := by
  induction writes with
  | nil => exact List.forall_mem_nil _
  | cons found _ _ ih =>
    refine List.forall_mem_append.2 ⟨IndexedVar.set_within ?_ _ _ _, ih⟩
    exact List.mem_map_of_mem (List.mem_of_getElem? found)

/-- A table of flags, no longer than an array may be, and of a length that is an exact number. -/
structure Tabled (c : Engine.Config) (slot : UInt32) (m : Memory) (taken : List Bool) : Prop where
  flags : (m.get .global slot).IsFlags taken
  short : taken.length ≤ min c.maxArrayLength (2 ^ 53)

/-- A flag is cleared by one write. -/
theorem Tabled.cleared {handle : Element} {w : Value} (tabled : Tabled c slot m taken)
    (evaluates : eval ⟨c, m, runner⟩ handle = .ok w) (small : w.asNumber.toIndex < 2 ^ 53)
    (done : Host.act ⟨c, runner⟩ m (.set .global slot (some handle) (.ofNat 0)) = some m') :
    Tabled c slot m' (setFlag taken w.asNumber.toIndex false) := by
  obtain ⟨key, value, i, known, hvalue, hi, -, -, -, bound, length, rfl⟩ :=
    Host.write_some_iff.1 done
  obtain rfl : StoreKey.global = key := by
    rw [Engine.storeKey] at known
    exact Except.ok.inj known
  rw [Element.ofNat, Location.eval_number] at hvalue
  obtain rfl : flag false = value := Except.ok.inj hvalue
  obtain rfl : w = i := Except.ok.inj (evaluates.symm.trans hi)
  rw [tabled.flags.items, setItem_flags] at length ⊢
  rw [List.length_map] at length
  have exact' : (setFlag taken w.asNumber.toIndex false).length ≤ 2 ^ 53 := by
    rw [length_setFlag]
    exact Nat.max_le.2 ⟨(Nat.le_min.1 tabled.short).2, small⟩
  refine ⟨?_, Nat.le_min.2 ⟨length, exact'⟩⟩
  rw [Memory.get_put, if_pos ⟨rfl, rfl⟩]
  exact .array _

/-- What an event does to the table. -/
theorem Happens.flagStep (inside : slot < c.globalCapacity)
    (capacity : config.classCapacity.toNat ≤ c.maxArrayLength)
    (enough : ∀ runner, Host.Allows ⟨c, runner⟩ 5) (happens : Happens c config slot m e m')
    (tabled : Tabled c slot m taken) :
    ∃ taken', Tabled c slot m' taken' ∧ FlagStep config taken e taken' := by
  -- what an acquisition does is known from its start, so it is compared with the run that there was
  obtain ⟨flags, short⟩ := tabled
  cases happens with
  | @given runner m m' v l code steps x acquisition completed read =>
    obtain ⟨n, m₁, took, ran⟩ :=
      acquisition.run inside capacity flags short (enough runner)
    rw [completed] at ran
    split at ran
    · next below =>
      cases ran
      have table := took.table
      rw [if_pos below] at table
      cases Value.number.inj (Except.ok.inj (read.symm.trans took.read))
      refine ⟨_, ⟨by rw [table]; exact .array _, ?_⟩, .given below⟩
      have bound := config.classCapacity.toNat_lt
      rw [length_setFlag]
      omega
    · cases ran
  | @refused runner m m' v l code steps acquisition aborted =>
    obtain ⟨n, m₁, took, ran⟩ :=
      acquisition.run inside capacity flags short (enough runner)
    rw [aborted] at ran
    split at ran
    · cases ran
    · next beyond =>
      cases ran
      have table := took.table
      rw [if_neg beyond] at table
      exact ⟨taken, ⟨table ▸ flags, short⟩, .refused (Nat.le_of_not_lt beyond)⟩
  | @freed runner m m₁ m' s t classes className owner handle clears mark w ran known apart list done
      evaluates small marked =>
    obtain ⟨slots, clears', table, -, writes, known', list'⟩ := ClassStorage.run_release_ok ran
    obtain rfl := Option.some.inj (known'.symm.trans known)
    have same := List.append_cancel_left (list'.symm.trans list)
    obtain ⟨rfl, e⟩ := List.append_inj' same rfl
    cases e
    -- the fields are cleared first, which leaves the table alone
    have kept := Host.acts_elsewhere writes.within done (l := ⟨.global, slot⟩) fun mem => by
      obtain ⟨v, stack, e⟩ := List.mem_map.1 mem
      exact apart v stack e
    have kept : m₁.get .global slot = m.get .global slot := kept
    exact ⟨_, Tabled.cleared ⟨kept ▸ flags, short⟩ evaluates small marked, .freed _⟩
  | other same => exact ⟨taken, ⟨same ▸ flags, short⟩, .other⟩

/-! ## All events -/

namespace HandleEvent

theorem handed_concat (events : List HandleEvent) (e : HandleEvent) :
    handed (events ++ [e]) = handed events ++ handed [e] := by
  rw [handed, List.filterMap_append]
  rfl

theorem live_concat (events : List HandleEvent) (e : HandleEvent) :
    live (events ++ [e]) = match e with
      | .given x => insert x.toIndex (live events)
      | .freed x => (live events).erase x.toIndex
      | _ => live events := by
  rw [live, List.foldl_append]
  rfl

end HandleEvent

theorem HandleHistory.flagRun (inside : slot < c.globalCapacity)
    (capacity : config.classCapacity.toNat ≤ c.maxArrayLength)
    (enough : ∀ runner, Host.Allows ⟨c, runner⟩ 5) (tabled : Tabled c slot m₀ taken₀)
    (history : HandleHistory c config slot m₀ events m) :
    ∃ taken, Tabled c slot m taken ∧ FlagRun config taken₀ events taken := by
  induction history with
  | start => exact ⟨taken₀, tabled, .start⟩
  | later _ happens ih =>
    obtain ⟨taken, tabled, run⟩ := ih
    obtain ⟨taken', tabled', step⟩ := happens.flagStep inside capacity enough tabled
    exact ⟨taken', tabled', run.later step⟩

namespace FlagRun

/-- A new handle is the number of flags, and there are never fewer than there were. -/
theorem handed (always : config.reuseHandles = false) (run : FlagRun config taken₀ events taken) :
    (handed events).Nodup ∧
      ∀ x ∈ handed events, ∃ k < taken.length, k < 2 ^ 32 ∧ x = .ofNat k := by
  induction run with
  | start => exact ⟨List.nodup_nil, List.forall_mem_nil _⟩
  | @later events e taken taken' _ step ih =>
    obtain ⟨nodup, old⟩ := ih
    rw [HandleEvent.handed_concat]
    cases step with
    | given below =>
      have next : config.nextHandle taken = taken.length := by
        rw [LowerConfig.nextHandle, always]
        rfl
      have bound := config.classCapacity.toNat_lt
      rw [next] at below ⊢
      rw [length_setFlag]
      -- the new handle is the length of the table, which none of the old ones reaches
      refine ⟨nodup.append (List.nodup_singleton _) (List.disjoint_singleton.2 fun mem => ?_),
        List.forall_mem_append.2 ⟨fun x mem => ?_,
          List.forall_mem_singleton.2 ⟨_, by omega, by omega, rfl⟩⟩⟩
      · obtain ⟨k, lt, small, same⟩ := old _ mem
        rw [Binary64.ofNat_inj (by omega) (by omega)] at same
        omega
      · obtain ⟨k, lt, small, same⟩ := old x mem
        exact ⟨k, by omega, small, same⟩
    | refused | other =>
      exact ⟨by simpa [HandleEvent.handed] using nodup, by simpa [HandleEvent.handed] using old⟩
    | freed x =>
      rw [length_setFlag]
      refine ⟨by simpa [HandleEvent.handed] using nodup, fun x mem => ?_⟩
      obtain ⟨k, lt, small, same⟩ := old x (by simpa [HandleEvent.handed] using mem)
      exact ⟨k, by omega, small, same⟩

/-- The flags show which handles are live. -/
theorem live (free : ∀ f ∈ taken₀, f = false) (run : FlagRun config taken₀ events taken) :
    (∀ i, taken.getD i false = true ↔ i ∈ live events) ∧
      ∀ i ∈ live events, i < config.classCapacity.toNat := by
  -- on the history: a flag is set with its handle given out, and cleared with it freed
  induction run with
  | start =>
    refine ⟨fun i => ⟨fun marked => ?_, fun mem => absurd mem (Finset.notMem_empty i)⟩,
      fun i mem => absurd mem (Finset.notMem_empty i)⟩
    rw [List.getD_eq_getElem?_getD] at marked
    cases found : taken₀[i]? with
    | none =>
      rw [found] at marked
      cases marked
    | some f =>
      rw [found, Option.getD_some, free f (List.mem_of_getElem? found)] at marked
      cases marked
  | @later events e taken taken' _ step ih =>
    obtain ⟨shown, bounded⟩ := ih
    rw [HandleEvent.live_concat]
    cases step with
    | given below =>
      have bound := config.classCapacity.toNat_lt
      dsimp only
      rw [Binary64.toIndex_ofNat (by omega)]
      refine ⟨fun i => ?_, fun i mem => ?_⟩
      · rw [getD_setFlag, Finset.mem_insert, ← shown i]
        split
        · next same => exact ⟨fun _ => Or.inl same, fun _ => rfl⟩
        · next other => exact ⟨Or.inr, fun h => h.resolve_left other⟩
      · rcases Finset.mem_insert.1 mem with rfl | mem
        · exact below
        · exact bounded i mem
    | refused | other => exact ⟨shown, bounded⟩
    | freed x =>
      refine ⟨fun i => ?_, fun i mem => bounded i (Finset.mem_of_mem_erase mem)⟩
      rw [getD_setFlag, Finset.mem_erase, ← shown i]
      split
      · next same => exact ⟨nofun, fun h => absurd same h.1⟩
      · next other => exact ⟨fun h => ⟨other, h⟩, And.right⟩

/-- With reuse there is a handle to give as long as there are fewer live ones than there may be. -/
theorem full_iff (reuse : config.reuseHandles = true) (free : ∀ f ∈ taken₀, f = false)
    (run : FlagRun config taken₀ events taken) :
    config.classCapacity.toNat ≤ config.nextHandle taken ↔
      (HandleEvent.live events).card = config.classCapacity.toNat := by
  obtain ⟨shown, bounded⟩ := run.live free
  have below : HandleEvent.live events ⊆ Finset.range config.classCapacity.toNat := fun i mem =>
    Finset.mem_range.2 (bounded i mem)
  rw [LowerConfig.nextHandle, if_pos reuse, le_findIdx_free_iff]
  simp only [shown]
  -- the live handles are as many as there may be when they are all that there may be
  constructor
  · intro all
    have same := Finset.Subset.antisymm below fun i mem => all i (Finset.mem_range.1 mem)
    rw [same, Finset.card_range]
  · intro full i lt
    rw [Finset.eq_of_subset_of_card_le below (by rw [Finset.card_range, full])]
    exact Finset.mem_range.2 lt

end FlagRun

/-- Where the handle table holds flags, the code that takes a handle puts the next one into its
variable, and goes on with it marked or aborts. So handles that are not used again are never given
out twice. With reuse a handle is refused exactly when as many are live as there may be, if none was
taken at the start. -/
theorem handles_apart (c : Engine.Config) (config : LowerConfig) (slot : UInt32)
    (inside : slot < c.globalCapacity)
    (capacity : config.classCapacity.toNat ≤ c.maxArrayLength) :
    (∀ runner m v l code taken, Acquisition c config slot runner m v l code →
      Tabled c slot m taken →
      ∃ n m', n ≤ 5 ∧ TakesHandle config ⟨c, runner⟩ slot v l taken m m' ∧
        ∀ (list : ActionList) (p : Nat), list.length < 2 ^ 63 → ActsAt list p code →
          ∀ steps, Host.Allows ⟨c, runner⟩ (steps + n) → ∀ fuel,
            execute list (n + fuel) p ⟨c, m, runner, steps⟩ =
              if config.nextHandle taken < config.classCapacity.toNat then
                execute list fuel (p + code.length) ⟨c, m', runner, steps + n⟩
              else some (.ok .aborted, ⟨c, m', runner, steps + n⟩)) ∧
    ∀ m₀ taken₀ events m, (∀ steps, c.maxSteps = some steps → 5 ≤ steps) → Tabled c slot m₀ taken₀ →
      HandleHistory c config slot m₀ events m →
        (config.reuseHandles = false → (handed events).Nodup) ∧
        (config.reuseHandles = true → (∀ f ∈ taken₀, f = false) → ∀ runner v l code,
          Acquisition c config slot runner m v l code → ∃ outcome e,
            Engine.runList ⟨c, m, runner, 0⟩ (.ofList code) runner = some (.ok outcome, e) ∧
              (outcome = .aborted ↔ (live events).card = config.classCapacity.toNat)) := by
  refine ⟨fun runner m v l code taken acquisition tabled =>
    acquisition.takes inside capacity tabled.flags tabled.short, ?_⟩
  intro m₀ taken₀ events m enough tabled history
  -- the events and the flags of the table tell the same
  obtain ⟨taken, tabled, run⟩ := history.flagRun inside capacity (fun _ => enough) tabled
  refine ⟨fun always => (run.handed always).1, fun reuse free runner v l code acquisition => ?_⟩
  obtain ⟨n, m', -, ran⟩ :=
    acquisition.run inside capacity tabled.flags tabled.short
      (enough : Host.Allows ⟨c, runner⟩ 5)
  refine ⟨_, _, ran, ?_⟩
  rw [← run.full_iff reuse free]
  split
  · next below => exact ⟨nofun, fun full => absurd below (Nat.not_lt.2 full)⟩
  · next beyond => exact ⟨fun _ => Nat.le_of_not_lt beyond, fun _ => rfl⟩

section Shown

/-- The table is in the first slot of the shared store. -/
def tableStorage : ClassStorage :=
  ⟨⟨some (.plain "__class_handles" .global 0), [], []⟩, .new .global 10 false, .empty⟩

def handlesUpTo (capacity : UInt32) :
    LowerConfig := { LowerConfig.default with classCapacity := capacity }

/-- The second of two handles is free, and an actor has a stack. -/
def halfTaken : Memory :=
  (Memory.empty.set .global 0 (.array [flag true, flag false])).set (.actor 1) 4
    (.array [.bool true, .neutral])

/-- A handle is put on the stack. Of one handle the second one is refused. -/
theorem handles_apart_stack :
    (∃ m' : Memory, m'.get .global 0 = .array [flag true, flag true] ∧
      m'.get (.actor 1) 4 = .array [.bool true, .number (.ofNat 1)]) ∧
    ∃ code m' steps e, Engine.runList ⟨⟨10, 10, 3, some 100⟩, .empty, 1, 0⟩ (.ofList code) 1 =
        some (.ok .completed, ⟨⟨10, 10, 3, some 100⟩, m', 1, steps⟩) ∧
      Engine.runList ⟨⟨10, 10, 3, some 100⟩, m', 1, 0⟩ (.ofList code) 1 =
        some (.ok .aborted, e) := by
  constructor
  · have items : ((Host.mk ⟨10, 10, 3, some 100⟩ 1).value halfTaken ⟨.actor, 4⟩).items =
        [.bool true] ++ [.neutral] := rfl
    have acquisition : ∃ code, Acquisition ⟨10, 10, 3, some 100⟩ (handlesUpTo 2) 0 1 halfTaken
        (.recursive ⟨.plain "a" .actor 4, 1⟩) ⟨.actor, 4⟩ code :=
      ⟨_, ⟨tableStorage, _, _, rfl, rfl, rfl⟩, .stack "a" ⟨.actor, 4⟩ 1
        (show (4 : UInt32) < 10 by decide) items (by decide), by decide⟩
    obtain ⟨code, acquisition⟩ := acquisition
    obtain ⟨n, m', -, took, -⟩ := (handles_apart _ (handlesUpTo 2) 0 (by decide)
      (by decide)).1 1 halfTaken _ _ code [true, false] acquisition
        ⟨.array [true, false], by decide⟩
    exact ⟨m', took.table, took.value⟩
  · have acquisition : ∃ code, (∀ m, Acquisition ⟨10, 10, 3, some 100⟩ (handlesUpTo 1) 0 1 m
        (.indexed (.plain "a" .global 1)) ⟨.global, 1⟩ code) ∧ ∃ m' steps,
          Engine.runList ⟨⟨10, 10, 3, some 100⟩, .empty, 1, 0⟩ (.ofList code) 1 =
            some (.ok .completed, ⟨⟨10, 10, 3, some 100⟩, m', 1, steps⟩) ∧
          eval ⟨⟨10, 10, 3, some 100⟩, m', 1⟩ ((Variable.indexed (.plain "a" .global 1)).get) =
            .ok (.number (.ofNat 0)) :=
      ⟨_, fun m => ⟨⟨tableStorage, _, _, rfl, rfl, rfl⟩, .plain "a" ⟨.global, 1⟩
        (show (1 : UInt32) < 10 by decide), by decide⟩, _, _, rfl, rfl⟩
    obtain ⟨code, acquisition, m', steps, completed, read⟩ := acquisition
    have history : HandleHistory ⟨10, 10, 3, some 100⟩
      (handlesUpTo 1) 0 .empty [.given (.ofNat 0)] m' :=
      .later .start (.given (acquisition .empty) completed read)
    obtain ⟨outcome, e, ran, full⟩ := ((handles_apart _ (handlesUpTo 1) 0 (by decide)
      (by decide)).2 .empty [] _ m' (fun steps known => by
        cases known; decide) ⟨.neutral, by decide⟩
      history).2 rfl (List.forall_mem_nil _) 1 _ _ code (acquisition m')
    rw [full.2 rfl] at ran
    exact ⟨code, m', steps, e, completed, ran⟩

/-- Three flags, where arrays may have two items. -/
def longTable : Memory := Memory.empty.set .global 0 (.array ([false, true, true].map flag))

/-- A table that is longer than arrays may be is not written any more, and lost. -/
theorem long_table_lost : ∃ code e,
    Acquisition ⟨10, 10, 2, some 100⟩ (handlesUpTo 2) 0 1 longTable
      (.indexed (.plain "a" .global 1))
        ⟨.global, 1⟩ code ∧
      (longTable.get .global 0).IsFlags [false, true, true] ∧
      (handlesUpTo 2).nextHandle [false, true, true] < (handlesUpTo 2).classCapacity.toNat ∧
      Engine.runList ⟨⟨10, 10, 2, some 100⟩, longTable, 1, 0⟩ (.ofList code) 1 =
        some (.error (.fault 5 (.arrayTooLong 3 2)), e) ∧
      e.memory.get .global 0 = .neutral :=
  ⟨_, _, ⟨⟨tableStorage, _, _, rfl, rfl, rfl⟩,
    .plain "a" ⟨.global, 1⟩ (show (1 : UInt32) < 10 by decide),
    by decide⟩, .array _, by decide, rfl, rfl⟩

end Shown

end SkipCode
