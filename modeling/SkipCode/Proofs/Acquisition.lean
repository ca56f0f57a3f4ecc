import SkipCode.Proofs.DeepWrites
import SkipCode.Proofs.ExprLayout
import SkipCode.Proofs.Typing

/-!
# Taking a handle

The code that takes a handle searches the handle table, skips over the choice of a new handle if it
found a free one, and skips over an `abort` if the handle is below the capacity. Here it is gone
through step by step, wherever it stands in a list.

* `HandleVar.write`: a handle is put into a variable, which may be a stack;
* `Lower.Acquires.chooses`: the handle that is chosen is `LowerConfig.nextHandle`;
* `Lower.Acquires.takes`: below the capacity it is marked, else the run aborts.
-/

namespace SkipCode

open Engine (Host Memory StoreKey eval execute setItem)
open Engine.Host (Runs)
open Lower (Acquires acquireActions)

/-! ## Flags -/

/-- The flag of a handle: one if it is taken, zero if it is free. -/
def flag (taken : Bool) : Value := .number (.ofNat taken.toNat)

/-- What the handle table holds: a flag for every handle, or nothing yet. -/
inductive Value.IsFlags : Value → List Bool → Prop
  | neutral : IsFlags .neutral []
  | array (taken : List Bool) : IsFlags (.array (taken.map flag)) taken

/-- The flags with that of a handle replaced. Where there are too few, free ones are put before it.
-/
def setFlag : List Bool → Nat → Bool → List Bool
  | [], k, b => List.replicate k false ++ [b]
  | _ :: rest, 0, b => b :: rest
  | f :: rest, k + 1, b => f :: setFlag rest k b

/-- The handle that is taken next: the first free one, or a new one. -/
def LowerConfig.nextHandle (config : LowerConfig) (taken : List Bool) : Nat :=
  if config.reuseHandles then taken.findIdx (!·) else taken.length

variable {taken : List Bool} {whole : Value} {k j : Nat} {b : Bool}

theorem flag_injective {b b' : Bool} (same : flag b = flag b') : b = b' := by
  have same : b.toNat = b'.toNat :=
    (Binary64.ofNat_inj (by cases b <;> decide) (by cases b' <;> decide)).1 (Value.number.inj same)
  cases b <;> cases b' <;> first | rfl | cases same

theorem Value.IsFlags.items (flags : whole.IsFlags taken) : whole.items = taken.map flag := by
  cases flags <;> rfl

theorem setItem_flags (taken : List Bool) (k : Nat) (b : Bool) :
    setItem (taken.map flag) k (flag b) = (setFlag taken k b).map flag := by
  induction taken generalizing k with
  | nil =>
    rw [setFlag, List.map_append, List.map_replicate]
    rfl
  | cons f rest ih =>
    cases k with
    | zero => rfl
    | succ k => exact congrArg (flag f :: ·) (ih k)

theorem length_setFlag (taken : List Bool) (k : Nat) (b : Bool) :
    (setFlag taken k b).length = max taken.length (k + 1) := by
  have := Engine.length_setItem (taken.map flag) k (flag b)
  rwa [setItem_flags, List.length_map, List.length_map] at this

theorem getD_flags (taken : List Bool) (j : Nat) :
    (taken.map flag).getD j .neutral = flag (taken.getD j false) := by
  rw [List.getD_eq_getElem?_getD, List.getElem?_map, List.getD_eq_getElem?_getD]
  cases taken[j]? <;> rfl

/-- Only the flag of that handle changes. -/
theorem getD_setFlag (taken : List Bool) (k j : Nat) (b : Bool) :
    (setFlag taken k b).getD j false = if j = k then b else taken.getD j false := by
  refine flag_injective ?_
  rw [← getD_flags, ← setItem_flags, Engine.getD_setItem, getD_flags]
  split <;> rfl

/-- The first free handle is the least one without a flag. -/
theorem le_findIdx_free_iff {n : Nat} :
    n ≤ taken.findIdx (!·) ↔ ∀ i < n, taken.getD i false = true := by
  induction taken generalizing n with
  | nil =>
    cases n with
    | zero => exact ⟨fun _ _ => nofun, fun _ => Nat.zero_le _⟩
    | succ n => exact ⟨nofun, fun all => nomatch all 0 n.succ_pos⟩
  | cons f rest ih =>
    cases n with
    | zero => exact ⟨fun _ _ => nofun, fun _ => Nat.zero_le _⟩
    | succ n =>
      cases f with
      | false => exact ⟨nofun, fun all => nomatch all 0 n.succ_pos⟩
      | true =>
        show n + 1 ≤ (true :: rest).findIdx (!·) ↔ _
        rw [List.findIdx_cons, Nat.forall_lt_succ_left]
        show n + 1 ≤ rest.findIdx (!·) + 1 ↔ _
        rw [Nat.succ_le_succ_iff, ih]
        exact ⟨fun all => ⟨rfl, all⟩, And.right⟩

/-- The search finds the first free handle. -/
theorem indexOf_flags (flags : whole.IsFlags taken) : Engine.indexOf whole (flag false) =
    match taken.findIdx? (!·) with
    | some k => .number (.ofNat k)
    | none => .number (.ofInt (-1)) := by
  have free : (fun v : Value => v.looselyEquals (flag false)) ∘ flag = (!·) :=
    funext fun b => by cases b <;> rfl
  have found := congrArg (fun p => taken.findIdx? p) free
  rw [← List.findIdx?_map, ← flags.items] at found
  unfold Engine.indexOf
  cases position : taken.findIdx? (!·) <;> simp only [found, position]

theorem LowerConfig.nextHandle_le (config : LowerConfig) (taken : List Bool) :
    config.nextHandle taken ≤ taken.length := by
  unfold nextHandle
  split
  · exact List.findIdx_le_length
  · exact Nat.le_refl _

/-! ## Variables of handles -/

/-- A variable that a handle can be put into: a whole slot, or a stack that has a top, and whose
length may be stored and is an exact number. -/
inductive HandleVar (h : Host) (m : Memory) : Variable → Location → Prop
  | plain (name : String) (l : Location) : h.Holds l →
      HandleVar h m (.indexed (.plain name l.pool l.slot)) l
  | stack (name : String) (l : Location) (opened : Nat) {below : List Value} {top : Value} :
      h.Holds l →
      (h.value m l).items = below ++ [top] →
      (below ++ [top]).length ≤ min h.config.maxArrayLength (2 ^ 53) →
      HandleVar h m (.recursive ⟨.plain name l.pool l.slot, opened⟩) l

/-- What is in the slot of a variable when a value was put into it: of a stack only the top is
another. -/
def Variable.written : Variable → Value → Value → Value
  | .indexed _, _, x => x
  | .recursive _, old, x => .array (old.items.dropLast ++ [x])
  | .reference _, old, _ => old

/-- A number is put into a variable, and nothing else happens. -/
structure Puts (h : Host) (m : Memory) (v : Variable) (l : Location) (x : Binary64) (m' : Memory) :
    Prop where
  value : h.value m' l = v.written (h.value m l) (.number x)
  beside : m.SameBeside m' (h.key l.pool) l.slot
  holds : HandleVar h m' v l
  read : eval (h.context m') v.get = .ok (.number x)

variable {h : Host} {m m' m'' : Memory} {v : Variable} {l : Location} {x y : Binary64}
  {slot : UInt32}

theorem Engine.Host.key_apart (apart : l ≠ ⟨.global, slot⟩) :
    ¬ (h.key l.pool = .global ∧ l.slot = slot) := by
  rintro ⟨key, rfl⟩
  have pool : l.pool = .global := h.key_injective key
  exact apart (by rw [← pool])

namespace Puts

/-- What is put last counts. -/
theorem trans (first : Puts h m v l x m') (second : Puts h m' v l y m'') : Puts h m v l y m'' := by
  refine ⟨?_, fun other s apart => (second.beside other s apart).trans (first.beside other s apart),
    second.holds, second.read⟩
  rw [second.value, first.value]
  cases v with
  | indexed | reference => rfl
  | recursive =>
    rw [Variable.written, Variable.written, Value.items_array, List.dropLast_concat,
      Variable.written]

theorem elsewhere (puts : Puts h m v l x m') (apart : l ≠ ⟨.global, slot⟩) :
    m'.get .global slot = m.get .global slot :=
  puts.beside .global slot fun ⟨key, same⟩ => Host.key_apart apart ⟨key.symm, same.symm⟩

end Puts

namespace HandleVar

/-- What a variable has depends on its slot. -/
theorem congr (holds : HandleVar h m v l) (same : h.value m' l = h.value m l) :
    HandleVar h m' v l ∧ eval (h.context m') v.get = eval (h.context m) v.get := by
  cases holds with
  | plain name l inside =>
    refine ⟨.plain name l inside, ?_⟩
    show eval _ (l.root none) = eval _ (l.root none)
    rw [Location.eval_root inside, Location.eval_root inside, same]
  | stack name l opened inside items short =>
    exact ⟨.stack name l opened inside (same ▸ items) short,
      Location.eval_lastOf_congr (congrArg Value.items same)⟩

/-- A number is put into a variable by one write, whatever else is in the memory. -/
theorem write (holds : HandleVar h m v l) {e : Element} (name : String)
    (evaluates : eval (h.context m) e = .ok (.number x)) :
    ∃ st slot index value m', v.set name e [] = .ok [.set st slot index value] ∧
      h.write m st slot index value = some m' ∧ Puts h m v l x m' := by
  cases holds with
  | plain name l inside =>
    have there : h.value (m.set (h.key l.pool) l.slot (.number x)) l = .number x :=
      (Memory.get_set ..).trans (if_pos ⟨rfl, rfl⟩)
    refine ⟨l.store none, l.slot, none, e, _, rfl, Host.write_none_iff.2 ⟨_, _,
      Location.storeKey_eq h m l, evaluates, Host.checkSlot_eq inside, Nat.zero_le _, rfl⟩, there,
      fun other s apart => ?_, .plain name l inside, ?_⟩
    · rw [Memory.get_set, if_neg apart]
    · show eval _ (l.root none) = _
      rw [Location.eval_root inside, there]
  | @stack name l opened below top inside items short =>
    -- only the top is another then
    obtain ⟨writable, small⟩ := Nat.le_min.1 short
    have done := Location.setTop_eq inside evaluates items small writable
    have there : h.value (m.put (h.key l.pool) l.slot (.array (below ++ [.number x]))) l =
        .array (below ++ [.number x]) := (Memory.get_put ..).trans (if_pos ⟨rfl, rfl⟩)
    refine ⟨l.store none, l.slot, some (l.top none), e, _, rfl, done, ?_, fun other s apart => ?_,
      .stack name l opened inside (congrArg Value.items there) (by simpa using short), ?_⟩
    · rw [there, Variable.written, items, List.dropLast_concat]
    · rw [Memory.get_put, if_neg apart]
    · show eval _ (.lastOf (l.root none)) = _
      rw [eval, Location.eval_root inside, there]
      simp [bind, Except.bind, pure, Except.pure]

end HandleVar

/-! ## The choice -/

namespace Lower

/-- What comes before the check of a handle. -/
def choiceActions (first : Option (List Action × Element)) (next : List Action) : List Action :=
  (match first with
    | some (first, found) => first ++ [.skipIf found (some (Int32.ofNat next.length))]
    | none => []) ++ next

theorem acquireActions_eq (first : Option (List Action × Element)) (next : List Action)
    (full : Element) (mark : List Action) : acquireActions first next full mark =
      choiceActions first next ++ [.skipIf full (some 1), .abort] ++ mark := rfl

end Lower

theorem eval_table (owner : String) (inside : slot < h.config.globalCapacity) :
    eval (h.context m) ((IndexedVar.plain owner .global slot).get none) =
      .ok (m.get .global slot) :=
  IndexedVar.eval_store (v := .plain owner .global slot) rfl inside

/-- The test whether a free handle was found. -/
theorem guard_found (read : eval (h.context m) v.get = .ok (.number x)) :
    h.guard m (.compare v.get .notEqual (.number (.ofInt (-1)))) =
      some (!x.equal (.ofInt (-1))) := by
  rw [Host.guard, eval, read, eval]
  rfl

section Choice

variable {config : LowerConfig} {owner : String} {first : Option (List Action × Element)}
  {next mark : List Action} {full : Element}

/-- The handle that is next is put into the variable, wherever the code stands. -/
theorem Lower.Acquires.chooses
    (acquires : Acquires config v (.plain owner .global slot) first next full mark)
    (policy : first.isSome = config.reuseHandles) (holds : HandleVar h m v l)
    (apart : l ≠ ⟨.global, slot⟩) (inside : slot < h.config.globalCapacity)
    (flags : (m.get .global slot).IsFlags taken) (small : taken.length ≤ 2 ^ 53) :
    ∃ n m', n ≤ 3 ∧ Puts h m v l (.ofNat (config.nextHandle taken)) m' ∧
      ∀ (list : ActionList) (p : Nat),
      list.length < 2 ^ 63 → ActsAt list p (choiceActions first next) →
        p + (choiceActions first next).length ≤ list.length →
          Runs h list n p m (p + (choiceActions first next).length) m' := by
  -- a new handle is the number of flags
  have counted {m₁ : Memory} (holds : HandleVar h m₁ v l)
      (same : m₁.get .global slot = m.get .global slot) : ∃ a m', next = [a] ∧
        h.act m₁ a = some m' ∧ Puts h m₁ v l (.ofNat taken.length) m' := by
    have count := Location.eval_countOf (eval_table (m := m₁) owner inside)
    rw [same, flags.items, List.length_map] at count
    obtain ⟨st, s, index, value, m', set, done, puts⟩ := holds.write "new handle" count
    exact ⟨_, m', Except.ok.inj (acquires.next.symm.trans set), done, puts⟩
  cases first with
  | none =>
    obtain ⟨a, m', rfl, done, puts⟩ := counted holds rfl
    have always : config.nextHandle taken = taken.length := by
      rw [LowerConfig.nextHandle, ← policy]
      rfl
    rw [always]
    exact ⟨1, m', by decide, puts, fun list p _ here _ =>
      .next (step_act here.head done) (.refl _ _)⟩
  | some f =>
    obtain ⟨firsts, found⟩ := f
    obtain ⟨searches, rfl⟩ := acquires.first
    have reuse : config.nextHandle taken = taken.findIdx (!·) := by
      rw [LowerConfig.nextHandle, ← policy]
      rfl
    have search :
      eval (h.context m) (.indexOf ((IndexedVar.plain owner .global slot).get none) (.ofNat 0)) =
        .ok (Engine.indexOf (m.get .global slot) (flag false)) := by
      rw [eval, eval_table owner inside, Element.ofNat, eval]
      rfl
    rw [indexOf_flags flags] at search
    rw [reuse]
    -- the search finds the first free handle, or says with -1 that there is none
    cases position : taken.findIdx? (!·) with
    | some k =>
      -- the choice of a new handle is skipped
      obtain ⟨lt, rfl⟩ := List.findIdx?_eq_some_iff_findIdx_eq.1 position
      rw [position] at search
      obtain ⟨st, s, index, value, m₁, set, done, puts⟩ := holds.write "new handle" search
      obtain ⟨a, -, rfl, -⟩ := counted puts.holds (puts.elsewhere apart)
      obtain rfl := Except.ok.inj (searches.symm.trans set)
      have differs := guard_found puts.read
      rw [Binary64.equal_comm, Binary64.not_equal_ofNat _ (by omega)] at differs
      refine ⟨2, m₁, by decide, puts, fun list p short here room => ?_⟩
      have there := guardAt_over short (by decide : 1 < 2 ^ 31) here.tail.head room
      exact .next (step_act here.head done) (.next (step_guard_true there differs) (.refl _ _))
    | none =>
      have all : taken.findIdx (!·) = taken.length :=
        List.findIdx_eq_length.2 (List.findIdx?_eq_none_iff.1 position)
      rw [position] at search
      obtain ⟨st, s, index, value, m₁, set, done, puts⟩ := holds.write "new handle" search
      obtain ⟨a, m₂, rfl, done', puts'⟩ := counted puts.holds (puts.elsewhere apart)
      obtain rfl := Except.ok.inj (searches.symm.trans set)
      have same : h.guard m₁ (.compare v.get .notEqual (.number (.ofInt (-1)))) = some false :=
        guard_found puts.read
      rw [all]
      refine ⟨3, m₂, by decide, puts.trans puts', fun list p short here room => ?_⟩
      have there := guardAt_over short (by decide : 1 < 2 ^ 31) here.tail.head room
      exact .next (step_act here.head done) (.next (step_guard_false there same)
        (.next (step_act here.tail.tail.head done') (.refl _ _)))

/-! ## The check -/

/-- The handle that a variable has is marked as taken. -/
theorem mark_done (read : eval (h.context m) v.get = .ok (.number (.ofNat k)))
    (inside : slot < h.config.globalCapacity) (flags : (m.get .global slot).IsFlags taken)
    (small : k ≤ 2 ^ 53) (short : taken.length ≤ h.config.maxArrayLength)
    (below : k < h.config.maxArrayLength) :
    h.act m (.set .global slot (some v.get) (.ofNat 1)) =
      some (m.put .global slot (.array ((setFlag taken k true).map flag))) := by
  -- a handle is a whole number below the limit of the engine, so the index of the write is the
  -- handle
  have whole := Binary64.isWhole_ofNat small
  have index : (Value.number (.ofNat k)).asNumber.toIndex = k := Binary64.toIndex_ofNat small
  have one : eval (h.context m) (.ofNat 1) = .ok (flag true) := Location.eval_number _
  refine Host.write_some_iff.2 ⟨.global, _, _, by rw [Engine.storeKey], one, read, if_pos inside,
    whole.not_less_zero, whole.finite, ?_, ?_, ?_⟩
  · rw [index]
    exact below
  · rw [index, flags.items, setItem_flags, List.length_map, length_setFlag]
    omega
  · rw [index, flags.items, setItem_flags]

theorem guard_below (read : eval (h.context m) v.get = .ok (.number (.ofNat k)))
    (small : k ≤ 2 ^ 53) (capacity : UInt32) :
    h.guard m (.compare v.get .less (.ofNat capacity.toNat)) =
      some (decide (k < capacity.toNat)) := by
  have limit := capacity.toNat_lt
  have less : (Binary64.ofNat k).less (.ofNat capacity.toNat) = decide (k < capacity.toNat) := by
    rw [Bool.eq_iff_iff, Binary64.less_ofNat_iff small (by omega), decide_eq_true_eq]
  rw [Host.guard, eval, read, Element.ofNat, eval, ← less]
  rfl

/-- What there is behind the code that takes a handle. Beyond the capacity the run does not go on,
and the flags are as they were. -/
structure TakesHandle (config : LowerConfig) (h : Host) (slot : UInt32) (v : Variable)
    (l : Location) (taken : List Bool) (m m' : Memory) : Prop where
  value : h.value m' l = v.written (h.value m l) (.number (.ofNat (config.nextHandle taken)))
  read : eval (h.context m') v.get = .ok (.number (.ofNat (config.nextHandle taken)))
  table : m'.get .global slot =
    if config.nextHandle taken < config.classCapacity.toNat then
      .array ((setFlag taken (config.nextHandle taken) true).map flag)
    else m.get .global slot
  beside : ∀ key s, ¬ (key = h.key l.pool ∧ s = l.slot) → ¬ (key = .global ∧ s = slot) →
    m'.get key s = m.get key s

/-- The run up to the check of the handle, and what stands there: a guard over an abort. -/
theorem Lower.Acquires.checks
    (acquires : Acquires config v (.plain owner .global slot) first next full mark)
    (policy : first.isSome = config.reuseHandles) (holds : HandleVar h m v l)
    (apart : l ≠ ⟨.global, slot⟩) (inside : slot < h.config.globalCapacity)
    (flags : (m.get .global slot).IsFlags taken) (small : taken.length ≤ 2 ^ 53) :
    ∃ n m', n ≤ 3 ∧ Puts h m v l (.ofNat (config.nextHandle taken)) m' ∧
      h.guard m' full = some (decide (config.nextHandle taken < config.classCapacity.toNat)) ∧
      ∀ (list : ActionList) (p : Nat), list.length < 2 ^ 63 →
        ActsAt list p (acquireActions first next full mark) →
          ∃ q, Runs h list n p m q m' ∧ GuardAt list q full (q + 2) ∧
            list.get? (q + 1) = some .abort ∧ ActsAt list (q + 2) mark ∧
            q + 2 + mark.length = p + (acquireActions first next full mark).length := by
  obtain ⟨n, m', few, puts, runs⟩ := acquires.chooses policy holds apart inside flags small
  have check := guard_below puts.read (Nat.le_trans (config.nextHandle_le taken) small)
    config.classCapacity
  rw [← acquires.full] at check
  refine ⟨n, m', few, puts, check, fun list p long here => ?_⟩
  -- the choice, the check and the mark stand behind each other
  obtain ⟨front, markAt⟩ := ActsAt.append.1 here
  obtain ⟨choiceAt, checkAt⟩ := ActsAt.append.1 front
  rw [List.length_append, ← Nat.add_assoc] at markAt
  refine ⟨_, runs list p long choiceAt (Nat.le_of_lt (lt_of_get? checkAt.head)),
    guardAt_over long (by decide : 1 < 2 ^ 31) checkAt.head (lt_of_get? checkAt.tail.head),
    checkAt.tail.head, markAt, ?_⟩
  rw [acquireActions_eq, List.length_append, List.length_append, ← Nat.add_assoc, ← Nat.add_assoc]
  rfl

/-- A handle is taken, wherever the code stands: the run goes on behind it if the handle is below
the capacity, and aborts if it is not. -/
theorem Lower.Acquires.takes
    (acquires : Acquires config v (.plain owner .global slot) first next full mark)
    (policy : first.isSome = config.reuseHandles) (holds : HandleVar h m v l)
    (apart : l ≠ ⟨.global, slot⟩) (inside : slot < h.config.globalCapacity)
    (flags : (m.get .global slot).IsFlags taken)
    (short : taken.length ≤ min h.config.maxArrayLength (2 ^ 53))
    (capacity : config.classCapacity.toNat ≤ h.config.maxArrayLength) :
    ∃ n m', n ≤ 5 ∧ TakesHandle config h slot v l taken m m' ∧ ∀ (list : ActionList) (p : Nat),
      list.length < 2 ^ 63 → ActsAt list p (acquireActions first next full mark) →
        ∀ steps, h.Allows (steps + n) → ∀ fuel, execute list (n + fuel) p (h.engine m steps) =
          if config.nextHandle taken < config.classCapacity.toNat then
            execute list fuel (p + (acquireActions first next full mark).length)
              (h.engine m' (steps + n))
          else some (.ok .aborted, h.engine m' (steps + n)) := by
  obtain ⟨writable, small⟩ := Nat.le_min.1 short
  obtain ⟨n, m₁, few, puts, check, reaches⟩ :=
    acquires.checks policy holds apart inside flags small
  have same := puts.elsewhere apart
  by_cases below : config.nextHandle taken < config.classCapacity.toNat
  · obtain rfl : mark = [.set .global slot (some v.get) (.ofNat 1)] := acquires.mark
    have done := mark_done puts.read inside (same ▸ flags)
      (Nat.le_trans (config.nextHandle_le taken) small) writable (by omega)
    -- the table is another slot, so the mark leaves the variable alone
    have kept : h.value (m₁.put .global slot (.array
        ((setFlag taken (config.nextHandle taken) true).map flag))) l = h.value m₁ l := by
      rw [Host.value, Memory.get_put, if_neg (Host.key_apart apart)]
      rfl
    obtain ⟨-, read⟩ := puts.holds.congr kept
    refine ⟨n + 2, _, by omega, ⟨kept.trans puts.value, read.trans puts.read, ?_,
      fun key s other other' => ?_⟩,
      fun list p long here steps allowed fuel => ?_⟩
    · rw [Memory.get_put, if_pos ⟨rfl, rfl⟩, if_pos below]
    · rw [Memory.get_put, if_neg other', puts.beside key s other]
    · -- the abort is skipped, and the handle is marked
      obtain ⟨q, choice, guarded, -, markAt, behind⟩ := reaches list p long here
      rw [decide_eq_true below] at check
      have all := choice.trans (.next (step_guard_true guarded check)
        (.next (step_act markAt.head done) (.refl _ _)))
      rw [if_pos below, Host.execute_of_runs all allowed, ← behind]
      rfl
  · refine ⟨n + 2, m₁, by omega, ⟨puts.value, puts.read, ?_,
      fun key s other _ => puts.beside key s other⟩,
      fun list p long here steps allowed fuel => ?_⟩
    · rw [if_neg below, same]
    · obtain ⟨q, choice, guarded, abortAt, -, -⟩ := reaches list p long here
      rw [decide_eq_false below] at check
      have all := choice.trans (.next (step_guard_false guarded check) (.refl _ _))
      have allowed' : h.Allows (steps + (n + 1)) := fun limit known =>
        Nat.le_trans (by omega) (allowed limit known)
      have aborts := Host.execute_at_abort (m := m₁) abortAt
        (show h.Allows (steps + (n + 1) + 1) from allowed) fuel
      rw [if_neg below, show n + 2 + fuel = n + 1 + (fuel + 1) by omega]
      exact (Host.execute_of_runs all allowed' _).trans aborts

end Choice

end SkipCode
