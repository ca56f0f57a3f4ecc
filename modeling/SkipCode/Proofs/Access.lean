import SkipCode.Proofs.Host
import SkipCode.Proofs.Footprint

/-!
# What a run touches

Whatever a run does to the stores it does through the cells that its list mentions. A `Trail` leads
from where a run is to every engine that it comes through, so what is said of trails is said of runs
that end, that fail and that go on for ever.

* `eval_inside`: an element that mentions no slot outside the stores has a value;
* `eval_agrees`: it depends on the cells that the element mentions and on nothing else;
* `Trail.writes`: a run writes nothing but what its list mentions;
* `execute_within`: a list that passes its check and mentions no slot outside the stores never
  leaves the stores nor itself.
-/

namespace SkipCode

namespace ActionList

/-- A checked list has no flaw at any position. -/
theorem flaw?_of_checkFrom {len ip : Nat} {actions : List Action}
    (check : checkFrom len ip actions = .ok ()) {i : Nat} {a : Action}
    (found : actions[i]? = some a) : a.flaw? (ip + i) len = none := by
  induction actions generalizing ip i with
  | nil => cases found
  | cons first rest ih =>
    rw [checkFrom] at check
    split at check
    · cases check
    · next none =>
      cases i with
      | zero =>
        cases found
        exact none
      | succ i =>
        rw [Nat.add_comm i, ← Nat.add_assoc]
        exact ih check found

/-- A list that passes its check has no action with a flaw. -/
theorem flaw?_of_check {list : ActionList} (check : list.check = .ok ()) {ip : Nat} {a : Action}
    (found : list.get? ip = some a) : a.flaw? ip list.length = none := by
  rw [get?_eq_toList] at found
  have := flaw?_of_checkFrom check found
  rwa [Nat.zero_add] at this

end ActionList

namespace Engine

/-- How many slots a store of a kind has. -/
def Config.capacity (config : Config) : Pool → UInt32
  | .global => config.globalCapacity
  | .actor => config.actorCapacity

/-- The capacity of a key is that of its pool. -/
theorem Context.capacity_eq (c : Context) (key : StoreKey) :
    c.capacity key = c.config.capacity key.pool := by
  cases key <;> rfl

/-- The cell of a location is in the stores. -/
def Config.Holds (config : Config) (cell : Cell) : Prop :=
  cell.slot < config.capacity cell.store.pool

/-! ## One step -/

/-- Counts a step and executes the action at `ip`, if there is one. -/
def tick (e : Engine) (list : ActionList) (ip : Nat) : Option (Except RuntimeError Next × Engine) :=
  (list.get? ip).map fun action =>
    match e.countStep ip with
    | (.error err, e) => (.error err, e)
    | (.ok (), e) => e.step ip list.length action

/-- One more step of fuel is one step and the rest of the walk. -/
theorem execute_succ (list : ActionList) (fuel ip : Nat) (e : Engine) :
    execute list (fuel + 1) ip e = match e.tick list ip with
      | none => some (.ok .completed, e)
      | some (.error err, e) => some (.error err, e)
      | some (.ok .stop, e) => some (.ok .aborted, e)
      | some (.ok (.goto ip), e) => execute list fuel ip e := by
  rw [execute, tick]
  cases list.get? ip with
  | none => rfl
  | some action =>
    simp only [Option.map_some]
    rcases e.countStep ip with ⟨_ | _, e⟩
    · rfl
    · dsimp only
      rcases e.step ip list.length action with ⟨_ | _ | _, _⟩ <;> rfl

/-- Counting a step changes the counter alone. -/
theorem countStep_engine (e : Engine) (ip : Nat) :
    (e.countStep ip).2 = { e with steps := e.steps + 1 } := by
  simp only [countStep]
  split
  · split <;> rfl
  · rfl

/-- A step is refused because of the limit on steps, or its action is executed. -/
theorem tick_cases {e e' : Engine} {list : ActionList} {ip : Nat} {r : Except RuntimeError Next}
    (h : e.tick list ip = some (r, e')) : ∃ a, list.get? ip = some a ∧
      ((∃ limit, r = .error (.fault ip (.stepLimit limit)) ∧ e' = { e with steps := e.steps + 1 }) ∨
        step { e with steps := e.steps + 1 } ip list.length a = (r, e')) := by
  obtain ⟨a, found, h⟩ := Option.map_eq_some_iff.1 h
  refine ⟨a, found, ?_⟩
  -- the step is counted whether the limit allows it or not
  have counted := e.countStep_engine ip
  split at h
  · next err e₁ count =>
    rw [count] at counted
    cases h
    unfold countStep at count
    dsimp only at count
    split at count
    · next limit _ =>
      split at count
      · cases count
        exact Or.inl ⟨limit, rfl, rfl⟩
      · cases count
    · cases count
  · next e₁ count =>
    rw [count] at counted
    have counted : e₁ = { e with steps := e.steps + 1 } := counted
    subst counted
    exact Or.inr h

/-! ## Writes -/

section

variable {e e' : Engine} {list : ActionList} {ip : Nat}

/-- What one memory has that another has not is in the cell that some code mentions. -/
def WrittenBy (cells : List Cell) (c : Context) (m m' : Memory) : Prop :=
  ∀ key slot, m'.get key slot ≠ m.get key slot →
    ∃ cell ∈ cells, storeKey c cell.store = .ok key ∧ slot = cell.slot

/-- A memory follows from itself by no write. -/
theorem WrittenBy.refl (cells : List Cell) (c : Context) (m : Memory) : WrittenBy cells c m m :=
  fun _ _ differs => absurd rfl differs

/-- A store changes memory alone, and only the cell it names. -/
theorem store_writes (e : Engine) (key : StoreKey) (slot : UInt32) (v : Value) :
    ∃ m, (e.store key slot v).2 = { e with memory := m } ∧
      ∀ other s, m.get other s ≠ e.memory.get other s → other = key ∧ s = slot := by
  unfold store
  split
  · exact ⟨e.memory, rfl, fun _ _ differs => absurd rfl differs⟩
  · refine ⟨e.memory.set key slot v, rfl, fun other s differs => ?_⟩
    by_contra elsewhere
    exact differs (by rw [Memory.get_set, if_neg elsewhere])

/-- So does a store at an index. -/
theorem storeAt_writes (e : Engine) (key : StoreKey) (slot : UInt32) (index : Binary64)
    (v : Value) :
    ∃ m, (e.storeAt key slot index v).2 = { e with memory := m } ∧
      ∀ other s, m.get other s ≠ e.memory.get other s → other = key ∧ s = slot := by
  unfold storeAt
  dsimp only
  split
  · exact ⟨e.memory, rfl, fun _ _ differs => absurd rfl differs⟩
  · split
    · exact ⟨e.memory, rfl, fun _ _ differs => absurd rfl differs⟩
    · -- a write that fails has emptied the slot, but it has emptied no other
      obtain ⟨m, after, only⟩ := store_writes (e.write key slot .neutral) key slot
        (.array (setItem (e.memory.get key slot).items index.toIndex v))
      refine ⟨m, after, fun other s differs => ?_⟩
      by_contra elsewhere
      have emptied : (e.write key slot .neutral).memory.get other s = e.memory.get other s := by
        rw [write, Memory.get_set, if_neg elsewhere]
      exact elsewhere (only other s (emptied ▸ differs))

/-- The key that a store is made with is the one its operands give. -/
theorem storeKey_of_operands {c : Context} {st : Store} {slot : UInt32} {index : Option Element}
    {value : Element} {r : StoreKey × Value × Option Binary64}
    (h : operands c st slot index value = .ok r) : storeKey c st = .ok r.1 := by
  obtain ⟨key, found, h⟩ := except_bind_ok.1 h
  obtain ⟨_, -, h⟩ := except_bind_ok.1 h
  cases index with
  | none =>
    obtain ⟨_, -, h⟩ := except_bind_ok.1 h
    obtain ⟨_, -, h⟩ := except_bind_ok.1 h
    cases h
    exact found
  | some index =>
    obtain ⟨_, -, h⟩ := except_bind_ok.1 h
    obtain ⟨_, -, h⟩ := except_bind_ok.1 h
    obtain ⟨_, -, h⟩ := except_bind_ok.1 h
    cases h
    exact found

/-- An assignment changes memory alone, and only a cell that it names. -/
theorem assign_writes (e : Engine) (st : Store) (slot : UInt32) (index : Option Element)
    (value : Element) : ∃ m, (e.assign st slot index value).2 = { e with memory := m } ∧
      ∀ key s, m.get key s ≠ e.memory.get key s → storeKey e.context st = .ok key ∧ s = slot := by
  unfold assign
  split
  · exact ⟨e.memory, rfl, fun _ _ differs => absurd rfl differs⟩
  · next key v h =>
    obtain ⟨m, after, only⟩ := store_writes e key slot v
    exact ⟨m, after, fun other s differs =>
      (only other s differs).imp_left fun same : other = key => same ▸ storeKey_of_operands h⟩
  · next key v index h =>
    obtain ⟨m, after, only⟩ := storeAt_writes e key slot index v
    exact ⟨m, after, fun other s differs =>
      (only other s differs).imp_left fun same : other = key => same ▸ storeKey_of_operands h⟩

/-- A step changes memory alone, and only cells of its action. -/
theorem step_writes (e : Engine) (ip len : Nat) (a : Action) :
    ∃ m, (e.step ip len a).2 = { e with memory := m } ∧ WrittenBy a.cells e.context e.memory m := by
  cases a with
  | set st slot index value =>
    obtain ⟨m, after, only⟩ := assign_writes e st slot index value
    refine ⟨m, ?_, fun key s differs => ⟨⟨st, slot⟩, List.mem_cons_self, only key s differs⟩⟩
    rw [← after, step]
    rcases e.assign st slot index value with ⟨_ | _, _⟩ <;> rfl
  | skipIf condition count =>
    refine ⟨e.memory, ?_, .refl _ _ _⟩
    rw [step]
    cases eval e.context condition <;> rfl
  | skip count => exact ⟨e.memory, rfl, .refl _ _ _⟩
  | abort => exact ⟨e.memory, rfl, .refl _ _ _⟩

/-- So does a step together with its count. -/
theorem tick_writes {r : Except RuntimeError Next} (h : e.tick list ip = some (r, e')) :
    ∃ m, e' = { e with memory := m, steps := e.steps + 1 } ∧
      WrittenBy list.cells e.context e.memory m := by
  obtain ⟨a, found, ⟨limit, -, rfl⟩ | h⟩ := tick_cases h
  · exact ⟨e.memory, rfl, .refl _ _ _⟩
  · obtain ⟨m, after, written⟩ := step_writes { e with steps := e.steps + 1 } ip list.length a
    rw [h] at after
    refine ⟨m, after, fun key s differs => ?_⟩
    obtain ⟨cell, mem, at'⟩ := written key s differs
    rw [ActionList.get?_eq_toList] at found
    exact ⟨cell, List.mem_flatMap.2 ⟨a, List.mem_of_getElem? found, mem⟩, at'⟩

/-- The engines that a run of a list comes through. -/
inductive Trail (list : ActionList) : Nat → Engine → Engine → Prop
  | here (ip : Nat) (e : Engine) : Trail list ip e e
  | last {ip e e' r} : e.tick list ip = some (r, e') → Trail list ip e e'
  | next {ip ip' e e' e''} : e.tick list ip = some (.ok (.goto ip'), e') → Trail list ip' e' e'' →
      Trail list ip e e''

/-- A run that comes to an end has a trail to it. -/
theorem trail_of_execute {fuel : Nat} {r : Except RuntimeError Outcome}
    (h : execute list fuel ip e = some (r, e')) : Trail list ip e e' := by
  induction fuel generalizing ip e with
  | zero => cases h
  | succ fuel ih =>
    rw [execute_succ] at h
    split at h
    · cases h
      exact .here _ _
    · next step =>
      cases h
      exact .last step
    · next step =>
      cases h
      exact .last step
    · next step => exact .next step (ih h)

/-- A run keeps its actor and its limits. Where the stores differ in the end there is a cell that
the list mentions, with an actor who was found at some time. -/
theorem Trail.writes (trail : Trail list ip e e') : e'.config = e.config ∧ e'.actor = e.actor ∧
    ∀ key slot, e'.memory.get key slot ≠ e.memory.get key slot → ∃ cell ∈ list.cells, ∃ m,
      storeKey ⟨e.config, m, e.actor⟩ cell.store = .ok key ∧ slot = cell.slot := by
  induction trail with
  | here => exact ⟨rfl, rfl, fun _ _ differs => absurd rfl differs⟩
  | last step =>
    obtain ⟨m, rfl, written⟩ := tick_writes step
    refine ⟨rfl, rfl, fun key slot differs => ?_⟩
    obtain ⟨cell, mem, at'⟩ := written key slot differs
    exact ⟨cell, mem, _, at'⟩
  | @next ip ip' e e' e'' step _ ih =>
    obtain ⟨m, rfl, written⟩ := tick_writes step
    obtain ⟨config, actor, later⟩ := ih
    refine ⟨config, actor, fun key slot differs => ?_⟩
    -- what differs in the end was changed by this tick or by a later one
    by_cases same : m.get key slot = e.memory.get key slot
    · exact later key slot (same.symm ▸ differs)
    · obtain ⟨cell, mem, at'⟩ := written key slot same
      exact ⟨cell, mem, _, at'⟩

/-- What no cell of a list is a place of stays as it is, whoever runs the list. -/
theorem Trail.keeps (trail : Trail list ip e e') {key : StoreKey} {slot : UInt32}
    (elsewhere : ∀ cell ∈ list.cells, cell.location ≠ ⟨key.pool, slot⟩) :
    e'.memory.get key slot = e.memory.get key slot := by
  by_contra differs
  obtain ⟨cell, mem, m, found, rfl⟩ := trail.writes.2.2 key slot differs
  exact elsewhere cell mem (congrArg (Location.mk · cell.slot) (storeKey_pool found).symm)

end

/-! ## Values -/

section

variable {c : Context}

/-- A slot of a cell that the configuration holds passes the check. -/
theorem checkSlot_holds {key : StoreKey} {st : Store} {slot : UInt32}
    (holds : c.config.Holds ⟨st, slot⟩) (pool : key.pool = st.pool) :
    c.checkSlot key slot = .ok () := by
  refine if_pos ?_
  rw [c.capacity_eq, pool]
  exact holds

mutual

/-- All that evaluating can fail of is a slot outside the stores. -/
theorem eval_inside : (e : Element) → e.Confined c.config.Holds → ∃ v, eval c e = .ok v
  | .number x, _ => ⟨_, rfl⟩
  | .bool b, _ => ⟨_, rfl⟩
  | .eventPlayer, _ => ⟨_, rfl⟩
  | .array items, h => by
    obtain ⟨vs, hv⟩ := evalAll_inside items (Element.confined_array.1 h)
    exact ⟨.array vs, by rw [eval, hv]; rfl⟩
  | .variable st slot, h => by
    -- the one case that can fail
    obtain ⟨holds, h⟩ := Element.confined_variable.1 h
    obtain ⟨key, hk⟩ := storeKey_inside st h
    refine ⟨c.memory.get key slot, ?_⟩
    have checked : c.checkSlot key slot = .ok () := checkSlot_holds holds (storeKey_pool hk)
    rw [eval, hk, except_bind_ok]
    exact ⟨key, rfl, except_bind_ok.2 ⟨(), checked, rfl⟩⟩
  | .countOf array, h => by
    obtain ⟨v, hv⟩ := eval_inside array h
    exact ⟨_, by rw [eval, hv]; rfl⟩
  | .lastOf array, h => by
    obtain ⟨v, hv⟩ := eval_inside array h
    exact ⟨_, by rw [eval, hv]; rfl⟩
  | .not inner, h => by
    obtain ⟨v, hv⟩ := eval_inside inner h
    exact ⟨_, by rw [eval, hv]; rfl⟩
  | .itemAt array index, h => by
    obtain ⟨v, hv⟩ := eval_inside array (Element.confined_itemAt.1 h).1
    obtain ⟨w, hw⟩ := eval_inside index (Element.confined_itemAt.1 h).2
    exact ⟨_, by rw [eval, hv, hw]; rfl⟩
  | .append array value, h => by
    obtain ⟨v, hv⟩ := eval_inside array (Element.confined_append.1 h).1
    obtain ⟨w, hw⟩ := eval_inside value (Element.confined_append.1 h).2
    exact ⟨_, by rw [eval, hv, hw]; rfl⟩
  | .indexOf array value, h => by
    obtain ⟨v, hv⟩ := eval_inside array (Element.confined_indexOf.1 h).1
    obtain ⟨w, hw⟩ := eval_inside value (Element.confined_indexOf.1 h).2
    exact ⟨_, by rw [eval, hv, hw]; rfl⟩
  | .slice array start count, h => by
    obtain ⟨ha, hs, hc⟩ := Element.confined_slice.1 h
    obtain ⟨v, hv⟩ := eval_inside array ha
    obtain ⟨w, hw⟩ := eval_inside start hs
    obtain ⟨x, hx⟩ := eval_inside count hc
    exact ⟨_, by rw [eval, hv, hw, hx]; rfl⟩
  | .arithmetic op lhs rhs, h => by
    obtain ⟨v, hv⟩ := eval_inside lhs (Element.confined_arithmetic.1 h).1
    obtain ⟨w, hw⟩ := eval_inside rhs (Element.confined_arithmetic.1 h).2
    exact ⟨_, by rw [eval, hv, hw]; rfl⟩
  | .compare lhs op rhs, h => by
    obtain ⟨v, hv⟩ := eval_inside lhs (Element.confined_compare.1 h).1
    obtain ⟨w, hw⟩ := eval_inside rhs (Element.confined_compare.1 h).2
    exact ⟨_, by rw [eval, hv, hw]; rfl⟩
  | .and lhs rhs, h => by
    obtain ⟨v, hv⟩ := eval_inside lhs (Element.confined_and.1 h).1
    obtain ⟨w, hw⟩ := eval_inside rhs (Element.confined_and.1 h).2
    rw [eval, hv, hw]
    cases ht : v.truthy <;> exact ⟨_, by simp only [bind, Except.bind, ht]; rfl⟩
  | .or lhs rhs, h => by
    obtain ⟨v, hv⟩ := eval_inside lhs (Element.confined_or.1 h).1
    obtain ⟨w, hw⟩ := eval_inside rhs (Element.confined_or.1 h).2
    rw [eval, hv, hw]
    cases ht : v.truthy <;> exact ⟨_, by simp only [bind, Except.bind, ht]; rfl⟩

/-- Operands inside of the stores have values. -/
theorem evalAll_inside : (es : List Element) → AllConfined c.config.Holds es →
    ∃ vs, evalAll c es = .ok vs
  | [], _ => ⟨[], rfl⟩
  | e :: es, h => by
    obtain ⟨v, hv⟩ := eval_inside e (allConfined_cons.1 h).1
    obtain ⟨vs, hvs⟩ := evalAll_inside es (allConfined_cons.1 h).2
    exact ⟨v :: vs, by rw [evalAll, hv, hvs]; rfl⟩

/-- A store with an actor inside has a key. -/
theorem storeKey_inside : (st : Store) → st.Confined c.config.Holds → ∃ key, storeKey c st = .ok key
  | .global, _ => ⟨.global, rfl⟩
  | .actor who, h => by
    obtain ⟨v, hv⟩ := eval_inside who h
    exact ⟨_, by rw [storeKey, hv]; rfl⟩

end

end

/-- A memory has in every cell with a property what the memory of a context has there. -/
def Context.Agrees (c : Context) (Q : Cell → Prop) (m : Memory) : Prop :=
  ∀ cell key, Q cell → storeKey c cell.store = .ok key →
    m.get key cell.slot = c.memory.get key cell.slot

section

variable {c : Context} {Q : Cell → Prop} {m : Memory}

mutual

/-- The value of an element depends on the cells that it mentions. -/
theorem eval_agrees (same : c.Agrees Q m) :
    (e : Element) → e.Confined Q → eval { c with memory := m } e = eval c e
  | .number x, _ => rfl
  | .bool b, _ => rfl
  | .eventPlayer, _ => rfl
  | .array items, h => by
    rw [eval, eval, evalAll_agrees same items (Element.confined_array.1 h)]
  | .variable st slot, h => by
    -- the one case that looks into the memory
    obtain ⟨here, reach⟩ := Element.confined_variable.1 h
    rw [eval, eval, storeKey_agrees same st reach]
    cases found : storeKey c st with
    | error f => rfl
    | ok key =>
      show Context.read _ key slot = Context.read _ key slot
      rw [Context.read, Context.read, same ⟨st, slot⟩ key here found]
      rfl
  | .countOf array, h => by
    rw [eval, eval, eval_agrees same array h]
  | .lastOf array, h => by
    rw [eval, eval, eval_agrees same array h]
  | .not inner, h => by
    rw [eval, eval, eval_agrees same inner h]
  | .itemAt array index, h => by
    rw [eval, eval, eval_agrees same array (Element.confined_itemAt.1 h).1,
      eval_agrees same index (Element.confined_itemAt.1 h).2]
  | .append array value, h => by
    rw [eval, eval, eval_agrees same array (Element.confined_append.1 h).1,
      eval_agrees same value (Element.confined_append.1 h).2]
  | .indexOf array value, h => by
    rw [eval, eval, eval_agrees same array (Element.confined_indexOf.1 h).1,
      eval_agrees same value (Element.confined_indexOf.1 h).2]
  | .slice array start count, h => by
    obtain ⟨ha, hs, hc⟩ := Element.confined_slice.1 h
    rw [eval, eval, eval_agrees same array ha, eval_agrees same start hs, eval_agrees same count hc]
  | .arithmetic op lhs rhs, h => by
    rw [eval, eval, eval_agrees same lhs (Element.confined_arithmetic.1 h).1,
      eval_agrees same rhs (Element.confined_arithmetic.1 h).2]
  | .compare lhs op rhs, h => by
    rw [eval, eval, eval_agrees same lhs (Element.confined_compare.1 h).1,
      eval_agrees same rhs (Element.confined_compare.1 h).2]
  | .and lhs rhs, h => by
    rw [eval, eval, eval_agrees same lhs (Element.confined_and.1 h).1,
      eval_agrees same rhs (Element.confined_and.1 h).2]
  | .or lhs rhs, h => by
    rw [eval, eval, eval_agrees same lhs (Element.confined_or.1 h).1,
      eval_agrees same rhs (Element.confined_or.1 h).2]

/-- Operands that read the same cells have the same values. -/
theorem evalAll_agrees (same : c.Agrees Q m) :
    (es : List Element) → AllConfined Q es → evalAll { c with memory := m } es = evalAll c es
  | [], _ => rfl
  | e :: es, h => by
    rw [evalAll, evalAll, eval_agrees same e (allConfined_cons.1 h).1,
      evalAll_agrees same es (allConfined_cons.1 h).2]

/-- A store whose actor reads the same cells has the same key. -/
theorem storeKey_agrees (same : c.Agrees Q m) :
    (st : Store) → st.Confined Q → storeKey { c with memory := m } st = storeKey c st
  | .global, _ => rfl
  | .actor who, h => by
    rw [storeKey, storeKey, eval_agrees same who h]

end

end

/-! ## Failures -/

/-- An error of a list that leaves the stores or itself. -/
def RuntimeError.Astray : RuntimeError → Prop
  | malformed _ => True
  | fault _ (.slotOutOfRange ..) => True
  | _ => False

section

variable {e e' : Engine} {list : ActionList} {ip : Nat} {a : Action}

/-- A write whose cells are inside gets all its operands. -/
theorem operands_inside {st : Store} {slot : UInt32} {index : Option Element} {value : Element}
    (h : (Action.set st slot index value).Confined e.config.Holds) :
    ∃ r, operands e.context st slot index value = .ok r := by
  obtain ⟨holds, reach, inner, written⟩ := Action.confined_set.1 h
  obtain ⟨key, hk⟩ := storeKey_inside (c := e.context) st reach
  obtain ⟨v, hv⟩ := eval_inside (c := e.context) value written
  have checked : e.context.checkSlot key slot = .ok () :=
    checkSlot_holds holds (storeKey_pool hk)
  cases index with
  | none =>
    refine ⟨(key, v, none), ?_⟩
    rw [operands, hk, hv]
    simp only [bind, Except.bind, pure, Except.pure, checked]
  | some index =>
    obtain ⟨i, hi⟩ := eval_inside (c := e.context) index (inner index rfl)
    refine ⟨(key, v, some i.asNumber), ?_⟩
    rw [operands, hk, hv]
    simp only [bind, Except.bind, pure, Except.pure, checked, hi]

/-- A store fails only at an array that is too long. -/
theorem store_fault {key : StoreKey} {slot : UInt32} {v : Value} {f : Fault}
    (h : e.store key slot v = (.error f, e')) : ∃ length limit, f = .arrayTooLong length limit := by
  unfold store at h
  split at h
  · cases h
    exact ⟨_, _, rfl⟩
  · cases h

/-- A write that finds its operands fails of its index or of the length of the array. -/
theorem assign_fault {st : Store} {slot : UInt32} {index : Option Element} {value : Element}
    {f : Fault} (inside : (Action.set st slot index value).Confined e.config.Holds)
    (h : e.assign st slot index value = (.error f, e')) :
    (∃ i, f = .badIndex i) ∨ ∃ length limit, f = .arrayTooLong length limit := by
  -- the operands are there, so only the index and the length can be refused
  obtain ⟨⟨key, v, index?⟩, found⟩ := operands_inside inside
  rw [assign, found] at h
  cases index? with
  | none => exact Or.inr (store_fault h)
  | some index =>
    dsimp only at h
    unfold storeAt at h
    dsimp only at h
    split at h
    · cases h
      exact Or.inl ⟨_, rfl⟩
    · split at h
      · cases h
        exact Or.inr ⟨_, _, rfl⟩
      · exact Or.inr (store_fault h)

/-- A skip without a flaw leads somewhere. -/
theorem taken_sound {count : Option Int32} (sound : a.flaw? ip list.length = none)
    (skip : a.skipCount? = some count) :
    ∃ target, taken ip list.length count = .ok (.goto target) := by
  unfold Action.flaw? at sound
  rw [skip] at sound
  cases count with
  | none => cases sound
  | some count =>
    cases target : Action.skipTarget? ip count list.length with
    | none => simp [target] at sound
    | some target' => exact ⟨target', by simp [taken, target]⟩

/-- A sound action inside of the stores never goes astray. -/
theorem step_within (sound : a.flaw? ip list.length = none) (inside : a.Confined e.config.Holds)
    {err : RuntimeError} (h : e.step ip list.length a = (.error err, e')) : ¬ err.Astray := by
  cases a with
  | set st slot index value =>
    rw [step] at h
    split at h
    · cases h
    · next f _ failed =>
      cases h
      -- with its operands there, an assignment fails only over its index or its length
      obtain ⟨i, rfl⟩ | ⟨length, limit, rfl⟩ := assign_fault inside failed <;> exact id
  | skipIf condition count =>
    obtain ⟨v, hv⟩ := eval_inside (c := e.context) condition inside
    obtain ⟨target, leads⟩ := taken_sound sound rfl
    rw [step, hv] at h
    dsimp only at h
    rw [leads] at h
    split at h <;> cases h
  | skip count =>
    obtain ⟨target, leads⟩ := taken_sound sound rfl
    rw [step, leads] at h
    cases h
  | abort => cases h

/-- Nor does a step of a checked list whose cells are all inside. -/
theorem tick_within (check : list.check = .ok ())
    (inside : ∀ cell ∈ list.cells, e.config.Holds cell) {err : RuntimeError}
    (h : e.tick list ip = some (.error err, e')) : ¬ err.Astray := by
  obtain ⟨a, found, ⟨limit, same, -⟩ | h⟩ := tick_cases h
  · cases same
    exact id
  · refine step_within (e := { e with steps := e.steps + 1 })
      (ActionList.flaw?_of_check check found)
      (fun cell mem => ?_) h
    rw [ActionList.get?_eq_toList] at found
    exact inside cell (List.mem_flatMap.2 ⟨a, List.mem_of_getElem? found, mem⟩)

/-- A run of a list that is fit to run and has its cells in the stores goes astray nowhere. -/
theorem execute_within (check : list.check = .ok ())
    (inside : ∀ cell ∈ list.cells, e.config.Holds cell) {fuel : Nat} {err : RuntimeError}
    (h : execute list fuel ip e = some (.error err, e')) : ¬ err.Astray := by
  -- on the fuel: a tick that goes on keeps the capacities
  induction fuel generalizing ip e with
  | zero => cases h
  | succ fuel ih =>
    rw [execute_succ] at h
    split at h
    · cases h
    · next step =>
      cases h
      exact tick_within check inside step
    · cases h
    · next step =>
      obtain ⟨m, rfl, -⟩ := tick_writes step
      exact ih (e := { e with memory := m, steps := e.steps + 1 }) inside h

end

end Engine

end SkipCode
