import SkipCode.Proofs.DeepWrites
import SkipCode.Proofs.Rejections

/-!
# How long the arrays in the stores are

A write compares the length of the array that it leaves in its slot with the limit. It does not look
at the arrays inside of that one, so an array that a program builds as an item of another one can
have any length.

* `Value.Contains`: a value at any depth of another one;
* `Engine.Reached`: an engine after runs and writes from outside, and the values that its runs
  wrote;
* `Engine.Sourced.trail`: along a run every array over the limit comes whole out of a value that was
  written;
* `Engine.Reached.arrays`: no slot ever holds an array over the limit, and what is inside of an
  array is over the limit only if it was so inside of a value that was written;
* `Engine.inner_array_over_limit`: a write of an item that is an array over the limit.
-/

namespace SkipCode

namespace Value

/-- A value at the end of some path into another one; the empty path leads to the value itself. -/
def Contains (v w : Value) : Prop := ∃ path, v.follow path = some w

/-- No array in a value is over the limit, at any depth. -/
def Limited (limit : Nat) (v : Value) : Prop := ∀ w, v.Contains w → w.items.length ≤ limit

/-- Whatever is over the limit in a value, at any depth, is in one of the values `written`. -/
def Sourced (limit : Nat) (written : Value → Prop) (v : Value) : Prop :=
  ∀ w, v.Contains w → limit < w.items.length → ∃ u, written u ∧ u.Contains w

variable {v w one : Value} {limit : Nat} {written more : Value → Prop}

/-- A value contains itself. -/
theorem contains_self (v : Value) : v.Contains v := ⟨[], rfl⟩

/-- What a value contains is the value or is in one of its items. -/
theorem contains_cases (h : v.Contains w) : w = v ∨ ∃ item ∈ v.items, item.Contains w := by
  obtain ⟨_ | ⟨i, rest⟩, found⟩ := h
  · exact Or.inl (Option.some.inj found).symm
  · obtain ⟨item, here, found⟩ := Option.bind_eq_some_iff.1 found
    exact Or.inr ⟨item, List.mem_of_getElem? here, rest, found⟩

/-- What an item contains its array contains. -/
theorem contains_of_item (mem : one ∈ v.items) (h : one.Contains w) : v.Contains w := by
  obtain ⟨i, here⟩ := List.getElem?_of_mem mem
  obtain ⟨path, found⟩ := h
  exact ⟨i :: path, by rw [follow, here]; exact found⟩

/-- A written value is sourced. -/
theorem Sourced.of_written (h : written v) :
    v.Sourced limit written := fun _ inside _ => ⟨v, h, inside⟩

/-- A limited value is sourced, whatever was written. -/
theorem Limited.sourced (h : v.Limited limit) : v.Sourced limit written := fun w inside long =>
  absurd (h w inside) (Nat.not_le.2 long)

/-- A sourced value is limited if all that was written is. -/
theorem Sourced.limited (h : v.Sourced limit written) (all : ∀ u, written u → u.Limited limit) :
    v.Limited limit := fun w inside => by
  by_contra long
  obtain ⟨u, known, within⟩ := h w inside (Nat.not_le.1 long)
  exact long (all u known w within)

/-- A value stays sourced when more was written. -/
theorem Sourced.mono (h : v.Sourced limit written) (weaker : ∀ u, written u → more u) :
    v.Sourced limit more := fun w inside long =>
  let ⟨u, known, within⟩ := h w inside long
  ⟨u, weaker u known, within⟩

/-- Items of a sourced value are sourced. -/
theorem Sourced.item (h : v.Sourced limit written) (mem : one ∈ v.items) :
    one.Sourced limit written :=
  fun w inside => h w (contains_of_item mem inside)

/-- An array within the limit adds nothing to what its items contain. -/
theorem sourced_of_items (short : v.items.length ≤ limit)
    (each : ∀ item ∈ v.items, item.Sourced limit written) :
    v.Sourced limit written := fun w inside long => by
  obtain rfl | ⟨item, mem, inside⟩ := contains_cases inside
  · exact absurd short (Nat.not_le.2 long)
  · exact each item mem w inside long

/-- The neutral value has no array in it. -/
theorem sourced_neutral : neutral.Sourced limit written :=
  sourced_of_items (Nat.zero_le _) (List.forall_mem_nil _)

end Value

namespace Engine

/-- An item of an array with one written is the new item, one of the old ones, or filled in. -/
theorem mem_setItem {items : List Value} {position : Nat} {v item : Value}
    (mem : item ∈ setItem items position v) : item = v ∨ item = .neutral ∨ item ∈ items := by
  induction items generalizing position with
  | nil =>
    obtain filled | new := List.mem_append.1 mem
    · exact Or.inr (Or.inl (List.eq_of_mem_replicate filled))
    · exact Or.inl (List.mem_singleton.1 new)
  | cons first rest ih =>
    cases position with
    | zero => exact (List.mem_cons.1 mem).imp_right fun old => Or.inr (List.mem_cons_of_mem _ old)
    | succ position =>
      obtain rfl | mem := List.mem_cons.1 mem
      · exact Or.inr (Or.inr List.mem_cons_self)
      · exact (ih mem).imp_right (Or.imp_right (List.mem_cons_of_mem _))

variable {config : Config} {e e' : Engine} {list : ActionList} {ip len : Nat} {a : Action}
  {key : StoreKey} {slot : UInt32} {v : Value} {written : Value → Prop}

/-- Whatever is over the limit in a slot is in one of the values `written`. -/
def Sourced (written : Value → Prop) (e : Engine) : Prop :=
  ∀ key slot, (e.memory.get key slot).Sourced e.config.maxArrayLength written

/-- The value that an action writes, whole or as an item, if it can be computed. -/
def written? (c : Context) : Action → Option Value
  | .set st slot index value =>
    match operands c st slot index value with
    | .ok (_, v, _) => some v
    | .error _ => none
  | _ => none

/-- What an assignment writes is the value of its operand. -/
theorem written?_set {c : Context} {st : Store} {index : Option Element} {value : Element}
    {r : StoreKey × Value × Option Binary64} (found : operands c st slot index value = .ok r) :
    written? c (.set st slot index value) = some r.2.1 := by
  rw [written?, found]

/-- A run from `ip` on writes a value: it comes to a step that writes it and does not fail. -/
def Writes (e : Engine) (list : ActionList) (ip : Nat) (v : Value) : Prop :=
  ∃ ip₁ e₁ a next e₂, Progress list ip e ip₁ e₁ ∧ list.get? ip₁ = some a ∧
    e₁.tick list ip₁ = some (.ok next, e₂) ∧ written? e₁.context a = some v

/-- What is written later is written by the list. -/
theorem Writes.later {ip' : Nat} (done : e.tick list ip = some (.ok (.goto ip'), e'))
    (h : e'.Writes list ip' v) : e.Writes list ip v := by
  obtain ⟨ip₁, e₁, a, next, e₂, progress, rest⟩ := h
  exact ⟨ip₁, e₁, a, next, e₂, .step done progress, rest⟩

/-! ## One step -/

/-- A write of a sourced value keeps all memory sourced. -/
theorem Sourced.write (sourced : e.Sourced written)
    (new : v.Sourced e.config.maxArrayLength written) :
    (e.write key slot v).Sourced written := by
  intro other s
  rw [Engine.write, Memory.get_set]
  split
  · exact new
  · exact sourced other s

/-- So does a store, which refuses an array that is itself too long. -/
theorem Sourced.store (sourced : e.Sourced written)
    (new : v.items.length ≤ e.config.maxArrayLength → v.Sourced e.config.maxArrayLength written) :
    (e.store key slot v).2.Sourced written := by
  unfold Engine.store
  split
  · exact sourced
  · next short => exact sourced.write (new (Nat.not_lt.1 short))

/-- A store of a short array is done. -/
theorem store_of_short (short : v.items.length ≤ e.config.maxArrayLength) :
    (e.store key slot v).1 = .ok () := by
  rw [Engine.store, if_neg (Nat.not_lt.2 short)]

/-- A store at an index keeps memory sourced if it gets through. -/
theorem Sourced.storeAt {i : Binary64} (sourced : e.Sourced written)
    (new : (e.storeAt key slot i v).1 = .ok () → written v) :
    (e.storeAt key slot i v).2.Sourced written := by
  unfold Engine.storeAt at new ⊢
  dsimp only at new ⊢
  split at new
  · next bad =>
    rw [if_pos bad]
    exact sourced
  · next good =>
    rw [if_neg good]
    split at new
    · next far =>
      rw [if_pos far]
      exact sourced
    · next near =>
      rw [if_neg near]
      -- the array is written again with one item new, the others were in the slot or are filled in
      refine (sourced.write Value.sourced_neutral).store fun short =>
        Value.sourced_of_items short ?_
      intro item mem
      obtain rfl | rfl | old := mem_setItem mem
      · exact .of_written (new (store_of_short short))
      · exact Value.sourced_neutral
      · exact (sourced key slot).item old

/-- So does an assignment. -/
theorem Sourced.assign {st : Store} {index : Option Element} {value : Element}
    (sourced : e.Sourced written) (new : (e.assign st slot index value).1 = .ok () →
      ∀ u, written? e.context (.set st slot index value) = some u → written u) :
    (e.assign st slot index value).2.Sourced written := by
  unfold Engine.assign at new ⊢
  split at new
  · exact sourced
  · next found =>
    exact sourced.store fun short => .of_written (new (store_of_short short) _ (written?_set found))
  · next found => exact sourced.storeAt fun done => new done _ (written?_set found)

/-- So does a step. -/
theorem Sourced.step (sourced : e.Sourced written)
    (new : ∀ next, (e.step ip len a).1 = .ok next → ∀ u, written? e.context a = some u →
      written u) :
    (e.step ip len a).2.Sourced written := by
  cases a with
  | set st slot index value =>
    have kept : (e.assign st slot index value).2.Sourced written := sourced.assign fun done => by
      refine new (.goto (ip + 1)) ?_
      rw [Engine.step]
      split
      · rfl
      · next failed => cases (congrArg Prod.fst failed).symm.trans done
    rw [Engine.step]
    split
    · next same => rwa [same] at kept
    · next same => rwa [same] at kept
  | skipIf condition count =>
    rw [Engine.step]
    split <;> exact sourced
  | skip count => exact sourced
  | abort => exact sourced

/-- So does a step together with its count. -/
theorem Sourced.tick {r : Except RuntimeError Next} (sourced : e.Sourced written)
    (new : ∀ u, e.Writes list ip u → written u) (step : e.tick list ip = some (r, e')) :
    e'.Sourced written := by
  obtain ⟨a, found, ⟨limit, -, rfl⟩ | h⟩ := tick_cases step
  · -- a run stopped by the limit of its steps executes no action
    exact sourced
  · have kept : (Engine.step { e with steps := e.steps + 1 } ip list.length a).2.Sourced
      written := by
      refine Sourced.step sourced fun next ok u writes => new u ?_
      rw [h] at ok
      obtain rfl : r = .ok next := ok
      exact ⟨ip, e, a, next, e', .start ip e, found, step, writes⟩
    rwa [h] at kept

/-! ## Runs -/

/-- Along a run the values that it writes are all that can bring anything over the limit into a
slot. -/
theorem Sourced.trail (sourced : e.Sourced written) (trail : Trail list ip e e')
    (new : ∀ u, e.Writes list ip u → written u) : e'.Sourced written := by
  induction trail with
  | here => exact sourced
  | last step => exact sourced.tick new step
  | next step _ ih => exact ih (sourced.tick new step) fun u later => new u (later.later step)

/-- Arrays stay short along every run. -/
theorem Bounded.trail (bounded : e.Bounded) (trail : Trail list ip e e') : e'.Bounded := by
  induction trail with
  | here => exact bounded
  | last step => exact bounded.tick step
  | next step _ ih => exact ih (bounded.tick step)

/-- An engine that was new and then ran lists and was written to from outside, only values within
the limit. The values that its runs wrote are noted. -/
inductive Reached (config : Config) : (Value → Prop) → Engine → Prop
  | new : Reached config (fun _ => False) (.new config)
  | run {written : Value → Prop} {e e' : Engine} {list : ActionList} {runner : Int64}
      {r : Except RuntimeError Outcome} : Reached config written e →
      e.runList list runner = some (r, e') →
      Reached config
        (fun v => written v ∨
          list.check = .ok () ∧ Writes { e with actor := runner, steps := 0 } list 0 v) e'
  | preset {written : Value → Prop} {e : Engine} {v : Value}
      (slot : UInt32) : Reached config written e →
      v.Limited config.maxArrayLength → Reached config written (e.setGlobal slot v)

/-- A run is refused and changes nothing, or it has a trail. -/
theorem trail_of_runList {runner : Int64} {r : Except RuntimeError Outcome}
    (h : e.runList list runner = some (r, e')) :
    e' = e ∨ list.check = .ok () ∧ Trail list 0 { e with actor := runner, steps := 0 } e' := by
  unfold runList at h
  split at h
  · cases h
    exact Or.inl rfl
  · next checked => exact Or.inr ⟨checked, trail_of_execute h⟩

/-- What is known of an engine that was reached. -/
theorem Reached.invariant (reached : Reached config written e) :
    e.config = config ∧ e.Bounded ∧ e.Sourced written := by
  induction reached with
  | new =>
    have empty (key : StoreKey) (slot : UInt32) :
      (Engine.new config).memory.get key slot = .neutral := by
      cases key <;> exact Cells.get_empty slot
    refine ⟨rfl, fun key slot => ?_, fun key slot => ?_⟩
    · rw [empty]
      exact Nat.zero_le _
    · rw [empty]
      exact Value.sourced_neutral
  | @run written e e' list runner r _ done ih =>
    obtain ⟨same, bounded, sourced⟩ := ih
    have sourced : e.Sourced fun v => written v ∨
        list.check = .ok () ∧ Writes { e with actor := runner, steps := 0 } list 0 v :=
      fun key slot => (sourced key slot).mono fun _ => Or.inl
    obtain rfl | ⟨checked, trail⟩ := trail_of_runList done
    · exact ⟨same, bounded, sourced⟩
    · have bounded : Engine.Bounded { e with actor := runner, steps := 0 } := bounded
      have sourced : Engine.Sourced _ { e with actor := runner, steps := 0 } := sourced
      exact ⟨trail.writes.1.trans same, bounded.trail trail,
        sourced.trail trail fun u writes => Or.inr ⟨checked, writes⟩⟩
  | preset slot _ limited ih =>
    obtain ⟨rfl, bounded, sourced⟩ := ih
    exact ⟨rfl, bounded.write (limited _ (Value.contains_self _)), sourced.write limited.sourced⟩

/-- A slice to the end of an array has all items from its start on. -/
def Covered (v : Value) : Prop :=
  ∀ start : Binary64, slice v start (.ofNat Element.restCount) =
    .array (v.items.drop (if start.less 0 then 0 else start.toIndex))

/-- Whatever runs an engine made, no slot holds an array over the limit. What an array contains is
over the limit only if it was so inside of a value that a run wrote: if all these values are within
the limit, at any depth, then so is all that is in a slot. With a limit that is no more than the
count of a slice to the end, such a slice then covers the rest of any of these arrays. -/
theorem Reached.arrays (reached : Reached config written e) (key : StoreKey) (slot : UInt32) :
    (e.memory.get key slot).items.length ≤ config.maxArrayLength ∧
    (∀ w, (e.memory.get key slot).Contains w → config.maxArrayLength < w.items.length →
      ∃ v, written v ∧ v.Contains w) ∧
    ((∀ v, written v → v.Limited config.maxArrayLength) →
      (e.memory.get key slot).Limited config.maxArrayLength) ∧
    (config.maxArrayLength ≤ Element.restCount → Covered (e.memory.get key slot) ∧
      ((∀ v, written v → v.Limited config.maxArrayLength) →
        ∀ w, (e.memory.get key slot).Contains w → Covered w)) := by
  obtain ⟨rfl, bounded, sourced⟩ := reached.invariant
  have covered {w : Value} (short : w.items.length ≤ e.config.maxArrayLength)
      (small : e.config.maxArrayLength ≤ Element.restCount) : Covered w :=
    slice_rest (Nat.le_trans short small)
  have limited := (sourced key slot).limited
  exact ⟨bounded key slot, sourced key slot, limited,
    fun small => ⟨covered (bounded key slot) small,
    fun all w inside => covered (limited all w inside) small⟩⟩

/-- An engine for arrays of at most two items. -/
def pairs : Config := { Config.default with maxArrayLength := 2 }

/-- A write of an array of three items as the only item of another one. -/
def nestThree : ActionList :=
  .ofList [.set .global 0 (some (.ofNat 0)) (.array [.ofNat 1, .ofNat 2, .ofNat 3])]

/-- The array that is written. -/
def three : Value := .array [.number (.ofNat 1), .number (.ofNat 2), .number (.ofNat 3)]

/-- The engine after the write. -/
def nested : Engine :=
  { (new pairs).write .global 0 .neutral |>.write .global 0 (.array [three]) with steps := 1 }

/-- An array inside of an array passes the limit on its length. -/
theorem nested_ran : (new pairs).runList nestThree 1 = some (.ok .completed, nested) := rfl

/-- The array inside is over the limit, so it comes out of a value that was written. -/
theorem arrays_nested : ∃ written, Reached pairs written nested ∧
    (nested.memory.get .global 0).items.length ≤ 2 ∧ Covered (nested.memory.get .global 0) ∧
    (nested.memory.get .global 0).Contains three ∧ ∃ v, written v ∧ v.Contains three := by
  have reached := Reached.run .new nested_ran
  have inside : (nested.memory.get .global 0).Contains three := ⟨[0], rfl⟩
  obtain ⟨short, sourced, -, covered⟩ := Reached.arrays reached .global 0
  exact ⟨_, reached, short, (covered (by decide)).1, inside, sourced three inside (by decide)⟩

/-- A write of an item leaves an array over the limit inside of the array in the slot. -/
theorem inner_array_over_limit :
    ¬ ∀ (config : Config) (written : Value → Prop) (e : Engine), Reached config written e →
      ∀ key slot, (e.memory.get key slot).Limited config.maxArrayLength := by
  intro claim
  have short := claim pairs _ nested (.run .new nested_ran) .global 0 three ⟨[0], rfl⟩
  exact absurd short (by decide)

end Engine

end SkipCode
