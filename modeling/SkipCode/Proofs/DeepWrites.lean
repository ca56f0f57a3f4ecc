import Mathlib.Data.List.Forall2
import SkipCode.Proofs.Adequacy
import SkipCode.Proofs.Location

/-!
# Deep writes

A write goes one level into the array of a slot. To write further in, the array at each level below
is built again around the next one, out of a slice before the position, the new item and a slice
behind it (`Element.splice`). Here it is shown that this replaces one value and keeps all others.

* `Value.replaceAt`: a value with another one at the end of a path of positions;
* `Engine.eval_splice`: one level that is built again has one item replaced;
* `Engine.eval_rebuild`: so do all levels, by induction on the path;
* `IndexedVar.set_replaces`: what a write at a path of a variable leaves in its slot, in all other
  slots and to be read at that path.
-/

namespace SkipCode

open Engine (Context Host Memory StoreKey)

/-! ## Values inside arrays -/

namespace Value

/-- The value at the end of a path of positions, if all of them are there. -/
def follow : Value → List Nat → Option Value
  | v, [] => some v
  | v, i :: rest => v.items[i]?.bind fun item => item.follow rest

/-- A value with another one at the end of a path of positions. -/
def replaceAt : Value → List Nat → Value → Value
  | _, [], x => x
  | v, i :: rest, x => .array (v.items.modify i fun item => item.replaceAt rest x)

/-- Every level of a path is an array that has the position, and none of the arrays is longer than
the limit. -/
inductive Fits (limit : Nat) : Value → List Nat → Prop
  | here (v : Value) : Fits limit v []
  | inside {items : List Value} {i : Nat} {item : Value} {rest : List Nat} :
      items[i]? = some item → items.length ≤ limit → Fits limit item rest →
      Fits limit (.array items) (i :: rest)

variable {v x : Value} {limit more : Nat} {path other : List Nat}

/-- Values that fit a limit fit a larger one. -/
theorem Fits.mono (fits : v.Fits limit path) (le : limit ≤ more) : v.Fits more path := by
  induction fits with
  | here v => exact .here v
  | inside found short _ ih => exact .inside found (Nat.le_trans short le) ih

/-- An index of a path that fits is below the limit. -/
theorem Fits.lt (fits : v.Fits limit path) {i : Nat} (mem : i ∈ path) : i < limit := by
  induction fits with
  | here => cases mem
  | inside found short _ ih =>
    rcases List.mem_cons.1 mem with rfl | mem
    · exact Nat.lt_of_lt_of_le (List.getElem?_eq_some_iff.1 found).1 short
    · exact ih mem

/-- Along its path a replaced value is the new one. -/
theorem follow_replaceAt (fits : v.Fits limit path) :
    (v.replaceAt path x).follow path = some x := by
  induction fits with
  | here => rfl
  | inside found _ _ ih =>
    rw [replaceAt, follow, items_array, items_array, List.getElem?_modify, found]
    simpa using ih

/-- Beside the path nothing changes: neither at its positions and beyond, nor above it. -/
theorem follow_replaceAt_apart (below : ¬ path <+: other) (above : ¬ other <+: path) :
    (v.replaceAt path x).follow other = v.follow other := by
  induction path generalizing v other with
  | nil => exact absurd List.nil_prefix below
  | cons i path ih =>
    obtain _ | ⟨j, other⟩ := other
    · exact absurd List.nil_prefix above
    rw [replaceAt, follow, follow, items_array, List.getElem?_modify]
    -- the other path goes through the same item, or through one that is not replaced
    by_cases same : i = j
    · subst same
      have inner (item : Value) : (item.replaceAt path x).follow other = item.follow other :=
        ih (fun h => below (List.cons_prefix_cons.2 ⟨rfl, h⟩))
          (fun h => above (List.cons_prefix_cons.2 ⟨rfl, h⟩))
      cases v.items[i]? with
      | none => rfl
      | some item => simpa using inner item
    · cases v.items[j]? with
      | none => rfl
      | some item => simp [same]

end Value

/-! ## Positions -/

namespace Binary64

/-- A number that stands for a position. The negative zero stands for the first one too. -/
def IsPosition (x : Binary64) (i : Nat) : Prop :=
  ∃ negative, x.IsWhole negative i ∧ (negative = true → i = 0)

namespace IsPosition

variable {x : Binary64} {i : Nat}

/-- A position is a whole number or the negative zero. -/
theorem cases (h : x.IsPosition i) : x.IsWhole false i ∨ x = zero true ∧ i = 0 := by
  obtain ⟨negative, whole, only⟩ := h
  cases negative with
  | false => exact Or.inl whole
  | true =>
    obtain rfl := only rfl
    exact Or.inr ⟨whole.eq_negative_zero, rfl⟩

/-- A position is finite. -/
theorem finite (h : x.IsPosition i) : x.isFinite = true := by
  obtain ⟨negative, whole, -⟩ := h
  exact whole.finite

/-- A position is not below zero. -/
theorem not_less_zero (h : x.IsPosition i) : x.less 0 = false := by
  obtain whole | ⟨rfl, rfl⟩ := h.cases
  · exact whole.not_less_zero
  · rfl

/-- A small position is the index it stands for. -/
theorem toIndex_eq (h : x.IsPosition i) (small : i ≤ maxIndex) : x.toIndex = i := by
  obtain whole | ⟨rfl, rfl⟩ := h.cases
  · exact whole.toIndex_eq small
  · rfl

/-- A position is at most zero only for the first item. -/
theorem lessEq_zero_iff (h : x.IsPosition i) : x.lessEq 0 = true ↔ i = 0 := by
  obtain whole | ⟨rfl, rfl⟩ := h.cases
  · exact whole.lessEq_zero_iff
  · exact ⟨fun _ => rfl, fun _ => rfl⟩

/-- The position behind. -/
theorem next (h : x.IsPosition i) (small : i < 2 ^ 53) :
    (x.add (ofNat 1)).IsWhole false (i + 1) := by
  obtain whole | ⟨rfl, rfl⟩ := h.cases
  · exact whole.add (isWhole_ofNat (by decide)) (Nat.succ_pos i) small
  · have one : (zero true).add (ofNat 1) = ofNat 1 := by decide +kernel
    rw [one]
    exact isWhole_ofNat (by decide)

end IsPosition

end Binary64

namespace Engine

/-- What elements are evaluated in while an actor runs a list. -/
def seenBy (e : Engine) (runner : Int64) : Context := ⟨e.config, e.memory, runner⟩

/-- An element is a position where it is evaluated. -/
def Context.Points (c : Context) (e : Element) (i : Nat) : Prop :=
  ∃ v, eval c e = .ok v ∧ v.asNumber.IsPosition i

variable {c : Context} {array index start count value : Element} {v w x item : Value}
  {items : List Value} {i : Nat}

/-! ## One level -/

/-- An item at a position is the item. -/
theorem eval_itemAt (known : eval c array = .ok v) (at' : eval c index = .ok w)
    (position : w.asNumber.IsPosition i) (small : i ≤ Binary64.maxIndex) :
    eval c (.itemAt array index) = .ok (v.item i) := by
  rw [eval, known, at']
  show Except.ok (itemAt v w.asNumber) = _
  rw [itemAt, if_neg (by rw [position.not_less_zero]; decide), position.toIndex_eq small]

/-- Appending is computed on the values. -/
theorem eval_append (known : eval c array = .ok v) (added : eval c value = .ok w) :
    eval c (.append array value) = .ok (append v w) := by
  rw [eval, known, added]
  rfl

/-- So is a slice. -/
theorem eval_slice (known : eval c array = .ok v) (from' : eval c start = .ok w)
    (counted : eval c count = .ok x) :
    eval c (.slice array start count) = .ok (slice v w.asNumber x.asNumber) := by
  rw [eval, known, from', counted]
  rfl

/-- The slice before a position holds the items before it. -/
theorem slice_before (position : w.asNumber.IsPosition i) (small : i ≤ Binary64.maxIndex) :
    slice (.array items) (.ofNat 0) w.asNumber = .array (items.take i) := by
  have zero : (Binary64.ofNat 0).toIndex = 0 := Binary64.toIndex_ofNat (by decide)
  rw [slice]
  split
  · next nothing =>
    rw [position.lessEq_zero_iff.1 nothing]
    rfl
  · rw [zero, ite_self, position.toIndex_eq small]
    rfl

/-- The count that stands for all the rest covers the rest of any array that is no longer. -/
theorem slice_rest (short : v.items.length ≤ Element.restCount) (start : Binary64) :
    slice v start (.ofNat Element.restCount) =
      .array (v.items.drop (if start.less 0 then 0 else start.toIndex)) := by
  have long : Element.restCount ≤ 2 ^ 53 := by decide
  have count := Binary64.isWhole_ofNat long
  have some' : ¬ (Binary64.ofNat Element.restCount).lessEq 0 = true := fun nothing =>
    absurd (count.lessEq_zero_iff.1 nothing) (by decide)
  rw [slice, if_neg some', Binary64.toIndex_ofNat long]
  refine congrArg Value.array (List.take_of_length_le ?_)
  rw [List.length_drop]
  omega

/-- The slice behind a position holds the items behind it. -/
theorem slice_behind (position : w.asNumber.IsPosition i) (inside : i < items.length)
    (short : items.length ≤ Element.restCount) :
    slice (.array items) (w.asNumber.add (.ofNat 1)) (.ofNat Element.restCount) =
      .array (items.drop (i + 1)) := by
  have long : Element.restCount ≤ 2 ^ 53 := by decide
  have next := position.next (by omega)
  rw [slice_rest (v := .array items) short, next.not_less_zero, if_neg Bool.false_ne_true,
    next.toIndex_eq (by unfold Binary64.maxIndex; omega)]
  rfl

/-- An array whose level is built again has one item replaced. The new item is wrapped, so it stays
whole if it is an array itself. -/
theorem eval_splice (known : eval c array = .ok (.array items)) (at' : eval c index = .ok w)
    (position : w.asNumber.IsPosition i) (inside : i < items.length)
    (short : items.length ≤ Element.restCount) (new : eval c value = .ok x) :
    eval c (.splice array index value) = .ok (.array (items.set i x)) := by
  have small : i ≤ Binary64.maxIndex := by
    have : Element.restCount ≤ Binary64.maxIndex := by decide
    omega
  have number (n : Nat) : eval c (.ofNat n) = .ok (.number (.ofNat n)) := by
    rw [Element.ofNat, eval]
  have before : eval c (.slice array (.ofNat 0) index) = .ok (.array (items.take i)) := by
    rw [eval_slice known (number 0) at']
    exact congrArg Except.ok (slice_before position small)
  have next : eval c (index.add (.ofNat 1)) = .ok (.number (w.asNumber.add (.ofNat 1))) := by
    rw [Element.add, eval, at', number]
    rfl
  have behind : eval c (.slice array (index.add (.ofNat 1)) (.ofNat Element.restCount)) =
      .ok (.array (items.drop (i + 1))) := by
    rw [eval_slice known next (number _)]
    exact congrArg Except.ok (slice_behind position inside short)
  have wrapped : eval c (.array [value]) = .ok (.array [x]) := by
    rw [eval, evalAll, evalAll, new]
    rfl
  -- appending puts the items of an array, so the wrapped value goes in as one
  rw [Element.splice, eval_append (eval_append before wrapped) behind,
    List.set_eq_take_append_cons_drop, if_pos inside, List.append_cons]
  rfl

/-! ## All levels -/

/-- An item that is there is found. -/
theorem item_of_getElem? (found : items[i]? = some item) : (Value.array items).item i = item := by
  rw [Value.item, Value.items_array, List.getD_eq_getElem?_getD, found]
  rfl

variable {indices : List Element} {path : List Nat} {limit : Nat}

/-- Rebuilding an array along a path replaces what is at its end, by induction on the path. -/
theorem eval_rebuild (known : eval c array = .ok v) (at' : List.Forall₂ c.Points indices path)
    (fits : v.Fits Element.restCount path) (new : eval c value = .ok x) :
    eval c (IndexedVar.rebuild array value indices) = .ok (v.replaceAt path x) := by
  induction at' generalizing array v with
  | nil => exact new
  | @cons index i indices path points _ ih =>
    obtain ⟨w, at', position⟩ := points
    cases fits with
    | @inside items _ item _ found short inner =>
      have inside := (List.getElem?_eq_some_iff.1 found).1
      have reached := eval_itemAt known at' position
        (Nat.le_trans (Nat.le_of_lt inside) (Nat.le_trans short (by decide)))
      rw [item_of_getElem? found] at reached
      -- the rest of the path goes on from the item at the position
      rw [IndexedVar.rebuild, eval_splice known at' position inside short (ih reached inner),
        Value.replaceAt, List.modify_eq_set, Value.items_array, found]
      rfl

/-- The item at the end of a path is read by going from array to array. -/
theorem eval_descend (known : eval c array = .ok v) (at' : List.Forall₂ c.Points indices path)
    (small : ∀ i ∈ path, i ≤ Binary64.maxIndex) (there : v.follow path = some x) :
    eval c (IndexedVar.descend array indices) = .ok x := by
  induction at' generalizing array v with
  | nil =>
    cases there
    exact known
  | @cons index i indices path points _ ih =>
    obtain ⟨w, at', position⟩ := points
    obtain ⟨item, found, there⟩ := Option.bind_eq_some_iff.1 there
    have reached := eval_itemAt known at' position (small i List.mem_cons_self)
    rw [Value.item, List.getD_eq_getElem?_getD, found, Option.getD_some] at reached
    exact ih reached (fun i mem => small i (List.mem_cons_of_mem _ mem)) there

/-- Two memories are the same but for one slot. -/
def Memory.SameBeside (m m' : Memory) (key : StoreKey) (slot : UInt32) : Prop :=
  ∀ other s, ¬ (other = key ∧ s = slot) → m'.get other s = m.get other s

/-- A write to the cell itself leaves the rest as it was. -/
theorem Memory.SameBeside.put {m m' : Memory} {key : StoreKey} {slot : UInt32}
    (beside : m.SameBeside m' key slot) (v : Value) :
    m.SameBeside (m'.put key slot v) key slot := by
  intro other s apart
  rw [Memory.get_put, if_neg apart, beside other s apart]

/-- So does a write that drops old values. -/
theorem Memory.SameBeside.set {m m' : Memory} {key : StoreKey} {slot : UInt32}
    (beside : m.SameBeside m' key slot) (v : Value) :
    m.SameBeside (m'.set key slot v) key slot := by
  intro other s apart
  rw [Memory.get_set, if_neg apart, beside other s apart]

/-- What a slot holds makes no difference to an element. -/
def Context.Ignores (c : Context) (key : StoreKey) (slot : UInt32) (e : Element) : Prop :=
  ∀ m, c.memory.SameBeside m key slot → eval { c with memory := m } e = eval c e

/-! ## One action -/

namespace Host

variable {h : Host} {m m' : Memory} {a : Action}

/-- An act is a step to the next position. -/
theorem step_of_act (done : h.act m a = some m') (steps ip len : Nat) :
    (h.engine m steps).step ip len a = (.ok (.goto (ip + 1)), h.engine m' steps) := by
  cases a with
  | set st slot index value =>
    obtain ⟨m₁, written, same⟩ | ⟨none', -⟩ := assign_eq h m steps st slot index value
    · obtain rfl : m₁ = m' := Option.some.inj (written.symm.trans done)
      rw [Engine.step, same]
    · cases none'.symm.trans done
  | skipIf | skip | abort => cases done

/-- A list of one write that can be done completes, if it may take a step at all. -/
theorem runList_of_act {e : Engine} {runner : Int64} (free : e.config.maxSteps ≠ some 0)
    (done : (Host.mk e.config runner).act e.memory a = some m') :
    e.runList (.ofList [a]) runner = some (.ok .completed,
      (Host.mk e.config runner).engine m' 1) := by
  refine runList_of_acts ?_ (acts_one.2 done)
  rw [List.length_singleton, fuel]
  split
  · next limit known =>
    have : limit ≠ 0 := fun zero => free (zero ▸ known)
    omega
  · decide

end Host

end Engine

/-! ## Writes at a path -/

namespace IndexedVar

open Engine (eval)

variable {h : Host} {m m' : Memory} {v : IndexedVar} {value : Element} {actor : Option Element}
  {extra : List Element} {key : StoreKey} {x : Value} {path : List Nat}

/-- A root is read from its cell. -/
theorem eval_store (known : Engine.storeKey (h.context m) (v.store actor) = .ok key)
    (inside : v.slot < (h.context m).capacity key) :
    eval (h.context m) (v.root actor) = .ok (m.get key v.slot) := by
  have fits : (h.context m).checkSlot key v.slot = .ok () := if_pos inside
  rw [root, eval, known]
  show ((h.context m).checkSlot key v.slot >>= fun _ => _) = _
  rw [fits]
  rfl

/-- The action of a write at a path, and the memory that it leaves. -/
theorem set_at_path (deep : v.path ++ extra ≠ [])
    (known : Engine.storeKey (h.context m) (v.store actor) = .ok key)
    (inside : v.slot < (h.context m).capacity key) (new : eval (h.context m) value = .ok x)
    (at' : List.Forall₂ (h.context m).Points (v.path ++ extra) path)
    (fits : (m.get key v.slot).Fits (min Element.restCount h.config.maxArrayLength) path) :
    ∃ a, v.set value actor extra = [a] ∧
      h.act m a = some (m.put key v.slot ((m.get key v.slot).replaceAt path x)) := by
  have root := eval_store known inside
  cases full : v.path ++ extra with
  | nil => exact absurd full deep
  | cons first rest =>
    rw [full] at at'
    cases at' with
    | @cons _ i _ path points at' =>
      obtain ⟨w, first', position⟩ := points
      generalize old : m.get key v.slot = whole at root fits
      cases fits with
      | @inside items _ item _ found short inner =>
        have there := (List.getElem?_eq_some_iff.1 found).1
        have shortest := Nat.le_trans short (Nat.min_le_left ..)
        have allowed := Nat.le_trans short (Nat.min_le_right ..)
        have small : i ≤ Binary64.maxIndex :=
          Nat.le_trans (Nat.le_of_lt there) (Nat.le_trans shortest (by decide))
        -- the levels below the first are in the value that is written
        have reached := Engine.eval_itemAt root first' position small
        rw [Engine.item_of_getElem? found] at reached
        have built := Engine.eval_rebuild reached at' (inner.mono (Nat.min_le_left ..)) new
        refine ⟨.set (v.store actor) v.slot (some first)
          (rebuild (.itemAt (v.root actor) first) value rest), by rw [set, full], ?_⟩
        refine Host.write_some_iff.2 ⟨key, _, w, known, built, first', if_pos inside,
          position.not_less_zero, position.finite, ?_, ?_, ?_⟩
        · rw [position.toIndex_eq small]
          exact Nat.lt_of_lt_of_le there allowed
        · rw [position.toIndex_eq small, old, Value.items_array, Engine.setItem_inside there,
            List.length_set]
          exact allowed
        · rw [position.toIndex_eq small, old, Value.items_array, Engine.setItem_inside there,
            Value.replaceAt, List.modify_eq_set, Value.items_array, found]
          rfl

/-- Indices that ignore a slot stand for the same positions whatever it holds. -/
theorem points_kept {c : Engine.Context} {slot : UInt32} {indices : List Element}
    (at' : List.Forall₂ c.Points indices path) (beside : c.memory.SameBeside m key slot)
    (ignored : ∀ e ∈ indices, c.Ignores key slot e) :
    List.Forall₂ (Engine.Context.Points { c with memory := m }) indices path := by
  induction at' with
  | nil => exact .nil
  | cons points _ ih =>
    obtain ⟨first, others⟩ := List.forall_mem_cons.1 ignored
    obtain ⟨w, found, position⟩ := points
    exact .cons ⟨w, (first m beside).trans found, position⟩ (ih others)

/-- A store keeps its key when the cell that was written is none it reads. -/
theorem store_kept {c : Engine.Context} (known : Engine.storeKey c (v.store actor) = .ok key)
    (beside : c.memory.SameBeside m key v.slot) (ignored : ∀ e ∈ actor, c.Ignores key v.slot e) :
    Engine.storeKey { c with memory := m } (v.store actor) = .ok key := by
  rw [← known]
  unfold store
  split
  · rw [Engine.storeKey, Engine.storeKey]
  · cases actor with
    | none => rw [Option.getD_none, Engine.storeKey, Engine.storeKey, eval, eval]
    | some who => rw [Option.getD_some, Engine.storeKey, Engine.storeKey, ignored who rfl m beside]

/-- A write at a path of positions that are there succeeds. It replaces the value at the path,
whole, by the one that the element had before, and keeps what is beside the path and all other
slots. That value is read at the path then, if neither the actor nor an index depends on the slot.
-/
theorem set_replaces (e : Engine) (runner : Int64) (v : IndexedVar) (value : Element)
    (actor : Option Element) (extra : List Element) (deep : v.path ++ extra ≠ [])
    (known : Engine.storeKey (e.seenBy runner) (v.store actor) = .ok key)
    (inside : v.slot < (e.seenBy runner).capacity key)
    (new : eval (e.seenBy runner) value = .ok x)
    (at' : List.Forall₂ (e.seenBy runner).Points (v.path ++ extra) path)
    (fits : (e.memory.get key v.slot).Fits (min 9999 e.config.maxArrayLength) path) :
    ∃ m : Memory,
      (∃ a, v.set value actor extra = [a] ∧ ∀ steps ip len,
        Engine.step ⟨e.config, e.memory, runner, steps⟩ ip len a =
          (.ok (.goto (ip + 1)), ⟨e.config, m, runner, steps⟩)) ∧
      (e.config.maxSteps ≠ some 0 → e.runList (.ofList (v.set value actor extra)) runner =
        some (.ok .completed, ⟨e.config, m, runner, 1⟩)) ∧
      m.get key v.slot = (e.memory.get key v.slot).replaceAt path x ∧
      (m.get key v.slot).follow path = some x ∧
      (∀ other, ¬ path <+: other → ¬ other <+: path →
        (m.get key v.slot).follow other = (e.memory.get key v.slot).follow other) ∧
      e.memory.SameBeside m key v.slot ∧
      ((∀ who ∈ actor, (e.seenBy runner).Ignores key v.slot who) →
        (∀ i ∈ v.path ++ extra, (e.seenBy runner).Ignores key v.slot i) →
        eval { e.seenBy runner with memory := m }
          ({ v with path := v.path ++ extra }.get actor) = .ok x) := by
  -- one action writes the whole path, so the run is one step
  obtain ⟨a, one, done⟩ := set_at_path (h := ⟨e.config, runner⟩) deep known inside new at' fits
  have there : ((e.memory.put key v.slot _).get key v.slot) = _ :=
    (Engine.Memory.get_put e.memory key key v.slot v.slot
      ((e.memory.get key v.slot).replaceAt path x)).trans (if_pos ⟨rfl, rfl⟩)
  have beside : e.memory.SameBeside
      (e.memory.put key v.slot ((e.memory.get key v.slot).replaceAt path x)) key v.slot := by
    intro other s apart
    rw [Engine.Memory.get_put, if_neg apart]
  refine ⟨_, ⟨a, one, Host.step_of_act done⟩, fun free => ?_, there, ?_, ?_, beside, ?_⟩
  · rw [one]
    exact Host.runList_of_act free done
  · rw [there]
    exact Value.follow_replaceAt fits
  · rw [there]
    exact fun _ => Value.follow_replaceAt_apart
  · -- what is read now goes the way that the write went
    intro unmoved ignored
    have root := eval_store (h := ⟨e.config, runner⟩) (store_kept known beside unmoved) inside
    rw [there] at root
    refine Engine.eval_descend root (points_kept at' beside ignored) (fun i mem => ?_)
      (Value.follow_replaceAt fits)
    have := fits.lt mem
    have : (9999 : Nat) ≤ Binary64.maxIndex := by decide
    omega

/-- An array is written three levels deep, at the negative zero on the second one. -/
def nested : Engine :=
  (Engine.new .default).setGlobal 7 (.array [.bool true, .array [.array [.neutral, .bool false]]])

/-- A place three levels into an array. -/
def place : IndexedVar := ⟨"a", .global, 7, [.ofNat 1, .number (.zero true)]⟩

/-- At a depth of two a write replaces exactly one item. -/
theorem set_replaces_nested :
    ∃ m : Memory,
      nested.runList (.ofList (place.set (.array [.eventPlayer]) none [.eventPlayer])) 1 =
        some (.ok .completed, ⟨nested.config, m, 1, 1⟩) ∧
      m.get .global 7 = .array [.bool true,
        .array [.array [.neutral, .array [.number (.ofInt 1)]]]] := by
  have at' : List.Forall₂ (nested.seenBy 1).Points (place.path ++ [.eventPlayer]) [1, 0, 1] :=
    .cons ⟨_, rfl, false, Binary64.isWhole_ofNat (by decide), nofun⟩
      (.cons ⟨_, rfl, true, Binary64.isWhole_negative_zero, fun _ => rfl⟩
        (.cons ⟨_, rfl, false, Binary64.isWhole_ofNat (by decide), nofun⟩ .nil))
  have new : eval (nested.seenBy 1) (.array [.eventPlayer]) =
    .ok (.array [.number (.ofInt 1)]) := rfl
  have known : Engine.storeKey (nested.seenBy 1) (place.store none) = .ok .global := rfl
  have fits : (nested.memory.get .global 7).Fits (min 9999 nested.config.maxArrayLength) [1,
    0, 1] :=
    .inside rfl (by decide) (.inside rfl (by decide) (.inside rfl (by decide) (.here _)))
  obtain ⟨m, -, run, there, -⟩ := set_replaces nested 1 place (.array [.eventPlayer]) none
    [.eventPlayer] (by decide) known (by decide) new at' fits
  exact ⟨m, run (by decide), there⟩

end IndexedVar

end SkipCode
