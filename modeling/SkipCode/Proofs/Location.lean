import SkipCode.Engine.Run
import SkipCode.Proofs.Host
import SkipCode.Proofs.Whole
import SkipCode.Storage.Variable

/-!
# Locations and stacks

A *location* is a slot of the shared store or of the store of the actor that runs the unit: what a
variable of a unit owns. A stack is an array in a location, and the compiled code has three ways to
change one: it pushes a value, pops the top, or writes inside the top. Each is a single write, and
here stands what it does to the array.

Lengths are computed as numbers of 64 bits, so all of this holds for arrays of at most `2 ^ 53`
items. An engine that allows no longer arrays fails to push on one that is longer.
-/

namespace SkipCode

open Engine (Host Memory StoreKey)

/-- A slot, and the kind of store it is in. -/
structure Location where
  pool : Pool
  slot : UInt32
deriving DecidableEq, Repr

/-- The items of an array are its items. -/
@[simp] theorem Value.items_array (items : List Value) : (Value.array items).items = items := rfl

namespace Engine.Memory

/-- Writes a slot that is emptied first, as the engine does to change an array. -/
def put (m : Memory) (key : StoreKey) (slot : UInt32) (v : Value) : Memory :=
  (m.set key slot .neutral).set key slot v

/-- A cell that was written holds what was put there, and the others what they held. -/
theorem get_put (m : Memory) (key other : StoreKey) (slot s : UInt32) (v : Value) :
    (m.put key slot v).get other s = if other = key ∧ s = slot then v else m.get other s := by
  unfold put
  rw [get_set, get_set]
  split <;> rfl

end Engine.Memory

namespace Engine.Host

/-- The store of a pool in a run. The actor is given as a number, which may stand for another
one. -/
def key (h : Host) : Pool → StoreKey
  | .global => .global
  | .actor => .actor (Binary64.ofInt h.actor.toInt).toInt64

/-- Pools are told apart by their keys. -/
theorem key_injective (h : Host) {p q : Pool} (e : h.key p = h.key q) : p = q := by
  cases p <;> cases q <;> first | rfl | cases e

def value (h : Host) (m : Memory) (l : Location) : Value := m.get (h.key l.pool) l.slot

/-- Whether a location is inside the capacity of its store. -/
def Holds (h : Host) (l : Location) : Prop :=
  match l.pool with
  | .global => l.slot < h.config.globalCapacity
  | .actor => l.slot < h.config.actorCapacity

/-- A slot that a host holds passes the check. -/
theorem checkSlot_eq {h : Host} {m : Memory} {l : Location} (holds : h.Holds l) :
    (h.context m).checkSlot (h.key l.pool) l.slot = .ok () := by
  obtain ⟨pool, slot⟩ := l
  cases pool <;> exact if_pos holds

/-- Only such a slot does. -/
theorem holds_of_checkSlot {h : Host} {m : Memory} {l : Location}
    (inside : (h.context m).checkSlot (h.key l.pool) l.slot = .ok ()) : h.Holds l := by
  obtain ⟨pool, slot⟩ := l
  unfold Context.checkSlot at inside
  split at inside
  · next lt => cases pool <;> exact lt
  · cases inside

/-! ## Writes -/

/-- A write of a whole cell needs its key, its value and the slot. -/
theorem write_none_iff {h : Host} {m m' : Memory} {st : Store} {slot : UInt32} {value : Element} :
    h.write m st slot none value = some m' ↔
      ∃ key v, storeKey (h.context m) st = .ok key ∧ eval (h.context m) value = .ok v ∧
        (h.context m).checkSlot key slot = .ok () ∧
        v.items.length ≤ h.config.maxArrayLength ∧ m' = m.set key slot v := by
  unfold write operands
  cases hk : storeKey (h.context m) st with
  | error f => simp [bind, Except.bind]
  | ok key =>
    cases hv : eval (h.context m) value with
    | error f => simp [bind, Except.bind]
    | ok v =>
      cases hc : (h.context m).checkSlot key slot with
      | error f => simp [bind, Except.bind, pure, Except.pure, hc]
      | ok u =>
        simp only [bind, Except.bind, pure, Except.pure, hc, store, Option.ite_none_left_eq_some,
          Except.ok.injEq, Option.some.injEq, Nat.not_lt]
        constructor
        · rintro ⟨hl, rfl⟩
          exact ⟨key, v, rfl, rfl, hc, hl, rfl⟩
        · rintro ⟨key', v', rfl, rfl, -, hl, rfl⟩
          exact ⟨hl, rfl⟩

/-- A write at an index needs the index besides. -/
theorem write_some_iff {h : Host} {m m' : Memory} {st : Store} {slot : UInt32}
    {index value : Element} :
    h.write m st slot (some index) value = some m' ↔
      ∃ key v i, storeKey (h.context m) st = .ok key ∧ eval (h.context m) value = .ok v ∧
        eval (h.context m) index = .ok i ∧ (h.context m).checkSlot key slot = .ok () ∧
        i.asNumber.less 0 = false ∧ i.asNumber.isFinite = true ∧
        i.asNumber.toIndex < h.config.maxArrayLength ∧
        (setItem (m.get key slot).items i.asNumber.toIndex v).length ≤ h.config.maxArrayLength ∧
        m' = m.put key slot (.array (setItem (m.get key slot).items i.asNumber.toIndex v)) := by
  -- each operand that fails ends the write, so they are gone through in the order of the engine
  unfold write operands
  cases hk : storeKey (h.context m) st with
  | error f => simp [bind, Except.bind]
  | ok key =>
    cases hv : eval (h.context m) value with
    | error f => simp [bind, Except.bind]
    | ok v =>
      cases hi : eval (h.context m) index with
      | error f => simp [bind, Except.bind, hi]
      | ok i =>
        cases hc : (h.context m).checkSlot key slot with
        | error f => simp [bind, Except.bind, pure, Except.pure, hi, hc]
        | ok u =>
          have items (w : List Value) : (Value.array w).items = w := rfl
          simp only [bind, Except.bind, pure, Except.pure, hi, hc, storeAt, store, Memory.put,
            Option.ite_none_left_eq_some, Bool.or_eq_true, Bool.not_eq_true', Except.ok.injEq,
            Option.some.injEq, Nat.not_lt, Nat.not_le, not_or, Bool.not_eq_false,
            Bool.not_eq_true, items]
          constructor
          · rintro ⟨⟨h₁, h₂⟩, h₃, h₄, rfl⟩
            exact ⟨key, v, i, rfl, rfl, rfl, hc, h₁, h₂, h₃, h₄, rfl⟩
          · rintro ⟨key', v', i', rfl, rfl, rfl, -, h₁, h₂, h₃, h₄, rfl⟩
            exact ⟨⟨h₁, h₂⟩, h₃, h₄, rfl⟩

/-- A write changes one slot of one store. -/
theorem write_at {h : Host} {m m' : Memory} {st : Store} {slot : UInt32} {index : Option Element}
    {value : Element} (done : h.write m st slot index value = some m') :
    ∃ key, storeKey (h.context m) st = .ok key ∧
      ∀ other s, ¬ (other = key ∧ s = slot) → m'.get other s = m.get other s := by
  cases index with
  | none =>
    obtain ⟨key, v, found, -, -, -, rfl⟩ := write_none_iff.1 done
    refine ⟨key, found, fun other s elsewhere => ?_⟩
    rw [Memory.get_set, if_neg elsewhere]
  | some index =>
    obtain ⟨key, v, i, found, -, -, -, -, -, -, -, rfl⟩ := write_some_iff.1 done
    refine ⟨key, found, fun other s elsewhere => ?_⟩
    rw [Memory.get_put, if_neg elsewhere]

end Engine.Host

namespace Engine

/-- An item at the end is appended. -/
theorem setItem_length (items : List Value) (v : Value) :
    setItem items items.length v = items ++ [v] := by
  induction items with
  | nil => rfl
  | cons a rest ih => simp [setItem, ih]

/-- An item behind a beginning is written behind it. -/
theorem setItem_append (below above : List Value) (n : Nat) (v : Value) :
    setItem (below ++ above) (below.length + n) v = below ++ setItem above n v := by
  induction below with
  | nil => simp
  | cons a rest ih =>
    rw [show (a :: rest).length + n = rest.length + n + 1 by simp; omega]
    simp [setItem, ih]

/-- An item inside is replaced. -/
theorem setItem_inside {items : List Value} {position : Nat} {v : Value}
    (inside : position < items.length) :
    setItem items position v = items.set position v := by
  induction items generalizing position with
  | nil => cases inside
  | cons a items ih =>
    cases position with
    | zero => rfl
    | succ position => rw [setItem, List.set_cons_succ, ih (Nat.lt_of_succ_lt_succ inside)]

/-- Every other item is as it was. -/
theorem getD_setItem (items : List Value) (k j : Nat) (v : Value) :
    (setItem items k v).getD j .neutral = if j = k then v else items.getD j .neutral := by
  induction items generalizing k j with
  | nil =>
    rw [setItem, List.getD_eq_getElem?_getD]
    rcases Nat.lt_trichotomy j k with lt | rfl | gt
    · rw [List.getElem?_append_left (by simpa using lt), List.getElem?_replicate, if_pos lt,
        if_neg (Nat.ne_of_lt lt)]
      rfl
    · rw [List.getElem?_append_right (by simp), if_pos rfl]
      simp
    · rw [List.getElem?_eq_none (by simp; omega), if_neg (Nat.ne_of_gt gt)]
      rfl
  | cons item rest ih =>
    cases k with
    | zero => cases j <;> simp [setItem]
    | succ k =>
      cases j with
      | zero => simp [setItem]
      | succ j => simpa [setItem] using ih k j

/-- Items are filled up to the one that is written. -/
theorem length_setItem (items : List Value) (k : Nat) (v : Value) :
    (setItem items k v).length = max items.length (k + 1) := by
  induction items generalizing k with
  | nil => simp [setItem]
  | cons item rest ih =>
    cases k with
    | zero => simp [setItem]
    | succ k => simp [setItem, ih]

/-- Writing the last item of an array keeps the others. -/
theorem setItem_last (below : List Value) (top v : Value) :
    setItem (below ++ [top]) below.length v = below ++ [v] := by
  have := setItem_append below [top] 0 v
  simpa [setItem] using this

end Engine

namespace Location

/-- The store of a location as an actor sees it, which is the running one when none is given. -/
def store (l : Location) (actor : Option Element) : Store :=
  match l.pool with
  | .global => .global
  | .actor => .actor (actor.getD .eventPlayer)

def root (l : Location) (actor : Option Element) : Element := .variable (l.store actor) l.slot

/-- The position of the top of a stack. -/
def top (l : Location) (actor : Option Element) : Element :=
  (Element.countOf (l.root actor)).subtract (.ofNat 1)

def push (l : Location) (value : Element) : Action :=
  .set (l.store none) l.slot (some (.countOf (l.root none))) value

def pop (l : Location) : Action :=
  .set (l.store none) l.slot none (.slice (l.root none) (.ofNat 0) (l.top none))

/-- Writes the top of a stack. -/
def setTop (l : Location) (actor : Option Element) (value : Element) : Action :=
  .set (l.store actor) l.slot (some (l.top actor)) value

variable {h : Host} {m m' : Memory} {l : Location}

/-- A place is read through the key of its pool. -/
theorem storeKey_eq (h : Host) (m : Memory) (l : Location) :
    Engine.storeKey (h.context m) (l.store none) = .ok (h.key l.pool) := by
  obtain ⟨pool, slot⟩ := l
  cases pool with
  | global => simp [store, Host.key, Engine.storeKey]
  | actor =>
    simp [store, Host.key, Engine.storeKey, Engine.eval, Host.context, Value.asNumber, pure,
      Except.pure, bind, Except.bind]

/-- The root of a place is its value. -/
theorem eval_root (holds : h.Holds l) :
    Engine.eval (h.context m) (l.root none) = .ok (h.value m l) := by
  rw [root, Engine.eval, storeKey_eq]
  simp [bind, Except.bind, Engine.Context.read, Host.checkSlot_eq holds, pure, Except.pure]
  rfl

/-- The top of a stack depends on its items. -/
theorem eval_lastOf_congr (same : (h.value m' l).items = (h.value m l).items) :
    Engine.eval (h.context m') (.lastOf (l.root none)) =
      Engine.eval (h.context m) (.lastOf (l.root none)) := by
  have checked : (h.context m').checkSlot (h.key l.pool) l.slot =
      (h.context m).checkSlot (h.key l.pool) l.slot := rfl
  simp only [root, Engine.eval, storeKey_eq, Engine.Context.read, bind, Except.bind, checked]
  cases (h.context m).checkSlot (h.key l.pool) l.slot with
  | error f => rfl
  | ok u => exact congrArg (fun items => Except.ok (items.getLastD .neutral)) same

/-- What a location holds when some actor's copy of it can be read. -/
theorem eval_root_inv {actor : Option Element} {v : Value}
    (e : Engine.eval (h.context m) (l.root actor) = .ok v) :
    ∃ key, Engine.storeKey (h.context m) (l.store actor) = .ok key ∧
      (h.context m).checkSlot key l.slot = .ok () ∧ v = m.get key l.slot := by
  rw [root, Engine.eval] at e
  cases hk : Engine.storeKey (h.context m) (l.store actor) with
  | error f => simp [hk, bind, Except.bind] at e
  | ok key =>
    cases hc : (h.context m).checkSlot key l.slot with
    | error f => simp [hk, hc, bind, Except.bind, Engine.Context.read] at e
    | ok u =>
      simp only [hk, hc, bind, Except.bind, Engine.Context.read, pure, Except.pure,
        Except.ok.injEq] at e
      exact ⟨key, rfl, hc, e.symm⟩

/-- A length is the number of items. -/
theorem eval_countOf {e : Element} {v : Value} (he : Engine.eval (h.context m) e = .ok v) :
    Engine.eval (h.context m) (.countOf e) = .ok (.number (.ofNat v.items.length)) := by
  rw [Engine.eval, he]
  rfl

/-- A number is itself. -/
theorem eval_number (x : Binary64) :
    Engine.eval (h.context m) (.number x) = .ok (.number x) := by
  rw [Engine.eval]

/-- A length has a value only where the array has one. -/
theorem eval_countOf_inv {e : Element} {w : Value}
    (hw : Engine.eval (h.context m) (.countOf e) = .ok w) :
    ∃ v, Engine.eval (h.context m) e = .ok v ∧ w = .number (.ofNat v.items.length) := by
  rw [Engine.eval] at hw
  cases he : Engine.eval (h.context m) e with
  | error f => simp [he, bind, Except.bind] at hw
  | ok v =>
    simp only [he, bind, Except.bind, pure, Except.pure, Except.ok.injEq] at hw
    exact ⟨v, rfl, hw.symm⟩

/-- The index of the top is one below the number of items. -/
theorem eval_top {actor : Option Element} {v : Value}
    (he : Engine.eval (h.context m) (l.root actor) = .ok v) :
    Engine.eval (h.context m) (l.top actor) =
      .ok (.number ((Binary64.ofNat v.items.length).sub (.ofNat 1))) := by
  rw [top, Element.subtract, Engine.eval, eval_countOf he, Element.ofNat, eval_number]
  rfl

/-- So the top has a value only where the array has one. -/
theorem eval_top_inv {actor : Option Element} {w : Value}
    (hw : Engine.eval (h.context m) (l.top actor) = .ok w) :
    ∃ v, Engine.eval (h.context m) (l.root actor) = .ok v ∧
      w = .number ((Binary64.ofNat v.items.length).sub (.ofNat 1)) := by
  rw [top, Element.subtract, Engine.eval] at hw
  cases hc : Engine.eval (h.context m) (.countOf (l.root actor)) with
  | error f => simp [hc, bind, Except.bind] at hw
  | ok c =>
    obtain ⟨v, hv, rfl⟩ := eval_countOf_inv hc
    refine ⟨v, hv, ?_⟩
    have := eval_top hv
    rw [top, Element.subtract, Engine.eval, hw] at this
    exact Except.ok.inj this

/-- So has the last item. -/
theorem eval_lastOf_inv {e : Element} {w : Value}
    (hw : Engine.eval (h.context m) (.lastOf e) = .ok w) :
    ∃ v, Engine.eval (h.context m) e = .ok v ∧ w = v.items.getLastD .neutral := by
  rw [Engine.eval] at hw
  cases he : Engine.eval (h.context m) e with
  | error f => simp [he, bind, Except.bind] at hw
  | ok v =>
    simp only [he, bind, Except.bind, pure, Except.pure, Except.ok.injEq] at hw
    exact ⟨v, rfl, hw.symm⟩

/-! ## Pushing -/

/-- A push that succeeds puts its value on the array. -/
theorem push_inv {value : Element} (small : h.config.maxArrayLength ≤ 2 ^ 53)
    (pushed : h.act m (l.push value) = some m') :
    ∃ v, Engine.eval (h.context m) value = .ok v ∧ (h.value m l).items.length < 2 ^ 53 ∧
      m' = m.put (h.key l.pool) l.slot (.array ((h.value m l).items ++ [v])) := by
  obtain ⟨key, v, i, hk, hv, hi, -, -, -, hin, hlen, rfl⟩ := Host.write_some_iff.1 pushed
  rw [storeKey_eq] at hk
  cases hk
  obtain ⟨w, hw, rfl⟩ := eval_countOf_inv hi
  obtain ⟨key, hk, -, rfl⟩ := eval_root_inv hw
  rw [storeKey_eq] at hk
  cases hk
  change (Binary64.ofNat (h.value m l).items.length).toIndex < _ at hin
  have hs : (h.value m l).items.length < 2 ^ 53 := by
    apply Nat.lt_of_not_le
    intro hl
    have := Binary64.le_toIndex_ofNat hl
    omega
  refine ⟨v, hv, hs, ?_⟩
  congr 2
  show Engine.setItem (h.value m l).items (Binary64.ofNat (h.value m l).items.length).toIndex v = _
  rw [Binary64.toIndex_ofNat (by omega), Engine.setItem_length]

/-- Behind a push the top of the stack is what was pushed. -/
theorem eval_push {value : Element} (small : h.config.maxArrayLength ≤ 2 ^ 53)
    (pushed : h.act m (l.push value) = some m') :
    Engine.eval (h.context m') (.lastOf (l.root none)) = Engine.eval (h.context m) value := by
  obtain ⟨key, w, i, -, -, counted, -⟩ := Host.write_some_iff.1 pushed
  obtain ⟨items, root, -⟩ := eval_countOf_inv counted
  obtain ⟨key, found, inside, -⟩ := eval_root_inv root
  obtain rfl : key = h.key l.pool := Except.ok.inj (found.symm.trans (storeKey_eq h m l))
  obtain ⟨v, hv, -, rfl⟩ := push_inv small pushed
  have top : ∀ items : List Value, (items ++ [v]).getLastD .neutral = v := by simp
  rw [Engine.eval, eval_root (Host.holds_of_checkSlot inside), hv, Host.value, Memory.get_put,
    if_pos ⟨rfl, rfl⟩]
  exact congrArg Except.ok (top _)

/-- There is room for a push as long as the array is shorter than the limit. -/
theorem push_eq {value : Element} {v : Value} (holds : h.Holds l)
    (evaluates : Engine.eval (h.context m) value = .ok v)
    (room : (h.value m l).items.length < h.config.maxArrayLength)
    (small : (h.value m l).items.length ≤ 2 ^ 53) :
    h.act m (l.push value) =
      some (m.put (h.key l.pool) l.slot (.array ((h.value m l).items ++ [v]))) := by
  have whole := Binary64.isWhole_ofNat small
  have index := Binary64.toIndex_ofNat small
  have items : Engine.setItem (h.value m l).items
      (Binary64.ofNat (h.value m l).items.length).toIndex v = (h.value m l).items ++ [v] := by
    rw [index, Engine.setItem_length]
  -- the index is the length, which is whole and below the limit
  apply Host.write_some_iff.2
  refine ⟨_, v, _, storeKey_eq h m l, evaluates, eval_countOf (eval_root holds),
    Host.checkSlot_eq holds, whole.not_less_zero, whole.finite, ?_, ?_, ?_⟩
  · show (Binary64.ofNat (h.value m l).items.length).toIndex < _
    rw [index]
    exact room
  · show (Engine.setItem (h.value m l).items
      (Binary64.ofNat (h.value m l).items.length).toIndex v).length ≤ _
    rw [items]
    simp
    omega
  · exact congrArg (fun items => m.put (h.key l.pool) l.slot (.array items)) items.symm

/-! ## Popping -/

/-- The slice without the last item is what the pop leaves. -/
theorem slice_all_but_last (items : List Value) (small : items.length ≤ 2 ^ 53) :
    Engine.slice (.array items) (.ofNat 0)
      ((Binary64.ofNat items.length).sub (.ofNat 1)) = .array items.dropLast := by
  have zero : (Binary64.ofNat 0).toIndex = 0 := rfl
  have less : (Binary64.ofNat 0).less 0 = false := rfl
  simp only [Engine.slice, less, Bool.false_eq_true, if_false, zero, List.drop_zero]
  by_cases h0 : items.length = 0
  · obtain rfl : items = [] := List.length_eq_zero_iff.1 h0
    have none : ((Binary64.ofNat 0).sub (.ofNat 1)).lessEq 0 = true := by decide +kernel
    rw [List.length_nil, if_pos none]
    rfl
  · have count := (Binary64.isWhole_ofNat small).sub (Binary64.isWhole_ofNat (by omega))
      (show 1 ≤ items.length by omega) small
    have index := count.toIndex_eq (by unfold Binary64.maxIndex; omega)
    show (if _ then _ else Value.array (List.take _ items)) = _
    rw [index, List.dropLast_eq_take]
    split
    · next h1 =>
      rw [(count.lessEq_zero_iff).1 h1]
      rfl
    · rfl

/-- A slice depends on the items alone. -/
theorem slice_eq (v : Value) (start count : Binary64) :
    Engine.slice v start count = Engine.slice (.array v.items) start count := rfl

/-- The value that a pop writes is the array without its last item. -/
theorem eval_pop (holds : h.Holds l) (small : (h.value m l).items.length ≤ 2 ^ 53) :
    Engine.eval (h.context m) (.slice (l.root none) (.ofNat 0) (l.top none)) =
      .ok (.array (h.value m l).items.dropLast) := by
  rw [Engine.eval, eval_root holds, Element.ofNat, eval_number, eval_top (eval_root holds)]
  simp only [bind, Except.bind, pure, Except.pure, Value.asNumber]
  rw [slice_eq, slice_all_but_last _ small]

/-- A pop takes the last item. -/
theorem pop_inv (small : (h.value m l).items.length ≤ 2 ^ 53)
    (popped : h.act m l.pop = some m') :
    m' = m.set (h.key l.pool) l.slot (.array (h.value m l).items.dropLast) := by
  obtain ⟨key, v, hk, hv, hc, -, rfl⟩ := Host.write_none_iff.1 popped
  rw [storeKey_eq] at hk
  cases hk
  have holds : h.Holds l := Host.holds_of_checkSlot hc
  rw [eval_pop holds small] at hv
  cases hv
  rfl

/-- A pop is done on every array of a length that fits. -/
theorem pop_eq (holds : h.Holds l) (small : (h.value m l).items.length ≤ 2 ^ 53)
    (fits : (h.value m l).items.length ≤ h.config.maxArrayLength) :
    h.act m l.pop =
      some (m.set (h.key l.pool) l.slot (.array (h.value m l).items.dropLast)) := by
  apply Host.write_none_iff.2
  refine ⟨_, _, storeKey_eq h m l, eval_pop holds small, Host.checkSlot_eq holds, ?_, rfl⟩
  show (h.value m l).items.dropLast.length ≤ _
  rw [List.length_dropLast]
  omega

/-! ## Writing the top -/

/-- Writing the top changes the copy of one actor, and of that the last item, if it has one. -/
theorem setTop_inv {actor : Option Element} {value : Element}
    (written : h.act m (l.setTop actor value) = some m') :
    ∃ key v, Engine.storeKey (h.context m) (l.store actor) = .ok key ∧
      Engine.eval (h.context m) value = .ok v ∧
      ∀ below top, (m.get key l.slot).items = below ++ [top] →
        (below ++ [top]).length ≤ 2 ^ 53 →
        m' = m.put key l.slot (.array (below ++ [v])) := by
  obtain ⟨key, v, i, hk, hv, hi, -, -, -, -, -, rfl⟩ := Host.write_some_iff.1 written
  refine ⟨key, v, hk, hv, fun below top items small => ?_⟩
  obtain ⟨w, hw, rfl⟩ := eval_top_inv hi
  obtain ⟨key', hk', -, rfl⟩ := eval_root_inv hw
  rw [hk] at hk'
  cases hk'
  simp only [List.length_append, List.length_singleton] at small
  -- the length less one is not rounded, so it is the index of the top
  have count := (Binary64.isWhole_ofNat (show below.length + 1 ≤ 2 ^ 53 by omega)).sub
    (Binary64.isWhole_ofNat (by omega)) (show 1 ≤ below.length + 1 by omega) small
  have index := count.toIndex_eq (by unfold Binary64.maxIndex; omega)
  rw [Nat.add_sub_cancel] at index
  congr 2
  show Engine.setItem (m.get key l.slot).items
    ((Binary64.ofNat (m.get key l.slot).items.length).sub (.ofNat 1)).toIndex v = _
  rw [items, List.length_append, List.length_singleton, index, Engine.setItem_last]

/-- The top of a stack can be written when it has one. -/
theorem setTop_eq {value : Element} {v top : Value} {below : List Value} (holds : h.Holds l)
    (evaluates : Engine.eval (h.context m) value = .ok v)
    (items : (h.value m l).items = below ++ [top]) (small : (below ++ [top]).length ≤ 2 ^ 53)
    (fits : (below ++ [top]).length ≤ h.config.maxArrayLength) :
    h.act m (l.setTop none value) =
      some (m.put (h.key l.pool) l.slot (.array (below ++ [v]))) := by
  simp only [List.length_append, List.length_singleton] at small fits
  -- up to 2 ^ 53 the length less one is computed exactly, so the index is that of the top
  have count := (Binary64.isWhole_ofNat (show below.length + 1 ≤ 2 ^ 53 by omega)).sub
    (Binary64.isWhole_ofNat (by omega)) (show 1 ≤ below.length + 1 by omega) small
  rw [Nat.add_sub_cancel] at count
  have index := count.toIndex_eq (by unfold Binary64.maxIndex; omega)
  have top := eval_top (eval_root (m := m) holds)
  rw [items, List.length_append, List.length_singleton] at top
  have result : Engine.setItem (h.value m l).items
      ((Binary64.ofNat (below.length + 1)).sub (.ofNat 1)).toIndex v = below ++ [v] := by
    rw [index, items, Engine.setItem_last]
  apply Host.write_some_iff.2
  refine ⟨_, v, _, storeKey_eq h m l, evaluates, top, Host.checkSlot_eq holds,
    count.not_less_zero, count.finite, ?_, ?_, ?_⟩
  · show ((Binary64.ofNat (below.length + 1)).sub (.ofNat 1)).toIndex < _
    omega
  · show (Engine.setItem (h.value m l).items
      ((Binary64.ofNat (below.length + 1)).sub (.ofNat 1)).toIndex v).length ≤ _
    rw [result]
    simpa using fits
  · exact congrArg (fun items => m.put (h.key l.pool) l.slot (.array items)) result.symm

end Location

end SkipCode
