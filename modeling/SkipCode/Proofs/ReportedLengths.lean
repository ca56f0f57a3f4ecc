import SkipCode.Proofs.Access
import SkipCode.Proofs.Location

/-!
# Reported lengths

A write that would leave too long an array says how long that array would be. For an item behind the
limit this is one more than the index, which is a word; the index of a number too large for a word
is the greatest word, and one more than that is none. So the length that is reported then is zero.

* `Engine.eval_fails`: evaluating fails of nothing but a slot outside the stores;
* `Binary64.toIndex_eq_min`: the index of a number is its whole part, as far as words go;
* `Engine.overflows_iff`: one more than an index is no word exactly if its number is at least `2 ^
  64`;
* `Engine.assign_tooLong_iff`: when a write is refused because of a length, and which one it
  reports;
* `Engine.length_not_reported`: a write that is refused with the length zero.
-/

namespace SkipCode

namespace Binary64

variable {x : Binary64}

/-- The whole part of a zero is 0. -/
theorem wholePart_of_isZero (zero : x.isZero = true) : x.wholePart = 0 := by
  have significand := x.isZero_iff_significand.1 zero
  unfold wholePart
  split <;> rw [significand]
  · exact Nat.zero_shiftLeft _
  · exact Nat.zero_shiftRight _

/-- The index of a number that is not below zero is its whole part, or the greatest index. -/
theorem toIndex_eq_min (up : x.less 0 = false) (finite : x.isFinite = true) :
    x.toIndex = min x.wholePart maxIndex := by
  have number := not_isNaN_of_isFinite finite
  unfold toIndex
  rw [number, Bool.false_or, not_isInfinite_of_isFinite finite, if_neg Bool.false_ne_true]
  split
  · next negative =>
    -- of the numbers with a sign only the zero is not below zero
    have zero : x.isZero = true := by
      have negative' : (0 : Binary64).isNegative = false := rfl
      have zero' : (0 : Binary64).isZero = true := rfl
      have number' : (0 : Binary64).isNaN = false := rfl
      simpa [less, number, number', negative, negative', zero'] using up
    rw [wholePart_of_isZero zero, Nat.zero_min]
  · rfl

/-- The greatest index has more significant bits than a number. -/
theorem wholePart_ne_maxIndex (x : Binary64) : x.wholePart ≠ maxIndex := by
  obtain ⟨u, k, whole, short⟩ := x.wholePart_short
  intro same
  have greatest : maxIndex = 2 ^ 64 - 1 := rfl
  cases k with
  | zero =>
    rw [Nat.pow_zero, Nat.mul_one] at whole
    omega
  | succ k =>
    rw [Nat.pow_succ, ← Nat.mul_assoc] at whole
    omega

end Binary64

namespace Engine

/-! ## Why evaluating fails -/

/-- Fails of nothing but a slot outside the stores. -/
def FailsOutside {α : Type} (r : Except Fault α) : Prop :=
  ∀ f, r = .error f → ∃ key slot capacity, f = .slotOutOfRange key slot capacity

/-- A result is no failure. -/
theorem FailsOutside.ok {α : Type} (a : α) : FailsOutside (.ok a) := nofun

/-- Two steps that fail outside of arrays do so together. -/
theorem FailsOutside.bind {α β : Type} {r : Except Fault α} {k : α → Except Fault β}
    (first : FailsOutside r) (next : ∀ a, FailsOutside (k a)) : FailsOutside (r >>= k) := by
  cases r with
  | error f => exact fun f' same => first f' (by cases same; rfl)
  | ok a => exact next a

/-- So do two ways. -/
theorem FailsOutside.ite {α : Type} {p : Bool} {r s : Except Fault α} (first : FailsOutside r)
    (second : FailsOutside s) : FailsOutside (if p then r else s) := by
  split
  · exact first
  · exact second

/-- A missing slot is a failure outside of arrays. -/
theorem checkSlot_fails (c : Context) (key : StoreKey) (slot : UInt32) :
    FailsOutside (c.checkSlot key slot) := by
  unfold Context.checkSlot
  split
  · exact .ok _
  · exact fun f same => ⟨key, slot, _, (Except.error.inj same).symm⟩

variable (c : Context)

mutual

/-- Operands fail outside of arrays only, by induction on them. -/
theorem eval_fails : (e : Element) → FailsOutside (eval c e)
  | .number _ => by
    rw [eval]
    exact .ok _
  | .bool _ => by
    rw [eval]
    exact .ok _
  | .eventPlayer => by
    rw [eval]
    exact .ok _
  | .array items => by
    rw [eval]
    exact (evalAll_fails items).bind fun _ => .ok _
  | .variable st slot => by
    -- the one case that can fail
    rw [eval]
    exact (storeKey_fails st).bind fun key => (checkSlot_fails c key slot).bind fun _ => .ok _
  | .countOf array => by
    rw [eval]
    exact (eval_fails array).bind fun _ => .ok _
  | .lastOf array => by
    rw [eval]
    exact (eval_fails array).bind fun _ => .ok _
  | .not inner => by
    rw [eval]
    exact (eval_fails inner).bind fun _ => .ok _
  | .itemAt array index => by
    rw [eval]
    exact (eval_fails array).bind fun _ => (eval_fails index).bind fun _ => .ok _
  | .append array value => by
    rw [eval]
    exact (eval_fails array).bind fun _ => (eval_fails value).bind fun _ => .ok _
  | .indexOf array value => by
    rw [eval]
    exact (eval_fails array).bind fun _ => (eval_fails value).bind fun _ => .ok _
  | .arithmetic op lhs rhs => by
    rw [eval]
    exact (eval_fails lhs).bind fun _ => (eval_fails rhs).bind fun _ => .ok _
  | .compare lhs op rhs => by
    rw [eval]
    exact (eval_fails lhs).bind fun _ => (eval_fails rhs).bind fun _ => .ok _
  | .slice array start count => by
    rw [eval]
    exact (eval_fails array).bind fun _ => (eval_fails start).bind fun _ =>
      (eval_fails count).bind fun _ => .ok _
  | .and lhs rhs => by
    rw [eval]
    exact (eval_fails lhs).bind fun _ => .ite ((eval_fails rhs).bind fun _ => .ok _) (.ok _)
  | .or lhs rhs => by
    rw [eval]
    exact (eval_fails lhs).bind fun _ => .ite (.ok _) ((eval_fails rhs).bind fun _ => .ok _)

/-- So do lists of operands. -/
theorem evalAll_fails : (es : List Element) → FailsOutside (evalAll c es)
  | [] => by
    rw [evalAll]
    exact .ok _
  | e :: es => by
    rw [evalAll]
    exact (eval_fails e).bind fun _ => (evalAll_fails es).bind fun _ => .ok _

/-- So does finding a store. -/
theorem storeKey_fails : (st : Store) → FailsOutside (storeKey c st)
  | .global => by
    rw [storeKey]
    exact .ok _
  | .actor who => by
    rw [storeKey]
    exact (eval_fails who).bind fun _ => .ok _

end

/-- So do all operands of a write together. -/
theorem operands_fails (st : Store) (slot : UInt32) (index : Option Element) (value : Element) :
    FailsOutside (operands c st slot index value) := by
  refine (storeKey_fails c st).bind fun key => (eval_fails c value).bind fun v => ?_
  have last (i : Option Binary64) :
      FailsOutside (do c.checkSlot key slot; return (key, v, i) : Except Fault _) :=
    (checkSlot_fails c key slot).bind fun _ => .ok _
  cases index with
  | none => exact last none
  | some index => exact (eval_fails c index).bind fun i => last (some i.asNumber)

/-! ## Lengths -/

/-- One more than the index of a number is no word. -/
def Overflows (x : Binary64) : Prop := 2 ^ 64 ≤ x.toIndex + 1

/-- A number overflows exactly from the end of the machine's words on. -/
theorem overflows_iff {x : Binary64} (up : x.less 0 = false) (finite : x.isFinite = true) :
    Overflows x ↔ 2 ^ 64 ≤ x.wholePart := by
  have greatest : Binary64.maxIndex = 2 ^ 64 - 1 := rfl
  have between := x.wholePart_ne_maxIndex
  rw [Overflows, Binary64.toIndex_eq_min up finite]
  omega

/-- How long an array has to be for a write: as long as the value that is written whole; for an item
behind the limit, long enough for its position; for any other, also as long as the array is. -/
def needed (e : Engine) (key : StoreKey) (slot : UInt32) (v : Value) : Option Binary64 → Nat
  | none => v.items.length
  | some x =>
    if e.config.maxArrayLength ≤ x.toIndex then x.wholePart + 1
    else max (e.memory.get key slot).items.length (x.toIndex + 1)

variable {e : Engine} {key : StoreKey} {slot : UInt32} {v : Value} {x : Binary64}
  {length limit : Nat}

/-- A store is refused with the length of its array. -/
theorem store_tooLong_iff : (e.store key slot v).1 = .error (.arrayTooLong length limit) ↔
    limit = e.config.maxArrayLength ∧ limit < v.items.length ∧ length = v.items.length := by
  unfold store
  split
  · next long =>
    constructor
    · intro same
      cases same
      exact ⟨rfl, long, rfl⟩
    · rintro ⟨rfl, -, rfl⟩
      rfl
  · next short =>
    constructor
    · intro same
      cases same
    · rintro ⟨rfl, long, -⟩
      exact absurd long short

/-- A store at an index is refused with the length the array would have had. -/
theorem storeAt_tooLong_iff (word : e.config.maxArrayLength < 2 ^ 64) :
    (e.storeAt key slot x v).1 = .error (.arrayTooLong length limit) ↔
      (x.less 0 = false ∧ x.isFinite = true) ∧ limit = e.config.maxArrayLength ∧
        limit < e.needed key slot v (some x) ∧
          (¬ Overflows x → length = e.needed key slot v (some x)) ∧
        (Overflows x → length = 0) := by
  unfold storeAt needed
  dsimp only
  split
  · next bad =>
    refine ⟨nofun, fun ⟨⟨up, finite⟩, _⟩ => ?_⟩
    rw [up, finite] at bad
    cases bad
  · next good =>
    have good : x.less 0 = false ∧ x.isFinite = true := by simpa using good
    have index := Binary64.toIndex_eq_min good.1 good.2
    have greatest : Binary64.maxIndex = 2 ^ 64 - 1 := rfl
    have between := x.wholePart_ne_maxIndex
    rw [overflows_iff good.1 good.2]
    split
    · next far =>
      -- the length is one more than the index, as a word
      have beyond : e.config.maxArrayLength < x.wholePart + 1 := by omega
      have reported : (x.toIndex + 1) % 2 ^ 64 = if 2 ^ 64 ≤
        x.wholePart then 0 else x.wholePart + 1 := by
        split <;> omega
      rw [reported]
      constructor
      · intro same
        cases same
        exact ⟨good, rfl, beyond, fun fits => if_neg fits, fun large => if_pos large⟩
      · rintro ⟨-, rfl, -, fits, wraps⟩
        split
        · next large => rw [wraps large]
        · next within => rw [fits within]
    · next near =>
      -- the limit is a word, so one more than an index within it is one too
      have fits : ¬ 2 ^ 64 ≤ x.wholePart := by omega
      rw [store_tooLong_iff, Value.items_array, length_setItem]
      exact ⟨fun ⟨same, long, all⟩ => ⟨good, same, same ▸ long, fun _ => all,
        fun large => absurd large fits⟩,
        fun ⟨_, same, long, all, _⟩ => ⟨same, long, all fits⟩⟩

/-- When a write is refused because of a length, and what it reports. It has found its operands, and
an index that is neither below zero nor infinite; the array would need more items than the limit
allows; and the length that is reported is the one that it would need, and so more than the limit,
unless the index is a number of at least `2 ^ 64`. Then one more than the index is no word, and zero
is reported. No other index overflows, and none of a write that goes on. -/
theorem assign_tooLong_iff (word : e.config.maxArrayLength < 2 ^ 64) (st : Store) (slot : UInt32)
    (index : Option Element) (value : Element) :
    ((e.assign st slot index value).1 = .error (.arrayTooLong length limit) ↔
      ∃ key v i, operands e.context st slot index value = .ok (key, v, i) ∧
        (∀ x ∈ i, x.less 0 = false ∧ x.isFinite = true) ∧
        limit = e.config.maxArrayLength ∧ limit < e.needed key slot v i ∧
        ((∀ x ∈ i, ¬ Overflows x) → length = e.needed key slot v i) ∧
        ((∃ x ∈ i, Overflows x) → length = 0)) ∧
    ∀ x : Binary64, x.less 0 = false → x.isFinite = true →
      (Overflows x ↔ 2 ^ 64 ≤ x.wholePart) ∧ (Overflows x →
        e.config.maxArrayLength ≤ x.toIndex) := by
  refine ⟨?_, fun x up finite => ⟨overflows_iff up finite, fun large => ?_⟩⟩
  · unfold assign
    cases found : operands e.context st slot index value with
    | error f =>
      -- operands are not refused because of a length
      obtain ⟨key, slot', capacity, rfl⟩ := operands_fails e.context st slot index value f found
      exact ⟨nofun, nofun⟩
    | ok r =>
      obtain ⟨key, v, _ | x⟩ := r
      · dsimp only
        rw [store_tooLong_iff]
        constructor
        · rintro ⟨same, long, rfl⟩
          exact ⟨key, v, none, rfl, nofun, same, same ▸ long, fun _ => rfl, nofun⟩
        · rintro ⟨_, _, _, same, -, limit, long, reported, -⟩
          cases same
          exact ⟨limit, long, reported nofun⟩
      · dsimp only
        rw [storeAt_tooLong_iff word]
        constructor
        · rintro ⟨good, same, long, fits, wraps⟩
          refine ⟨key, v, some x, rfl, ?_, same, long, fun all => fits (all x rfl), ?_⟩
          · rintro _ ⟨⟩
            exact good
          · rintro ⟨_, ⟨⟩, large⟩
            exact wraps large
        · rintro ⟨_, _, _, same, good, limit, long, fits, wraps⟩
          cases same
          refine ⟨good x rfl, limit, long, fun small => fits ?_, fun large => wraps ⟨x, rfl, large⟩⟩
          rintro _ ⟨⟩
          exact small
  · have : 2 ^ 64 ≤ x.toIndex + 1 := large
    omega

/-- The first position behind the limit is refused with the length that would include it. -/
theorem assign_tooLong_thousand :
    ((new .default).assign .global 0 (some (.ofNat 1000)) (.ofNat 9)).1 =
      .error (.arrayTooLong 1001 1000) := by
  have fits : ¬ Overflows (.ofNat 1000) := by
    rw [Overflows]
    decide +kernel
  refine (assign_tooLong_iff (by decide) .global 0 _ _).1.2
    ⟨.global, .number (.ofNat 9), some (.ofNat 1000), rfl, ?_, rfl, by decide +kernel,
      fun _ => by decide +kernel, ?_⟩
  · rintro _ ⟨⟩
    decide +kernel
  · rintro ⟨_, ⟨⟩, large⟩
    exact absurd large fits

/-- The length zero is reported of a write for which there is no limit that high. -/
theorem length_not_reported :
    ¬ ∀ (e : Engine) (st : Store) (slot : UInt32) (index : Option Element) (value : Element)
      (length limit : Nat), (e.assign st slot index value).1 = .error (.arrayTooLong length limit) →
        limit < length := by
  intro claim
  have refused : ((new .default).assign .global 0 (some (.ofNat (10 ^ 20))) (.ofNat 9)).1 =
      .error (.arrayTooLong 0 1000) := by decide +kernel
  exact absurd (claim _ _ _ _ _ _ _ refused) (by decide)

end Engine

end SkipCode
