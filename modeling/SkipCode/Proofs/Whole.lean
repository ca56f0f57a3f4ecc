import SkipCode.Binary64.Conversion

/-!
# Whole numbers among the numbers of 64 bits

The compiled code counts: heights of stacks, indices and numbers of calls are all `Binary64`. Up to
`2 ^ 53` that loses nothing.

* `isWhole_ofDyadic`: what has at most 53 significant bits is exact;
* `IsWhole.sub`: so are differences of counts;
* `toIndex_ofNat` and `le_toIndex_ofNat`: a count used as an index is that index, and a count that
  is too large for that stays large;
* `equal_ofNat_iff`: counts are equal as numbers when they are equal;
* `toInt64_ofInt_toInt64`: an actor that a number stands for survives being a number.
-/

namespace SkipCode.Binary64

/-! ## The fields of a pattern -/

/-- Without the sign a number is its magnitude. -/
theorem magnitude_ofMagnitude {negative : Bool} {magnitude : UInt64}
    (small : magnitude.toNat < 2 ^ 63) :
    (ofMagnitude negative magnitude).magnitude = magnitude := by
  apply UInt64.toNat_inj.1
  cases negative with
  | false =>
    simp only [ofMagnitude, Binary64.magnitude, UInt64.toNat_and]
    show magnitude.toNat &&& (2 ^ 63 - 1) = magnitude.toNat
    rw [Nat.and_two_pow_sub_one_eq_mod, Nat.mod_eq_of_lt small]
  | true =>
    simp only [ofMagnitude, Binary64.magnitude, UInt64.toNat_and, UInt64.toNat_or, if_true]
    show (2 ^ 63 ||| magnitude.toNat) &&& (2 ^ 63 - 1) = magnitude.toNat
    rw [Nat.and_two_pow_sub_one_eq_mod, ← Nat.mul_one (2 ^ 63),
      ← Nat.two_pow_add_eq_or_of_lt small 1]
    omega

/-- The sign is the one it was made with. -/
theorem isNegative_ofMagnitude {negative : Bool} {magnitude : UInt64}
    (small : magnitude.toNat < 2 ^ 63) :
    (ofMagnitude negative magnitude).isNegative = negative := by
  have h63 : ((63 : UInt64).toNat % 64) = 63 := rfl
  cases negative with
  | false =>
    have : magnitude >>> 63 = 0 := by
      apply UInt64.toNat_inj.1
      rw [UInt64.toNat_shiftRight, h63, Nat.shiftRight_eq_div_pow]
      show magnitude.toNat / 2 ^ 63 = 0
      omega
    simp [ofMagnitude, isNegative, this]
  | true =>
    have : (0x8000000000000000 ||| magnitude) >>> 63 = 1 := by
      apply UInt64.toNat_inj.1
      rw [UInt64.toNat_shiftRight, h63, Nat.shiftRight_eq_div_pow, UInt64.toNat_or]
      show (2 ^ 63 ||| magnitude.toNat) / 2 ^ 63 = 1
      rw [← Nat.mul_one (2 ^ 63), ← Nat.two_pow_add_eq_or_of_lt small 1]
      omega
    simp [ofMagnitude, isNegative, this]

/-- Infinity is the largest exponent with nothing behind it. -/
theorem toNat_infiniteMagnitude : infiniteMagnitude.toNat = 2047 * 2 ^ 52 := rfl

/-- The exponent is what stands above the fraction. -/
theorem exponentField_eq (x : Binary64) : x.exponentField = x.magnitude.toNat / 2 ^ 52 := by
  have h52 : ((52 : UInt64).toNat % 64) = 52 := rfl
  rw [exponentField, UInt64.toNat_shiftRight, h52, Nat.shiftRight_eq_div_pow]

/-- The fraction is what stands below the exponent. -/
theorem fractionField_eq (x : Binary64) : x.fractionField = x.magnitude.toNat % 2 ^ 52 := by
  have h : x.fractionField = x.bits.toNat % 2 ^ 52 := by
    rw [← Nat.and_two_pow_sub_one_eq_mod, fractionField, UInt64.toNat_and]
    rfl
  have hm : x.magnitude.toNat = x.bits.toNat % 2 ^ 63 := by
    rw [← Nat.and_two_pow_sub_one_eq_mod, magnitude, UInt64.toNat_and]
    rfl
  rw [h, hm]
  omega

/-- A number that is `n` exactly, up to its sign. -/
structure IsWhole (x : Binary64) (negative : Bool) (n : Nat) : Prop where
  sign : x.isNegative = negative
  finite : x.isFinite = true
  value : x.significand * 2 ^ x.scale.toNat = n * 2 ^ (-x.scale).toNat

/-- The fields of a number given by a last place and a significand with its leading bit. -/
theorem ofMagnitude_fields (negative : Bool) (place : Nat) {significand : Nat}
    (low : 2 ^ 52 ≤ significand) (high : significand < 2 ^ 53) (inside : place < 2046) :
    let x := ofMagnitude negative (UInt64.ofNat (place * 2 ^ 52 + significand))
    x.isNegative = negative ∧ x.isFinite = true ∧ x.significand = significand ∧
      x.scale = (place : Int) - 1074 := by
  intro x
  -- the bits do not overflow the word
  have toNat : (UInt64.ofNat (place * 2 ^ 52 + significand)).toNat =
      place * 2 ^ 52 + significand := UInt64.toNat_ofNat_of_lt' (by
        show _ < 2 ^ 64
        omega)
  have small : (UInt64.ofNat (place * 2 ^ 52 + significand)).toNat < 2 ^ 63 := by omega
  have hmag : x.magnitude = UInt64.ofNat (place * 2 ^ 52 + significand) :=
    magnitude_ofMagnitude small
  have hexp : x.exponentField = place + 1 := by
    rw [exponentField_eq, hmag, toNat]
    omega
  have hfrac : x.fractionField = significand - 2 ^ 52 := by
    rw [fractionField_eq, hmag, toNat]
    omega
  refine ⟨isNegative_ofMagnitude small, ?_, ?_, ?_⟩
  · simp only [isFinite, hmag, decide_eq_true_eq, UInt64.lt_iff_toNat_lt, toNat,
      toNat_infiniteMagnitude]
    omega
  · rw [Binary64.significand, hexp, if_neg (by omega), hfrac]
    omega
  · rw [scale, hexp]
    omega

/-! ## Exact results -/

/-- A power of two adds to the logarithm. -/
theorem log2_mul_two_pow {a : Nat} (k : Nat) (h : a ≠ 0) : (a * 2 ^ k).log2 = a.log2 + k := by
  have hp : 0 < 2 ^ k := Nat.two_pow_pos k
  have hne : a * 2 ^ k ≠ 0 := Nat.mul_ne_zero h (by omega)
  rw [Nat.log2_eq_iff hne]
  constructor
  · rw [Nat.pow_add]
    exact Nat.mul_le_mul_right _ (Nat.log2_self_le h)
  · rw [show a.log2 + k + 1 = (a.log2 + 1) + k by omega, Nat.pow_add]
    exact (Nat.mul_lt_mul_right hp).2 Nat.lt_log2_self

/-- Shifting a multiple back loses nothing. -/
theorem shiftRounded_mul (q k : Nat) : shiftRounded (q * 2 ^ k) k = q := by
  have hq : (q * 2 ^ k) >>> k = q := by
    rw [Nat.shiftRight_eq_div_pow, Nat.mul_div_cancel _ (Nat.two_pow_pos k)]
  have hp : 0 < 1 <<< k := by
    rw [Nat.one_shiftLeft]
    exact Nat.two_pow_pos k
  simp only [shiftRounded, hq, Nat.shiftLeft_eq q, Nat.sub_self, Nat.mul_zero]
  rw [if_neg]
  simp
  omega

/-- Where a whole number has no more than 53 significant bits, cutting it at the place 52 below its
leading bit loses nothing. -/
theorem rounded_eq {m n u k : Nat} {e : Int} (same : m * 2 ^ e.toNat = n * 2 ^ (-e).toNat)
    (bits : n = u * 2 ^ k) (enough : n.log2 ≤ 52 + k) :
    (if (n.log2 : Int) - 52 ≤ e then m <<< (e - ((n.log2 : Int) - 52)).toNat
      else shiftRounded m ((n.log2 : Int) - 52 - e).toNat) * 2 ^ (n.log2 - 52) =
      n * 2 ^ (52 - n.log2) := by
  generalize n.log2 = l at *
  -- the places below the last one are filled up with zeros, or dropped
  by_cases h : (l : Int) - 52 ≤ e
  · rw [if_pos h, Nat.shiftLeft_eq, Nat.mul_assoc, ← Nat.pow_add]
    by_cases he : 0 ≤ e
    · rw [show (e - ((l : Int) - 52)).toNat + (l - 52) = e.toNat + (52 - l) by omega, Nat.pow_add,
        ← Nat.mul_assoc, same, show (-e).toNat = 0 by omega, Nat.pow_zero, Nat.mul_one]
    · rw [show e.toNat = 0 by omega, Nat.pow_zero, Nat.mul_one] at same
      rw [same, Nat.mul_assoc, ← Nat.pow_add]
      congr 2
      omega
  · -- the shift is exact: what it drops are zeros
    rw [if_neg h]
    by_cases hl : 52 ≤ l
    · have hq : m = u * 2 ^ (k - (l - 52)) * 2 ^ ((l : Int) - 52 - e).toNat := by
        have hpos : 0 < 2 ^ e.toNat := Nat.two_pow_pos _
        apply Nat.eq_of_mul_eq_mul_right hpos
        rw [same, bits, Nat.mul_assoc, Nat.mul_assoc, Nat.mul_assoc, ← Nat.pow_add, ← Nat.pow_add,
          ← Nat.pow_add]
        congr 2
        omega
      rw [hq, shiftRounded_mul, Nat.mul_assoc, ← Nat.pow_add,
        show k - (l - 52) + (l - 52) = k by omega,
        ← bits, show 52 - l = 0 by omega, Nat.pow_zero, Nat.mul_one]
    · rw [show e.toNat = 0 by omega, Nat.pow_zero, Nat.mul_one] at same
      have hq : m = n * 2 ^ (52 - l) * 2 ^ ((l : Int) - 52 - e).toNat := by
        rw [same, Nat.mul_assoc, ← Nat.pow_add]
        congr 2
        omega
      rw [hq, shiftRounded_mul, show l - 52 = 0 by omega, Nat.pow_zero, Nat.mul_one]

/-- A number over the place 52 below its leading bit has 53 bits. -/
theorem last_place_bounds {s n l : Nat} (value : s * 2 ^ (l - 52) = n * 2 ^ (52 - l))
    (lower : 2 ^ l ≤ n) (upper : n < 2 ^ (l + 1)) : 2 ^ 52 ≤ s ∧ s < 2 ^ 53 := by
  by_cases h : 52 ≤ l
  · have hp : 0 < 2 ^ (l - 52) := Nat.two_pow_pos _
    rw [show 52 - l = 0 by omega, Nat.pow_zero, Nat.mul_one] at value
    rw [show l = 52 + (l - 52) by omega, Nat.pow_add, ← value] at lower
    rw [show l + 1 = 53 + (l - 52) by omega, Nat.pow_add, ← value] at upper
    exact ⟨Nat.le_of_mul_le_mul_right lower hp, (Nat.mul_lt_mul_right hp).1 upper⟩
  · have hp : 0 < 2 ^ (52 - l) := Nat.two_pow_pos _
    rw [show l - 52 = 0 by omega, Nat.pow_zero, Nat.mul_one] at value
    rw [value]
    constructor
    · calc 2 ^ 52 = 2 ^ l * 2 ^ (52 - l) := by rw [← Nat.pow_add, show l + (52 - l) = 52 by omega]
        _ ≤ n * 2 ^ (52 - l) := Nat.mul_le_mul_right _ lower
    · calc n * 2 ^ (52 - l) < 2 ^ (l + 1) * 2 ^ (52 - l) := (Nat.mul_lt_mul_right hp).2 upper
        _ = 2 ^ 53 := by rw [← Nat.pow_add, show l + 1 + (52 - l) = 53 by omega]

/-- A whole number of at most 53 significant bits is exact, whatever power of two it is given
over. -/
theorem isWhole_ofDyadic {negative : Bool} {m n u k : Nat} {e : Int}
    (same : m * 2 ^ e.toNat = n * 2 ^ (-e).toNat) (bits : n = u * 2 ^ k) (short : u < 2 ^ 53)
    (positive : 0 < n) (inside : n.log2 < 1024) :
    (ofDyadic negative m e).IsWhole negative n := by
  have hn : n ≠ 0 := by omega
  have hm : m ≠ 0 := by
    rintro rfl
    have : 0 < n * 2 ^ (-e).toNat := Nat.mul_pos positive (Nat.two_pow_pos _)
    omega
  have hu : u ≠ 0 := by
    rintro rfl
    omega
  -- the leading bit of the value is that of the number
  have hlog : e + m.log2 = n.log2 := by
    have h := congrArg Nat.log2 same
    rw [log2_mul_two_pow _ hm, log2_mul_two_pow _ hn] at h
    omega
  have hlast : max (e + (m.log2 : Int) - 52) (-1074) = (n.log2 : Int) - 52 := by omega
  have enough : n.log2 ≤ 52 + k := by
    have : u.log2 < 53 := (Nat.log2_lt hu).2 short
    rw [bits, log2_mul_two_pow _ hu]
    omega
  have hval := rounded_eq same bits enough
  obtain ⟨s, hs⟩ : ∃ s, (if (n.log2 : Int) - 52 ≤ e then m <<< (e - ((n.log2 : Int) - 52)).toNat
      else shiftRounded m ((n.log2 : Int) - 52 - e).toNat) = s := ⟨_, rfl⟩
  rw [hs] at hval
  have hplace : ((n.log2 : Int) - 52 + 1074).toNat = n.log2 + 1022 := by omega
  have bounds := last_place_bounds hval (Nat.log2_self_le hn) Nat.lt_log2_self
  have hx : ofDyadic negative m e =
      ofMagnitude negative (UInt64.ofNat ((n.log2 + 1022) * 2 ^ 52 + s)) := by
    simp only [ofDyadic, if_neg hm, hlast, hs, hplace, toNat_infiniteMagnitude]
    rw [if_neg (by omega)]
  obtain ⟨hsign, hfin, hsig, hscale⟩ := ofMagnitude_fields negative
    (n.log2 + 1022) bounds.1 bounds.2 (by omega)
  rw [← hx] at hsign hfin hsig hscale
  refine ⟨hsign, hfin, ?_⟩
  rw [hsig, hscale]
  rw [show ((n.log2 + 1022 : Nat) - 1074 : Int).toNat = n.log2 - 52 by omega,
    show (-((n.log2 + 1022 : Nat) - 1074 : Int)).toNat = 52 - n.log2 by omega, hval]

/-! ## Finite numbers and zeros -/

/-- A finite number is a number. -/
theorem not_isNaN_of_isFinite {x : Binary64} (finite : x.isFinite = true) : x.isNaN = false := by
  simp only [isFinite, isNaN, decide_eq_true_eq, decide_eq_false_iff_not, UInt64.lt_iff_toNat_lt]
    at finite ⊢
  omega

/-- It is not infinite. -/
theorem not_isInfinite_of_isFinite {x : Binary64} (finite : x.isFinite = true) :
    x.isInfinite = false := by
  simp only [isFinite, isInfinite, decide_eq_true_eq, UInt64.lt_iff_toNat_lt] at finite ⊢
  apply beq_false_of_ne
  intro e
  rw [e] at finite
  omega

/-- A number is zero if it has no significand. -/
theorem isZero_iff_significand (x : Binary64) : x.isZero = true ↔ x.significand = 0 := by
  have hm : x.isZero = true ↔ x.magnitude.toNat = 0 := by
    simp [isZero, ← UInt64.toNat_inj]
  rw [hm, significand, exponentField_eq, fractionField_eq]
  split <;> omega

/-! ## What a whole number is used for -/

/-- Zero is whole. -/
theorem isWhole_zero : (0 : Binary64).IsWhole false 0 := by
  refine ⟨rfl, rfl, ?_⟩
  rw [show (0 : Binary64).significand = 0 from rfl, Nat.zero_mul, Nat.zero_mul]

/-- So is the negative zero. -/
theorem isWhole_negative_zero : (zero true).IsWhole true 0 := by
  refine ⟨rfl, rfl, ?_⟩
  rw [show (zero true).significand = 0 from rfl, Nat.zero_mul, Nat.zero_mul]

/-- So are the naturals up to the limit of the significand. -/
theorem isWhole_ofNat {n : Nat} (small : n ≤ 2 ^ 53) : (ofNat n).IsWhole false n := by
  by_cases h0 : n = 0
  · subst h0
    exact isWhole_zero
  have inside : n.log2 < 1024 := by
    have := (Nat.log2_lt h0).2 (show n < 2 ^ 54 by omega)
    omega
  by_cases h : n < 2 ^ 53
  · exact isWhole_ofDyadic (u := n) (k := 0) (by simp) (by simp) h (by omega) inside
  · exact isWhole_ofDyadic (u := 1) (k := 53) (by simp) (by omega) (by omega) (by omega) inside

namespace IsWhole

variable {x y : Binary64} {negative : Bool} {n k : Nat}

/-- A whole number is a number. -/
theorem not_isNaN (h : x.IsWhole negative n) : x.isNaN = false := not_isNaN_of_isFinite h.finite

/-- It is not infinite. -/
theorem not_isInfinite (h : x.IsWhole negative n) : x.isInfinite = false :=
  not_isInfinite_of_isFinite h.finite

/-- Its whole part is itself. -/
theorem wholePart_eq (h : x.IsWhole negative n) : x.wholePart = n := by
  have value := h.value
  unfold wholePart
  split
  · next hs =>
    rw [Nat.shiftLeft_eq, value, show (-x.scale).toNat = 0 by omega, Nat.pow_zero, Nat.mul_one]
  · next hs =>
    rw [show x.scale.toNat = 0 by omega, Nat.pow_zero, Nat.mul_one] at value
    rw [Nat.shiftRight_eq_div_pow, value, Nat.mul_div_cancel _ (Nat.two_pow_pos _)]

/-- A small one is the index it stands for. -/
theorem toIndex_eq (h : x.IsWhole false n) (small : n ≤ maxIndex) : x.toIndex = n := by
  simp only [toIndex, h.not_isNaN, h.sign, h.not_isInfinite, h.wholePart_eq, Bool.or_self,
    Bool.false_eq_true, if_false]
  omega

/-- A whole number without sign is not below zero. -/
theorem not_less_zero (h : x.IsWhole false n) : x.less 0 = false := by
  have hz : (0 : Binary64).isNegative = false := rfl
  have hm : (0 : Binary64).magnitude = 0 := rfl
  simp [less, h.sign, hz, hm, UInt64.lt_iff_toNat_lt]

/-- It is zero only as the natural zero. -/
theorem isZero_iff (h : x.IsWhole negative n) : x.isZero = true ↔ n = 0 := by
  have value := h.value
  have hp : 0 < 2 ^ x.scale.toNat := Nat.two_pow_pos _
  have hq : 0 < 2 ^ (-x.scale).toNat := Nat.two_pow_pos _
  rw [x.isZero_iff_significand]
  constructor
  · intro h0
    rw [h0, Nat.zero_mul] at value
    exact (Nat.mul_eq_zero.1 value.symm).resolve_right (by omega)
  · intro h0
    rw [h0, Nat.zero_mul] at value
    exact (Nat.mul_eq_zero.1 value).resolve_right (by omega)

/-- Without sign it is at most zero only then, too. -/
theorem lessEq_zero_iff (h : x.IsWhole false n) : x.lessEq 0 = true ↔ n = 0 := by
  have hz : (0 : Binary64).isZero = true := rfl
  have hn : (0 : Binary64).isNaN = false := rfl
  rw [← h.isZero_iff]
  simp only [lessEq, h.not_less_zero, equal, h.not_isNaN, hz, hn, Bool.and_true, Bool.false_or,
    Bool.not_false, Bool.true_and, Bool.or_eq_true, beq_iff_eq]
  constructor
  · rintro (e | e)
    · rw [show x = 0 from congrArg Binary64.mk e]
      rfl
    · exact e
  · exact Or.inr

/-- Small whole numbers that are equal stand for one natural. -/
theorem equal_iff (hx : x.IsWhole false n) (hy : y.IsWhole false k) (small : n ≤ maxIndex)
    (small' : k ≤ maxIndex) : x.equal y = true → n = k := by
  simp only [equal, Bool.and_eq_true, Bool.or_eq_true, beq_iff_eq]
  rintro ⟨-, e | ⟨e, e'⟩⟩
  · have : x = y := congrArg Binary64.mk e
    rw [← hx.toIndex_eq small, ← hy.toIndex_eq small', this]
  · rw [hx.isZero_iff.1 e, hy.isZero_iff.1 e']

/-- A whole number equals itself. -/
theorem equal_self (h : x.IsWhole negative n) : x.equal x = true := by
  simp [equal, h.not_isNaN]

/-- The value over any place below the last one. -/
theorem value_over (h : x.IsWhole negative n) {last : Int} (below : last ≤ x.scale) :
    x.significand <<< (x.scale - last).toNat * 2 ^ last.toNat = n * 2 ^ (-last).toNat := by
  have value := h.value
  rw [Nat.shiftLeft_eq, Nat.mul_assoc, ← Nat.pow_add]
  by_cases hs : 0 ≤ x.scale
  · rw [show (x.scale - last).toNat + last.toNat = x.scale.toNat + (-last).toNat by omega,
      Nat.pow_add, ← Nat.mul_assoc, value, show (-x.scale).toNat = 0 by omega, Nat.pow_zero,
      Nat.mul_one]
  · rw [show x.scale.toNat = 0 by omega, Nat.pow_zero, Nat.mul_one] at value
    rw [value, Nat.mul_assoc, ← Nat.pow_add]
    congr 2
    omega

/-- Smaller patterns stand for smaller numbers. -/
theorem lt_of_less (hx : x.IsWhole false n) (hy : y.IsWhole false k) (lt : x.less y = true) :
    n < k := by
  have valueX := hx.value_over (show -1074 ≤ x.scale by unfold scale; omega)
  have valueY := hy.value_over (show -1074 ≤ y.scale by unfold scale; omega)
  simp only [less, hx.not_isNaN, hy.not_isNaN, hx.sign, hy.sign, Bool.not_false, Bool.true_and,
    decide_eq_true_eq, UInt64.lt_iff_toNat_lt] at lt
  rw [Nat.shiftLeft_eq, show (-1074 : Int).toNat = 0 from rfl, Nat.pow_zero, Nat.mul_one]
    at valueX valueY
  apply Nat.lt_of_mul_lt_mul_right (a := 2 ^ (- -1074 : Int).toNat)
  rw [← valueX, ← valueY]
  have fieldsX := exponentField_eq x
  have fieldsY := exponentField_eq y
  have fractionX := fractionField_eq x
  have fractionY := fractionField_eq y
  have shiftX : (x.scale - -1074).toNat = max x.exponentField 1 - 1 := by unfold scale; omega
  have shiftY : (y.scale - -1074).toNat = max y.exponentField 1 - 1 := by unfold scale; omega
  rw [shiftX, shiftY]
  -- over the same place the significands decide, else the place does
  by_cases same : max x.exponentField 1 - 1 = max y.exponentField 1 - 1
  · rw [same]
    refine Nat.mul_lt_mul_of_pos_right ?_ (Nat.two_pow_pos _)
    unfold significand
    split <;> split <;> omega
  · have small : x.significand < 2 ^ 53 := by
      unfold significand
      split <;> omega
    have large : 2 ^ 52 ≤ y.significand := by
      rw [significand, if_neg (by omega)]
      omega
    calc x.significand * 2 ^ (max x.exponentField 1 - 1)
        < 2 ^ 53 * 2 ^ (max x.exponentField 1 - 1) :=
          Nat.mul_lt_mul_of_pos_right small (Nat.two_pow_pos _)
      _ = 2 ^ 52 * 2 ^ (max x.exponentField 1 - 1 + 1) := by rw [Nat.pow_succ]; omega
      _ ≤ y.significand * 2 ^ (max y.exponentField 1 - 1) :=
          Nat.mul_le_mul large (Nat.pow_le_pow_right (by omega) (by omega))

/-- Whole numbers are ordered as their naturals. -/
theorem less_iff (hx : x.IsWhole false n) (hy : y.IsWhole false k) : x.less y = true ↔ n < k := by
  refine ⟨hx.lt_of_less hy, fun lt => ?_⟩
  simp only [less, hx.not_isNaN, hy.not_isNaN, hx.sign, hy.sign, Bool.not_false, Bool.true_and,
    decide_eq_true_eq, UInt64.lt_iff_toNat_lt]
  -- one of the patterns is the smaller one, or they are the same
  rcases Nat.lt_trichotomy x.magnitude.toNat y.magnitude.toNat with less | same | greater
  · exact less
  · have exponent : x.exponentField = y.exponentField := by
      rw [exponentField_eq, exponentField_eq, same]
    have fraction : x.fractionField = y.fractionField := by
      rw [fractionField_eq, fractionField_eq, same]
    have scale : x.scale = y.scale := by rw [scale, Binary64.scale, exponent]
    have significand : x.significand = y.significand := by
      rw [significand, Binary64.significand, exponent, fraction]
    have value := hx.value
    rw [scale, significand, hy.value] at value
    have := Nat.eq_of_mul_eq_mul_right (Nat.two_pow_pos _) value
    omega
  · have less : y.less x = true := by
      simpa only [less, hx.not_isNaN, hy.not_isNaN, hx.sign, hy.sign, Bool.not_false, Bool.true_and,
        decide_eq_true_eq, UInt64.lt_iff_toNat_lt] using greater
    exact absurd (hy.lt_of_less hx less) (Nat.lt_asymm lt)

/-- The opposite has the same magnitude. -/
theorem neg_magnitude (y : Binary64) : y.neg.magnitude = y.magnitude := by
  apply UInt64.toNat_inj.1
  simp only [neg, magnitude, UInt64.toNat_and, UInt64.toNat_xor]
  show (y.bits.toNat ^^^ 2 ^ 63) &&& (2 ^ 63 - 1) = y.bits.toNat &&& (2 ^ 63 - 1)
  apply Nat.eq_of_testBit_eq
  intro i
  simp only [Nat.testBit_and, Nat.testBit_xor, Nat.testBit_two_pow, Nat.testBit_two_pow_sub_one]
  by_cases hi : i < 63
  · have : ¬ 63 = i := by omega
    simp [this]
  · simp [hi]

/-- It has the other sign. -/
theorem neg_isNegative (y : Binary64) : y.neg.isNegative = !y.isNegative := by
  have h63 : ((63 : UInt64).toNat % 64) = 63 := rfl
  have lt := y.bits.toNat_lt
  have top (b : UInt64) : (b >>> 63 == 1) = b.toNat.testBit 63 := by
    rw [Bool.eq_iff_iff, beq_iff_eq, ← UInt64.toNat_inj, UInt64.toNat_shiftRight, h63,
      Nat.shiftRight_eq_div_pow, Nat.testBit_eq_decide_div_mod_eq, decide_eq_true_eq]
    have := b.toNat_lt
    show _ = 1 ↔ _
    omega
  simp only [neg, isNegative, top, UInt64.toNat_xor]
  show (y.bits.toNat ^^^ 2 ^ 63).testBit 63 = _
  rw [Nat.testBit_xor, Nat.testBit_two_pow_self, Bool.xor_true]

/-- The difference of whole numbers is exact. -/
theorem sub (hx : x.IsWhole false n) (hy : y.IsWhole false k) (le : k ≤ n) (small : n ≤ 2 ^ 53) :
    (x.sub y).IsWhole false (n - k) := by
  have mag := neg_magnitude y
  have sig : y.neg.significand = y.significand := by
    simp only [significand, exponentField_eq, fractionField_eq, mag]
  have scl : y.neg.scale = y.scale := by simp only [scale, exponentField_eq, mag]
  have nan : y.neg.isNaN = false := by
    have := hy.not_isNaN
    simpa only [isNaN, mag] using this
  have inf : y.neg.isInfinite = false := by
    have := hy.not_isInfinite
    simpa only [isInfinite, mag] using this
  have neg : y.neg.isNegative = true := by rw [neg_isNegative, hy.sign]; rfl
  have hx' := hx.value_over (Int.min_le_left x.scale y.scale)
  have hy' := hy.value_over (Int.min_le_right x.scale y.scale)
  simp only [Binary64.sub, hy.not_isNaN, Bool.false_eq_true, if_false, add, hx.not_isNaN, nan,
    Bool.or_self, hx.not_isInfinite, inf, addFinite, hx.sign, neg, sig, scl]
  -- both numbers as multiples of the lower one of their last places
  generalize hl : min x.scale y.scale = last at hx' hy' ⊢
  generalize x.significand <<< (x.scale - last).toNat = a at hx' ⊢
  generalize y.significand <<< (y.scale - last).toNat = b at hy' ⊢
  have hp : 0 < 2 ^ last.toNat := Nat.two_pow_pos _
  have hq : 0 < 2 ^ (-last).toNat := Nat.two_pow_pos _
  rw [if_neg (by decide)]
  by_cases hlt : k < n
  · have hab : b < a := by
      apply (Nat.mul_lt_mul_right hp).1
      rw [hx', hy']
      exact (Nat.mul_lt_mul_right hq).2 hlt
    rw [if_pos hab]
    have hsub : (a - b) * 2 ^ last.toNat = (n - k) * 2 ^ (-last).toNat := by
      rw [Nat.sub_mul, Nat.sub_mul, hx', hy']
    have inside : (n - k).log2 < 1024 := by
      have := (Nat.log2_lt (show n - k ≠ 0 by omega)).2 (show n - k < 2 ^ 54 by omega)
      omega
    -- only `2 ^ 53` itself has more than 53 bits, and it is a power of two
    by_cases hs : n - k < 2 ^ 53
    · exact isWhole_ofDyadic (u := n - k) (k := 0) hsub (by simp) hs (by omega) inside
    · exact isWhole_ofDyadic (u := 1) (k := 53) hsub (by omega) (by omega) (by omega) inside
  · have hnk : k = n := by omega
    have hab : a = b := by
      apply Nat.eq_of_mul_eq_mul_right hp
      rw [hx', hy', hnk]
    rw [if_neg (by omega), if_neg (by omega), hnk, Nat.sub_self]
    exact isWhole_zero

/-- The sum of whole numbers is exact. -/
theorem add (hx : x.IsWhole false n) (hy : y.IsWhole false k) (positive : 0 < n + k)
    (small : n + k ≤ 2 ^ 53) : (x.add y).IsWhole false (n + k) := by
  have hx' := hx.value_over (Int.min_le_left x.scale y.scale)
  have hy' := hy.value_over (Int.min_le_right x.scale y.scale)
  simp only [Binary64.add, hx.not_isNaN, hy.not_isNaN, Bool.or_self, Bool.false_eq_true, if_false,
    hx.not_isInfinite, hy.not_isInfinite, addFinite, hx.sign, hy.sign, beq_self_eq_true, if_true]
  -- both over the smaller of the two last places
  generalize hl : min x.scale y.scale = last at hx' hy' ⊢
  generalize x.significand <<< (x.scale - last).toNat = a at hx' ⊢
  generalize y.significand <<< (y.scale - last).toNat = b at hy' ⊢
  have hadd : (a + b) * 2 ^ last.toNat = (n + k) * 2 ^ (-last).toNat := by
    rw [Nat.add_mul, Nat.add_mul, hx', hy']
  have inside : (n + k).log2 < 1024 := by
    have := (Nat.log2_lt (show n + k ≠ 0 by omega)).2 (show n + k < 2 ^ 54 by omega)
    omega
  by_cases hs : n + k < 2 ^ 53
  · exact isWhole_ofDyadic (u := n + k) (k := 0) hadd (by simp) hs positive inside
  · exact isWhole_ofDyadic (u := 1) (k := 53) hadd (by omega) (by omega) positive inside

/-- A negative number that is zero is the negative zero. -/
theorem eq_negative_zero (h : x.IsWhole true 0) : x = zero true := by
  have magnitude : x.magnitude.toNat = 0 := by
    have := h.isZero_iff.2 rfl
    rw [isZero, beq_iff_eq] at this
    rw [this]
    rfl
  have sign := h.sign
  rw [isNegative, beq_iff_eq, ← UInt64.toNat_inj, UInt64.toNat_shiftRight,
    Nat.shiftRight_eq_div_pow] at sign
  have low : x.magnitude.toNat = x.bits.toNat % 2 ^ 63 := by
    rw [← Nat.and_two_pow_sub_one_eq_mod, Binary64.magnitude, UInt64.toNat_and]
    rfl
  have high : x.bits.toNat / 2 ^ 63 = 1 := sign
  have bits : x.bits = 0x8000000000000000 := by
    apply UInt64.toNat_inj.1
    show x.bits.toNat = 2 ^ 63
    omega
  exact congrArg Binary64.mk bits

end IsWhole

/-! ## Counts, indices and numbers of actors -/

/-- A natural is found at its own index. -/
theorem toIndex_ofNat {n : Nat} (small : n ≤ 2 ^ 53) : (ofNat n).toIndex = n :=
  (isWhole_ofNat small).toIndex_eq (by unfold maxIndex; omega)

/-- A count too large to be exact is not rounded below the counts that are. -/
theorem le_toIndex_ofNat {n : Nat} (large : 2 ^ 53 ≤ n) : 2 ^ 53 ≤ (ofNat n).toIndex := by
  have hn : n ≠ 0 := by omega
  have hlog : 53 ≤ n.log2 := (Nat.le_log2 hn).2 large
  obtain ⟨last, hlast⟩ : ∃ last : Nat, n.log2 = last + 52 := ⟨n.log2 - 52, by omega⟩
  have hmax : max (0 + (n.log2 : Int) - 52) (-1074) = (last : Int) := by omega
  -- the leading bit survives the rounding
  have hsig : 2 ^ 52 ≤ shiftRounded n last := by
    have : 2 ^ 52 ≤ n >>> last := by
      rw [Nat.shiftRight_eq_div_pow, Nat.le_div_iff_mul_le (Nat.two_pow_pos _), ← Nat.pow_add,
        show 52 + last = n.log2 by omega]
      exact Nat.log2_self_le hn
    simp only [shiftRounded]
    split <;> omega
  obtain ⟨s, hs⟩ : ∃ s, shiftRounded n last = s := ⟨_, rfl⟩
  have hplace : ((last : Int) + 1074).toNat = last + 1074 := by omega
  have hx : ofNat n = if infiniteMagnitude.toNat ≤ (last + 1074) * 2 ^ 52 + s then infinity false
      else ofMagnitude false (UInt64.ofNat ((last + 1074) * 2 ^ 52 + s)) := by
    have hcut : ¬ (last : Int) ≤ 0 := by omega
    have hshift : ((last : Int) - 0).toNat = last := by omega
    simp only [ofNat, ofDyadic, if_neg hn, hmax, hplace, if_neg hcut, hshift, hs]
  rw [hs] at hsig
  rw [hx, toNat_infiniteMagnitude]
  split
  · show 2 ^ 53 ≤ maxIndex
    unfold maxIndex
    omega
  · next hin =>
    have toNat : (UInt64.ofNat ((last + 1074) * 2 ^ 52 + s)).toNat = (last + 1074) * 2 ^ 52 + s :=
      UInt64.toNat_ofNat_of_lt' (by
        show _ < 2 ^ 64
        omega)
    generalize hm : UInt64.ofNat ((last + 1074) * 2 ^ 52 + s) = magnitude at toNat
    have small : magnitude.toNat < 2 ^ 63 := by omega
    have hmag : (ofMagnitude false magnitude).magnitude = magnitude := magnitude_ofMagnitude small
    have hneg : (ofMagnitude false magnitude).isNegative = false := isNegative_ofMagnitude small
    generalize ofMagnitude false magnitude = x at hmag hneg ⊢
    have hnan : x.isNaN = false := by
      simp only [isNaN, hmag, decide_eq_false_iff_not, UInt64.lt_iff_toNat_lt, toNat,
        toNat_infiniteMagnitude]
      omega
    have hexp : last + 1075 ≤ x.exponentField := by
      rw [exponentField_eq, hmag, toNat]
      omega
    have hsignificand : 2 ^ 52 ≤ x.significand := by
      rw [significand, if_neg (by omega)]
      omega
    have hwhole : 2 ^ 53 ≤ x.wholePart := by
      have hscale : 1 ≤ x.scale := by
        unfold scale
        omega
      rw [wholePart, if_pos (by omega), Nat.shiftLeft_eq]
      calc 2 ^ 53 = 2 ^ 52 * 2 ^ 1 := by rw [← Nat.pow_add]
        _ ≤ x.significand * 2 ^ x.scale.toNat :=
          Nat.mul_le_mul hsignificand (Nat.pow_le_pow_right (by omega) (by omega))
    simp only [toIndex, hnan, hneg, Bool.or_self, Bool.false_eq_true, if_false]
    split <;> unfold maxIndex <;> omega

/-- Naturals are equal as numbers if they are equal. -/
theorem equal_ofNat_iff {n k : Nat} (small : n ≤ 2 ^ 53) (small' : k ≤ 2 ^ 53) :
    (ofNat n).equal (ofNat k) = true ↔ n = k := by
  constructor
  · exact (isWhole_ofNat small).equal_iff (isWhole_ofNat small') (by unfold maxIndex; omega)
      (by unfold maxIndex; omega)
  · rintro rfl
    exact (isWhole_ofNat small).equal_self

/-- They are ordered as numbers as they are. -/
theorem less_ofNat_iff {n k : Nat} (small : n ≤ 2 ^ 53) (small' : k ≤ 2 ^ 53) :
    (ofNat n).less (ofNat k) = true ↔ n < k :=
  (isWhole_ofNat small).less_iff (isWhole_ofNat small')

/-- They are one number only if they are one natural. -/
theorem ofNat_inj {n k : Nat} (small : n ≤ 2 ^ 53) (small' : k ≤ 2 ^ 53) :
    ofNat n = ofNat k ↔ n = k :=
  ⟨fun same => by rw [← toIndex_ofNat small, same, toIndex_ofNat small'], congrArg ofNat⟩

/-- Equality of numbers is symmetric. -/
theorem equal_comm (x y : Binary64) : x.equal y = y.equal x := by
  rw [equal, equal, Bool.and_comm (!x.isNaN), Bool.beq_comm, Bool.and_comm x.isZero]

/-- Minus one is no count. -/
theorem not_equal_ofNat (n : Nat) (small : n ≤ 2 ^ 53) : (ofInt (-1)).equal (ofNat n) = false := by
  have hsign : (ofInt (-1)).isNegative = true := rfl
  have hzero : (ofInt (-1)).isZero = false := rfl
  have hbits : ¬ (ofInt (-1)).bits = (ofNat n).bits := by
    intro e
    have : ofInt (-1) = ofNat n := congrArg Binary64.mk e
    rw [this, (isWhole_ofNat small).sign] at hsign
    cases hsign
  simp [equal, hzero, hbits]

/-- A whole number becomes the nearest word of 64 bits. -/
theorem IsWhole.toInt64_eq {x : Binary64} {n : Nat} {negative : Bool} (h : x.IsWhole negative n) :
    x.toInt64 = Int64.ofInt
      (if negative then max (-(n : Int)) (-2 ^ 63) else min (n : Int) (2 ^ 63 - 1)) := by
  cases negative <;>
    simp [toInt64, h.not_isNaN, h.sign, h.not_isInfinite, h.wholePart_eq]

/-- The whole part of a number has no more significant bits than the number. -/
theorem wholePart_short (x : Binary64) : ∃ u k, x.wholePart = u * 2 ^ k ∧ u < 2 ^ 53 := by
  have hsig : x.significand < 2 ^ 53 := by
    have : x.fractionField < 2 ^ 52 := by
      rw [fractionField_eq]
      exact Nat.mod_lt _ (Nat.two_pow_pos _)
    unfold significand
    split <;> omega
  unfold wholePart
  split
  · exact ⟨_, _, Nat.shiftLeft_eq _ _, hsig⟩
  · refine ⟨x.significand >>> (-x.scale).toNat, 0, by simp, ?_⟩
    have := Nat.shiftRight_le x.significand (-x.scale).toNat
    omega

/-- A signed word with at most 53 significant bits survives as a number. -/
theorem toInt64_ofInt {u k : Nat} {n : Int} (bits : n.natAbs = u * 2 ^ k) (short : u < 2 ^ 53)
    (low : -2 ^ 63 ≤ n) (high : n < 2 ^ 63) : (ofInt n).toInt64 = Int64.ofInt n := by
  by_cases h0 : n = 0
  · subst h0
    rfl
  have inside : n.natAbs.log2 < 1024 := by
    have := (Nat.log2_lt (show n.natAbs ≠ 0 by omega)).2 (show n.natAbs < 2 ^ 64 by omega)
    omega
  have h : (ofInt n).IsWhole (n < 0) n.natAbs :=
    isWhole_ofDyadic (by simp) bits short (by omega) inside
  rw [h.toInt64_eq]
  congr 1
  by_cases hn : n < 0
  · simp only [hn, decide_true, if_true]
    omega
  · simp only [hn, decide_false, Bool.false_eq_true, if_false]
    omega

/-- The signed word of a number is its whole part with a sign, or an end of the range. -/
theorem toInt64_cases (x : Binary64) : ∃ n : Int, x.toInt64 = Int64.ofInt n ∧ -2 ^ 63 ≤ n ∧
    n < 2 ^ 63 ∧ (n.natAbs = x.wholePart ∨ n = -2 ^ 63 ∨ n = 0 ∨ n = 2 ^ 63 - 1) := by
  have hmax : (Int64.maxValue : Int64) = Int64.ofInt (2 ^ 63 - 1) := rfl
  have hmin : (Int64.minValue : Int64) = Int64.ofInt (-2 ^ 63) := rfl
  rw [toInt64, hmax, hmin]
  generalize x.wholePart = w
  have hw : (0 : Int) ≤ w := Int.natCast_nonneg w
  split
  · exact ⟨0, rfl, by omega, by omega, by simp⟩
  split
  · split
    · exact ⟨-2 ^ 63, rfl, by omega, by omega, by simp⟩
    · refine ⟨_, rfl, by omega, by omega, ?_⟩
      by_cases h : -2 ^ 63 ≤ (-(w : Int))
      · rw [Int.max_eq_left h]
        omega
      · rw [Int.max_eq_right (by omega)]
        simp
  split
  · exact ⟨2 ^ 63 - 1, rfl, by omega, by omega, by simp⟩
  · refine ⟨_, rfl, by omega, by omega, ?_⟩
    by_cases h : (w : Int) ≤ 2 ^ 63 - 1
    · rw [Int.min_eq_left h]
      omega
    · rw [Int.min_eq_right (by omega)]
      simp

/-- An actor that some number stands for is the actor that its own number stands for. -/
theorem toInt64_ofInt_toInt64 (x : Binary64) : (ofInt x.toInt64.toInt).toInt64 = x.toInt64 := by
  obtain ⟨u, k, bits, short⟩ := wholePart_short x
  obtain ⟨n, hn, low, high, kind⟩ := toInt64_cases x
  rw [hn, Int64.toInt_ofInt_of_le low high]
  rcases kind with h | rfl | rfl | rfl
  · exact toInt64_ofInt (h.trans bits) short low high
  · rfl
  · rfl
  · rfl

end SkipCode.Binary64
