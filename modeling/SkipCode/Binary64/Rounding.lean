import SkipCode.Binary64.Basic

/-!
# Rounding to the nearest number

Every operation of `Binary64` that can be inexact computes an exact value first and rounds it
once, to the nearest number and on a tie to the one with an even last place.

* `ofDyadic` rounds `± m · 2 ^ e`, which covers sums, products and whole numbers;
* `ofQuotient` rounds `± num / den · 2 ^ e`. It reduces to `ofDyadic`: enough leading bits of
  the quotient, with one more bit that says whether anything nonzero follows them, round the
  way the quotient does.
-/

namespace SkipCode.Binary64

/-- `m / 2 ^ k` as a whole number: the nearest one, and the even one of two equally near. -/
def shiftRounded (m k : Nat) : Nat :=
  let quotient := m >>> k
  let twice := 2 * (m - quotient <<< k)
  let unit := 1 <<< k
  if unit < twice || twice == unit && quotient % 2 == 1 then quotient + 1 else quotient

/-- The number nearest to `± m · 2 ^ e`, an infinity when it is out of range.

The last place of the result weighs `2 ^ last`: 52 places below the leading bit of the value, or
the least weight there is. The pattern of a number is `(last + 1074) · 2 ^ 52` plus its
significand, also when the significand is below `2 ^ 52` or rounds up to `2 ^ 53`. -/
def ofDyadic (negative : Bool) (m : Nat) (e : Int) : Binary64 :=
  if m = 0 then zero negative
  else
    let last : Int := max (e + m.log2 - 52) (-1074)
    let significand :=
      if last ≤ e then m <<< (e - last).toNat else shiftRounded m (last - e).toNat
    let magnitude := (last + 1074).toNat * 2 ^ 52 + significand
    if infiniteMagnitude.toNat ≤ magnitude then infinity negative
    else ofMagnitude negative (UInt64.ofNat magnitude)

/-- The number nearest to `± num / den · 2 ^ e`, for a positive `den`. -/
def ofQuotient (negative : Bool) (num den : Nat) (e : Int) : Binary64 :=
  let extra := 56 + den.log2 - num.log2
  let scaled := num <<< extra
  let sticky := if scaled % den = 0 then 0 else 1
  ofDyadic negative (2 * (scaled / den) + sticky) (e - extra - 1)

end SkipCode.Binary64
