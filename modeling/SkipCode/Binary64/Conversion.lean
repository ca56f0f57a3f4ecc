import SkipCode.Binary64.Arithmetic

/-!
# Conversions

Whole numbers become the nearest `Binary64`. In the other direction a number is cut toward zero
and held inside the range of the target; a NaN becomes zero. `ofDecimal` reads digits and a power
of ten as the nearest number.
-/

namespace SkipCode.Binary64

def ofNat (n : Nat) : Binary64 := ofDyadic false n 0

def ofInt (n : Int) : Binary64 := ofDyadic (n < 0) n.natAbs 0

/-- The whole part of the absolute value of a finite number. -/
def wholePart (x : Binary64) : Nat :=
  if 0 ≤ x.scale then x.significand <<< x.scale.toNat else x.significand >>> (-x.scale).toNat

/-- The greatest index, also the answer for any larger number. -/
def maxIndex : Nat := 2 ^ 64 - 1

/-- The number as an index: cut toward zero, at least zero, at most `maxIndex`. -/
def toIndex (x : Binary64) : Nat :=
  if x.isNaN || x.isNegative then 0
  else if x.isInfinite then maxIndex
  else min x.wholePart maxIndex

/-- The number as a signed word: cut toward zero and held inside its range. -/
def toInt64 (x : Binary64) : Int64 :=
  if x.isNaN then 0
  else if x.isNegative then
    if x.isInfinite then Int64.minValue else Int64.ofInt (max (-x.wholePart) (-2 ^ 63))
  else if x.isInfinite then Int64.maxValue
  else Int64.ofInt (min x.wholePart (2 ^ 63 - 1))

/-- The number nearest to `± digits · 10 ^ power`. Powers so large or small that the answer is
plain from the count of the digits are answered without computing them. -/
def ofDecimal (negative : Bool) (digits : Nat) (power : Int) : Binary64 :=
  if digits = 0 then zero negative
  else if power < 0 then
    if power < -400 - digits.log2 then zero negative
    else ofQuotient negative digits (10 ^ (-power).toNat) 0
  else if 400 < power then infinity negative
  else ofDyadic negative (digits * 10 ^ power.toNat) 0

end SkipCode.Binary64
