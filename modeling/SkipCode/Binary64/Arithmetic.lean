import SkipCode.Binary64.Rounding

/-!
# Arithmetic

The four operations and the remainder. Each treats NaNs and infinities first and then rounds the
exact result of the finite case; the remainder is always exact.
-/

namespace SkipCode.Binary64

/-- The sum of two finite numbers: both are written over the smaller of the two last places. A
sum that cancels is the positive zero, unless both numbers are negative. -/
def addFinite (x y : Binary64) : Binary64 :=
  let last := min x.scale y.scale
  let a := x.significand <<< (x.scale - last).toNat
  let b := y.significand <<< (y.scale - last).toNat
  if x.isNegative == y.isNegative then ofDyadic x.isNegative (a + b) last
  else if b < a then ofDyadic x.isNegative (a - b) last
  else if a < b then ofDyadic y.isNegative (b - a) last
  else zero false

def add (x y : Binary64) : Binary64 :=
  if x.isNaN || y.isNaN then nan
  else if x.isInfinite then
    if y.isInfinite && x.isNegative != y.isNegative then nan else x
  else if y.isInfinite then y
  else addFinite x y

def sub (x y : Binary64) : Binary64 := if y.isNaN then nan else x.add y.neg

def mul (x y : Binary64) : Binary64 :=
  let negative := x.isNegative != y.isNegative
  if x.isNaN || y.isNaN then nan
  else if x.isInfinite || y.isInfinite then
    if x.isZero || y.isZero then nan else infinity negative
  else ofDyadic negative (x.significand * y.significand) (x.scale + y.scale)

def div (x y : Binary64) : Binary64 :=
  let negative := x.isNegative != y.isNegative
  if x.isNaN || y.isNaN then nan
  else if x.isInfinite then if y.isInfinite then nan else infinity negative
  else if y.isInfinite then zero negative
  else if y.isZero then if x.isZero then nan else infinity negative
  else ofQuotient negative x.significand y.significand (x.scale - y.scale)

/-- The remainder of the division that rounds toward zero; it has the sign of the dividend. -/
def rem (x y : Binary64) : Binary64 :=
  if x.isNaN || y.isNaN || x.isInfinite || y.isZero then nan
  else if y.isInfinite then x
  else
    let last := min x.scale y.scale
    let a := x.significand <<< (x.scale - last).toNat
    let b := y.significand <<< (y.scale - last).toNat
    ofDyadic x.isNegative (a % b) last

end SkipCode.Binary64
