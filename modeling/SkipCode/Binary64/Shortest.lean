import SkipCode.Binary64.Rounding

/-!
# The fewest digits that read back

Among the decimals that round to a number, `shortest` finds one with the fewest digits, and of
those the nearest to the number; of two equally near it takes the larger.

The reals that round to `m · 2 ^ e` form an interval around it, which has its ends exactly when
`m` is even. A grid of decimals is a power of ten; if any of its points lies in the interval, one
of the two neighbours of the number on it does. So the grids are tried from the coarsest, and the
first neighbour inside the interval wins.
-/

namespace SkipCode.Binary64

/-- A positive decimal `digits · 10 ^ power`. -/
structure Decimal where
  digits : Nat
  power : Int
deriving Repr, Inhabited, DecidableEq

/-- A positive number and the interval of reals that round to it, all over one denominator. -/
structure Neighbourhood where
  low : Nat
  value : Nat
  high : Nat
  den : Nat
  ends : Bool

/-- The interval around a finite positive number. The gap below a power of two is half the gap
above it, except where numbers are evenly spaced. -/
def neighbourhood (x : Binary64) : Neighbourhood :=
  let m := x.significand
  let narrow := x.fractionField = 0 && 1 < x.exponentField
  let up := (x.scale - 2).toNat
  { low := (4 * m - if narrow then 1 else 2) <<< up
    value := (4 * m) <<< up
    high := (4 * m + 2) <<< up
    den := 1 <<< (2 - x.scale).toNat
    ends := m % 2 == 0 }

namespace Neighbourhood

/-- Whether `point / scale` rounds to the number, for a point over the denominator `scale · den`. -/
def contains (n : Neighbourhood) (point scale : Nat) : Bool :=
  if n.ends then n.low * scale ≤ point && point ≤ n.high * scale
  else n.low * scale < point && point < n.high * scale

/-- The best decimal of the grid `10 ^ power`: of the neighbours of the number on the grid that
lie in the interval, the nearer one, and the larger one on a tie. -/
def onGrid (n : Neighbourhood) (power : Int) : Option Nat :=
  let scale := 10 ^ (-power).toNat
  let step := n.den * 10 ^ power.toNat
  let value := n.value * scale
  let below := value / step
  let distance := value % step
  let lower := n.contains (below * step) scale
  let upper := n.contains ((below + 1) * step) scale
  if upper && (!lower || step ≤ 2 * distance) then some (below + 1)
  else if lower then some below
  else none

/-- The exponent of ten of the leading digit, from an estimate that is at most one off. -/
def leadingPower (n : Neighbourhood) : Int :=
  let estimate := (((n.value.log2 : Int) - n.den.log2) * 1233).fdiv 4096
  let reaches (power : Int) : Bool :=
    n.den * 10 ^ power.toNat ≤ n.value * 10 ^ (-power).toNat
  if reaches (estimate + 1) then estimate + 1
  else if reaches estimate then estimate
  else if reaches (estimate - 1) then estimate - 1
  else estimate - 2

/-- Tries the grids from `power` downward, `tries` of them. -/
def search (n : Neighbourhood) : (tries : Nat) → (power : Int) → Decimal
  | 0, power => ⟨n.value / n.den, power⟩
  | tries + 1, power =>
    match n.onGrid power with
    | some digits => ⟨digits, power⟩
    | none => n.search tries (power - 1)

end Neighbourhood

/-- The same decimal with a last digit other than zero, looking at most `places` digits deep. -/
def Decimal.trim : (places : Nat) → Decimal → Decimal
  | 0, d => d
  | places + 1, d =>
    if d.digits % 10 = 0 then trim places ⟨d.digits / 10, d.power + 1⟩ else d

/-- The shortest decimal that reads back as the finite number `x`, which is not zero; its sign is
left aside. Seventeen digits always suffice. -/
def shortest (x : Binary64) : Decimal :=
  let n := x.neighbourhood
  (n.search 18 n.leadingPower).trim 18

end SkipCode.Binary64
