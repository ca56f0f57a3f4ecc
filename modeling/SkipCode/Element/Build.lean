import SkipCode.Element.Basic
import SkipCode.Source.Operator

/-!
# Building elements

How negations, source operators and deep array writes are expressed by elements.
-/

namespace SkipCode.Element

/-- The negation of a condition. A comparison turns into its inverse, a negation loses its sign,
a constant flips. -/
def negate : Element → Element
  | .compare lhs op rhs => .compare lhs op.inverse rhs
  | .not inner => inner
  | .bool b => .bool (!b)
  | other => .not other

/-- The element of a source operator. -/
def binary (op : Source.BinaryOp) (lhs rhs : Element) : Element :=
  match op with
  | .add => .arithmetic .add lhs rhs
  | .sub => .arithmetic .subtract lhs rhs
  | .mul => .arithmetic .multiply lhs rhs
  | .div => .arithmetic .divide lhs rhs
  | .mod => .arithmetic .modulo lhs rhs
  | .eq => .compare lhs .equal rhs
  | .ne => .compare lhs .notEqual rhs
  | .lt => .compare lhs .less rhs
  | .le => .compare lhs .lessEqual rhs
  | .gt => .compare lhs .greater rhs
  | .ge => .compare lhs .greaterEqual rhs
  | .and => .and lhs rhs
  | .or => .or lhs rhs

/-- The count of a slice that is meant to reach to the end of its array. -/
def restCount : Nat := 9999

/-- `array` with `value` at `index`: the items before it, the value, the items after it. -/
def splice (array index value : Element) : Element :=
  let before := slice array (.ofNat 0) index
  let after := slice array (index.add (.ofNat 1)) (.ofNat restCount)
  append (append before (.array [value])) after

end SkipCode.Element
