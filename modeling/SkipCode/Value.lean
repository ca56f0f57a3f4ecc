import SkipCode.Binary64.Text
import SkipCode.Binary64.Conversion

/-!
# Values

What a slot of a store holds while a program runs: a number, a boolean, or an array of values.
There are no type errors. A value of the wrong kind stands for a fallback: an array counts as
zero, a scalar has no items, and what is missing reads as the neutral value.
-/

namespace SkipCode

inductive Value where
  | number (x : Binary64)
  | bool (b : Bool)
  | array (items : List Value)
deriving BEq, Repr

namespace Value

/-- The value of a slot that was never written and of a position that is not there. -/
def neutral : Value := .number 0

instance : Inhabited Value := ⟨neutral⟩

/-- A value as a number; arrays count as zero. -/
def asNumber : Value → Binary64
  | .number x => x
  | .bool true => .ofNat 1
  | .bool false => 0
  | .array _ => 0

/-- Whether a value passes as a condition. A NaN does. -/
def truthy : Value → Bool
  | .number x => !x.equal 0
  | .bool b => b
  | .array items => !items.isEmpty

/-- The items of an array; a scalar has none. -/
def items : Value → List Value
  | .array items => items
  | _ => []

/-- The operand of an array operation: a scalar stands for the array of itself. -/
def toItems : Value → List Value
  | .array items => items
  | scalar => [scalar]

/-- The item at a position, neutral when there is none. -/
def item (v : Value) (position : Nat) : Value := v.items.getD position neutral

mutual

/-- Equality of programs: numbers and booleans compare as numbers, arrays item by item. -/
def looselyEquals : Value → Value → Bool
  | .array xs, .array ys => itemsEqual xs ys
  | .array _, _ => false
  | _, .array _ => false
  | a, b => a.asNumber.equal b.asNumber

def itemsEqual : List Value → List Value → Bool
  | [], [] => true
  | x :: xs, y :: ys => looselyEquals x y && itemsEqual xs ys
  | _, _ => false

end

mutual

/-- The text of a value; the items of an array are separated by blanks. -/
def toText : Value → String
  | .number x => x.toText
  | .bool b => toString b
  | .array items => "[" ++ " ".intercalate (itemTexts items) ++ "]"

def itemTexts : List Value → List String
  | [] => []
  | x :: xs => toText x :: itemTexts xs

end

end Value

end SkipCode
