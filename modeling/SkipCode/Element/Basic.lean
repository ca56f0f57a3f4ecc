import SkipCode.Binary64.Conversion

/-!
# Elements

An element is an expression of the target. It has no effects: whatever writes is an action. The
capacity of the target is counted in elements, so every node counts (`Element.count`), the actor
of a store that belongs to one included.
-/

namespace SkipCode

inductive ArithmeticOp where
  | add | subtract | multiply | divide | modulo
deriving DecidableEq, Repr, Inhabited

inductive Comparison where
  | equal | notEqual | less | lessEqual | greater | greaterEqual
deriving DecidableEq, Repr, Inhabited

namespace Comparison

/-- The comparison that holds exactly when this one does not, NaNs aside. -/
def inverse : Comparison → Comparison
  | equal => notEqual
  | notEqual => equal
  | less => greaterEqual
  | lessEqual => greater
  | greater => lessEqual
  | greaterEqual => less

theorem inverse_inverse (op : Comparison) : op.inverse.inverse = op := by cases op <;> rfl

def symbol : Comparison → String
  | equal => "=="
  | notEqual => "!="
  | less => "<"
  | lessEqual => "<="
  | greater => ">"
  | greaterEqual => ">="

end Comparison

def ArithmeticOp.symbol : ArithmeticOp → String
  | add => "+"
  | subtract => "-"
  | multiply => "*"
  | divide => "/"
  | modulo => "%"

mutual

/-- The flat store that a variable lives in: the one all units share, or the one of an actor. -/
inductive Store where
  | global
  | actor (who : Element)

/-- An expression of the target. -/
inductive Element where
  | number (x : Binary64)
  | bool (b : Bool)
  /-- An array of the values of the items. -/
  | array (items : List Element)
  /-- The value in a slot. -/
  | variable (store : Store) (slot : UInt32)
  /-- The item at an index. -/
  | itemAt (array index : Element)
  | countOf (array : Element)
  | lastOf (array : Element)
  /-- Adds a scalar at the end, or all items of an array. -/
  | append (array value : Element)
  /-- At most `count` items from `start` on. -/
  | slice (array start count : Element)
  /-- The first position of a value, or minus one. -/
  | indexOf (array value : Element)
  | arithmetic (op : ArithmeticOp) (lhs rhs : Element)
  | compare (lhs : Element) (op : Comparison) (rhs : Element)
  | and (lhs rhs : Element)
  | or (lhs rhs : Element)
  | not (inner : Element)
  /-- The actor that runs the unit. -/
  | eventPlayer

end

deriving instance Repr, BEq for Store, Element

instance : Inhabited Element := ⟨.eventPlayer⟩
instance : Inhabited Store := ⟨.global⟩

namespace Element

/-- A whole number as an element. -/
def ofNat (n : Nat) : Element := .number (.ofNat n)

/-- The element of the value that slots start with. -/
def neutral : Element := .number 0

def add (lhs rhs : Element) : Element := .arithmetic .add lhs rhs

def subtract (lhs rhs : Element) : Element := .arithmetic .subtract lhs rhs

end Element

mutual

/-- The number of nodes of an element. -/
def Element.count : Element → Nat
  | .number _ => 1
  | .bool _ => 1
  | .eventPlayer => 1
  | .array items => 1 + Element.countAll items
  | .variable store _ => 1 + store.count
  | .countOf inner => 1 + inner.count
  | .lastOf inner => 1 + inner.count
  | .not inner => 1 + inner.count
  | .itemAt array index => 1 + array.count + index.count
  | .append array value => 1 + array.count + value.count
  | .indexOf array value => 1 + array.count + value.count
  | .slice array start count => 1 + array.count + start.count + count.count
  | .arithmetic _ lhs rhs => 1 + lhs.count + rhs.count
  | .compare lhs _ rhs => 1 + lhs.count + rhs.count
  | .and lhs rhs => 1 + lhs.count + rhs.count
  | .or lhs rhs => 1 + lhs.count + rhs.count

def Element.countAll : List Element → Nat
  | [] => 0
  | item :: rest => item.count + Element.countAll rest

/-- A store costs what its actor costs. -/
def Store.count : Store → Nat
  | .global => 0
  | .actor who => who.count

end

end SkipCode
