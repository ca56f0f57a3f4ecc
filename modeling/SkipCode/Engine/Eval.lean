import SkipCode.Element.Basic
import SkipCode.Engine.Config
import SkipCode.Engine.Error

/-!
# Evaluating elements

Evaluation reads the stores and changes nothing. All it can fail of is a slot outside the capacity
of its store; misses of any other kind give the neutral value, and a division by zero gives zero.
`and` and `or` evaluate their right operand only when the left one leaves the answer open.
-/

namespace SkipCode.Engine

/-- What an element is evaluated in. -/
structure Context where
  config : Config
  memory : Memory
  /-- The actor that runs the unit. -/
  actor : Int64

namespace Context

def capacity (c : Context) : StoreKey → UInt32
  | .global => c.config.globalCapacity
  | .actor _ => c.config.actorCapacity

/-- Refuses a slot outside the capacity of its store. -/
def checkSlot (c : Context) (key : StoreKey) (slot : UInt32) : Except Fault Unit :=
  if slot < c.capacity key then .ok ()
  else .error (.slotOutOfRange key slot (c.capacity key))

def read (c : Context) (key : StoreKey) (slot : UInt32) : Except Fault Value := do
  c.checkSlot key slot
  return c.memory.get key slot

end Context

/-- The value of an arithmetic operation; dividing by zero gives zero. -/
def arithmetic (op : ArithmeticOp) (a b : Binary64) : Binary64 :=
  match op with
  | .add => a.add b
  | .subtract => a.sub b
  | .multiply => a.mul b
  | .divide => if b.isZero then 0 else a.div b
  | .modulo => if b.isZero then 0 else a.rem b

/-- Equality is loose equality of values; the order is that of the values as numbers. -/
def compare (op : Comparison) (a b : Value) : Bool :=
  match op with
  | .equal => a.looselyEquals b
  | .notEqual => !a.looselyEquals b
  | .less => a.asNumber.less b.asNumber
  | .lessEqual => a.asNumber.lessEq b.asNumber
  | .greater => b.asNumber.less a.asNumber
  | .greaterEqual => b.asNumber.lessEq a.asNumber

/-- The item at an index, which is cut to a whole number; an index below zero misses. -/
def itemAt (array : Value) (index : Binary64) : Value :=
  if index.less 0 then .neutral else array.item index.toIndex

/-- The items of an array with a value added: a scalar at its end, of an array all items. -/
def append (array value : Value) : Value :=
  match value with
  | .array more => .array (array.toItems ++ more)
  | scalar => .array (array.toItems ++ [scalar])

/-- At most `count` items from `start` on; a start below zero is zero. -/
def slice (array : Value) (start count : Binary64) : Value :=
  let start := if start.less 0 then 0 else start.toIndex
  if count.lessEq 0 then .array []
  else .array ((array.items.drop start).take count.toIndex)

/-- The first position of a value in an array, or minus one. -/
def indexOf (array value : Value) : Value :=
  match array.items.findIdx? (·.looselyEquals value) with
  | some position => .number (.ofNat position)
  | none => .number (.ofInt (-1))

mutual

/-- The value of an element. -/
def eval (c : Context) : Element → Except Fault Value
  | .number x => .ok (.number x)
  | .bool b => .ok (.bool b)
  | .array items => do return .array (← evalAll c items)
  | .variable store slot => do c.read (← storeKey c store) slot
  | .itemAt array index => do
    let array ← eval c array
    let index ← eval c index
    return itemAt array index.asNumber
  | .countOf array => do return .number (.ofNat (← eval c array).items.length)
  | .lastOf array => do return (← eval c array).items.getLastD .neutral
  | .append array value => do
    let array ← eval c array
    let value ← eval c value
    return append array value
  | .slice array start count => do
    let array ← eval c array
    let start ← eval c start
    let count ← eval c count
    return slice array start.asNumber count.asNumber
  | .indexOf array value => do
    let array ← eval c array
    let value ← eval c value
    return indexOf array value
  | .arithmetic op lhs rhs => do
    let a ← eval c lhs
    let b ← eval c rhs
    return .number (arithmetic op a.asNumber b.asNumber)
  | .compare lhs op rhs => do
    let a ← eval c lhs
    let b ← eval c rhs
    return .bool (compare op a b)
  | .and lhs rhs => do
    if (← eval c lhs).truthy then return .bool (← eval c rhs).truthy
    else return .bool false
  | .or lhs rhs => do
    if (← eval c lhs).truthy then return .bool true
    else return .bool (← eval c rhs).truthy
  | .not inner => do return .bool (!(← eval c inner).truthy)
  | .eventPlayer => .ok (.number (.ofInt c.actor.toInt))

def evalAll (c : Context) : List Element → Except Fault (List Value)
  | [] => .ok []
  | e :: es => do
    let v ← eval c e
    let vs ← evalAll c es
    return v :: vs

/-- The store that is meant; an actor is given by a number. -/
def storeKey (c : Context) : Store → Except Fault StoreKey
  | .global => .ok .global
  | .actor who => do return .actor (← eval c who).asNumber.toInt64

end

end SkipCode.Engine
