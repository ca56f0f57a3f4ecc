import SkipCode.Action.Basic
import SkipCode.Element.Build
import SkipCode.Lower.Error

/-!
# Variables

What a name stands for: a slot, possibly with a path into the array in it; a stack in a slot, of
which the top is the current value; or an element that can only be read. Reading gives an element,
writing gives actions.

The target can write one level deep. A deeper write rebuilds the arrays on its path, innermost
first, and writes the outermost one (`IndexedVar.set`).
-/

namespace SkipCode

/-- A slot and a path into the array that it holds. -/
structure IndexedVar where
  name : String
  pool : Pool
  slot : UInt32
  path : List Element
deriving BEq, Repr, Inhabited

namespace IndexedVar

/-- A whole slot. -/
def plain (name : String) (pool : Pool) (slot : UInt32) : IndexedVar := ⟨name, pool, slot, []⟩

/-- The same slot, one level further in. -/
def child (v : IndexedVar) (index : Element) : IndexedVar := { v with path := v.path ++ [index] }

/-- The store of the variable as seen by an actor, which is the running one when none is given. -/
def store (v : IndexedVar) (actor : Option Element) : Store :=
  match v.pool with
  | .global => .global
  | .actor => .actor (actor.getD .eventPlayer)

/-- The value of the whole slot. -/
def root (v : IndexedVar) (actor : Option Element) : Element := .variable (v.store actor) v.slot

/-- The item at the end of a path of indices into an array. -/
def descend (array : Element) (path : List Element) : Element := path.foldl .itemAt array

/-- The value at the path of the variable. -/
def get (v : IndexedVar) (actor : Option Element) : Element := descend (v.root actor) v.path

/-- `array` with `value` at the end of a path of indices, each level rebuilt around the next. -/
def rebuild (array : Element) (value : Element) : List Element → Element
  | [] => value
  | index :: rest => .splice array index (rebuild (.itemAt array index) value rest)

/-- Writes a value at the path of the variable extended by `extra`. -/
def set (v : IndexedVar) (value : Element) (actor : Option Element) (extra : List Element) :
    List Action :=
  match v.path ++ extra with
  | [] => [.set (v.store actor) v.slot none value]
  | first :: rest =>
    [.set (v.store actor) v.slot (some first) (rebuild (.itemAt (v.root actor) first) value rest)]

end IndexedVar

/-- A stack in a slot. `openCount` is the number of pushes by `enter` that are not popped yet. -/
structure RecursiveVar where
  stack : IndexedVar
  openCount : Nat
deriving BEq, Repr, Inhabited

namespace RecursiveVar

def new (name : String) (pool : Pool) (slot : UInt32) : RecursiveVar :=
  ⟨.plain name pool slot, 0⟩

/-- The height of the stack. -/
def height (v : RecursiveVar) (actor : Option Element) : Element := .countOf (v.stack.get actor)

/-- The position of the top. -/
def top (v : RecursiveVar) (actor : Option Element) : Element :=
  (v.height actor).subtract (.ofNat 1)

def get (v : RecursiveVar) (actor : Option Element) : Element := .lastOf (v.stack.get actor)

/-- Writes the top, or a place inside it. -/
def set (v : RecursiveVar) (value : Element) (actor : Option Element) (extra : List Element) :
    List Action :=
  v.stack.set value actor (v.top actor :: extra)

def pushActions (v : RecursiveVar) (initial : Element) (actor : Option Element) : List Action :=
  v.stack.set initial actor [v.height actor]

def popActions (v : RecursiveVar) (actor : Option Element) : List Action :=
  v.stack.set (.slice (v.stack.get actor) (.ofNat 0) (v.top actor)) actor []

/-- Pushes a value. -/
def enter (v : RecursiveVar) (initial : Element) (actor : Option Element) :
    List Action × RecursiveVar :=
  (v.pushActions initial actor, { v with openCount := v.openCount + 1 })

/-- Pops a value that was pushed by `enter`. -/
def exit (v : RecursiveVar) (actor : Option Element) :
    Except LowerError (List Action × RecursiveVar) :=
  match v.openCount with
  | 0 => .error (.defect (.popWithoutPush v.stack.name))
  | n + 1 => .ok (v.popActions actor, { v with openCount := n })

end RecursiveVar

/-- What a name stands for. -/
inductive Variable where
  | indexed (v : IndexedVar)
  | recursive (v : RecursiveVar)
  /-- An element that can only be read. -/
  | reference (e : Element)
deriving BEq, Repr, Inhabited

namespace Variable

/-- The pool of the variable's slot. -/
def pool? : Variable → Option Pool
  | indexed v => some v.pool
  | recursive v => some v.stack.pool
  | reference _ => none

/-- The value as seen by an actor. -/
def getFor (v : Variable) (actor : Option Element) : Element :=
  match v with
  | indexed v => v.get actor
  | recursive v => v.get actor
  | reference e => e

def get (v : Variable) : Element := v.getFor none

/-- Writes a value; the name is for the message when the variable can only be read. -/
def setFor (v : Variable) (name : String) (value : Element) (actor : Option Element)
    (extra : List Element) : Except LowerError (List Action) :=
  match v with
  | indexed v => .ok (v.set value actor extra)
  | recursive v => .ok (v.set value actor extra)
  | reference _ => .error (.unsupported (.assignToReference name))

def set (v : Variable) (name : String) (value : Element) (extra : List Element) :
    Except LowerError (List Action) :=
  v.setFor name value none extra

end Variable

end SkipCode
