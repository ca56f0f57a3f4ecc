import SkipCode.Action.List
import SkipCode.Class.Table
import SkipCode.Lower.Attempt
import SkipCode.Lower.Config
import SkipCode.Storage.Pool
import SkipCode.Storage.Variable

/-!
# Storage of instances

Instances live in the shared store. The *handle table* is an array with a flag for every handle,
one when an instance has it and zero when none has. Each field stack is an array with an entry for
every handle, and each static field is a plain slot. All of them get their slots when they are
first needed, and keep them.
-/

namespace SkipCode

structure ClassData where
  table : Option IndexedVar
  fieldStacks : List IndexedVar
  /-- Static fields under class and name, joined by a point. -/
  statics : List (String × IndexedVar)
deriving Repr, Inhabited

def ClassData.empty : ClassData := ⟨none, [], []⟩

/-- What the storage of instances works on: itself, the pool of the shared store, and the list of
the unit. -/
structure ClassStorage where
  data : ClassData
  pool : SlotPool
  list : ActionList
deriving Repr, Inhabited

namespace ClassStorage

abbrev Step := Attempt ClassStorage

/-- A slot of the shared store, as a plain variable of the name of its owner. -/
def allocate (owner : String) : Step IndexedVar := do
  let s ← get
  let (slot, pool) ← (s.pool.allocate owner : Except LowerError _)
  set { s with pool }
  return .plain owner .global slot

def modifyData (f : ClassData → ClassData) :
    Step Unit := modify fun s => { s with data := f s.data }

def emit (actions : List Action) : Step Unit :=
  modify fun s => { s with list := s.list.extend actions }

/-- The flags of the handles. -/
def handleTable : Step IndexedVar := do
  match (← get).data.table with
  | some table => return table
  | none =>
    let table ← allocate "__class_handles"
    modifyData ({ · with table := some table })
    return table

/-- The stack at an index, which is that of a 32-bit count for fewer than `2 ^ 32` stacks. Stacks
are made in order, so at most the next one can be new. -/
def fieldStack (index : Nat) : Step IndexedVar := do
  let made := (← get).data.fieldStacks
  match made[index]? with
  | some stack => return stack
  | none =>
    if made.length < index then throw (.defect (.fieldStackSkipped index made.length))
    let stack ← allocate s!"__field_stack_{index}"
    modifyData fun d => { d with fieldStacks := d.fieldStacks ++ [stack] }
    return stack

/-- Makes the stacks that a class needs. -/
def prepare (layout : ClassLayout) : Step Unit :=
  (List.range layout.stackEnd).forM fun index => discard (fieldStack index)

/-- The slot of a static field. -/
def staticField (className field : String) : Step IndexedVar := do
  let key := className ++ "." ++ field
  match (← get).data.statics.lookup key with
  | some var => return var
  | none =>
    let var ← allocate key
    modifyData fun d => { d with statics := d.statics ++ [(key, var)] }
    return var

/-- Writes code that puts a free handle into a variable and marks it as taken. With reuse that is
the first handle that is free, and the next new one when there is none; without reuse always the
next new one. The unit aborts when the handle is beyond the capacity. -/
def acquireHandle (config : LowerConfig) (handle : Variable) : Step Unit := do
  let table := (← handleTable).get none
  let next ← (handle.set "new handle" (.countOf table) [] : Except LowerError _)
  if config.reuseHandles then
    emit (← (handle.set "new handle" (.indexOf table (.ofNat 0)) [] : Except LowerError _))
    emit [.skipIf (.compare handle.get .notEqual (.number (.ofInt (-1))))
      (some (Int32.ofNat next.length))]
  emit next
  emit [.skipIf (.compare handle.get .less (.ofNat config.classCapacity.toNat)) (some 1), .abort]
  emit ((← handleTable).set (.ofNat 1) none [handle.get])

/-- Writes code that clears the fields of a class in an instance, those of its root first, and
marks the handle as free. -/
def release (classes : ClassTable) (className : String) (handle : Element) : Step Unit := do
  prepare (← (classes.layout className : Except LowerError _))
  for field in ← (classes.allFields className : Except LowerError _) do
    emit ((← fieldStack field.stack).set .neutral none [handle])
  emit ((← handleTable).set (.ofNat 0) none [handle])

end ClassStorage

end SkipCode
