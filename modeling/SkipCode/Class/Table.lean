import SkipCode.Lower.Error
import SkipCode.Source.Program

/-!
# Class layouts

Instances are stored field by field: every instance field has an array of its own, its *stack*,
in which each instance has an entry. The fields of a class come right after those of its base, so a
field has the same stack in every class that inherits it. `ClassTable.build` lays out all classes
of a program, and the look-ups start at the static class of an object and walk up to its root.

Stacks are counted without bound. A count in 32 bits gives the same numbers for every chain of
classes with fewer than `2 ^ 32` instance fields.

Every class is followed up to its root here. Laying out each class once, right behind its base,
gives the same table (`ClassTable.buildOnce_agrees`).
-/

namespace SkipCode

open Source (ClassDecl ConstructorDecl FieldDecl MethodDecl)

/-- An instance field, the class that declares it, and the stack it is kept in. The number of the
stack is that of a 32-bit count as long as there are fewer than `2 ^ 32` instance fields on the
chain. -/
structure FieldSlot where
  name : String
  owner : String
  stack : Nat
deriving Repr, Inhabited, DecidableEq

structure ClassLayout where
  name : String
  base : Option String
  /-- The classes from the root down to this one. -/
  chain : List String
  /-- The instance fields that the class declares itself. -/
  fields : List FieldSlot
  /-- The first stack of those fields, which is the number of stacks of the base. With fewer than `2
  ^ 32` instance fields on the chain a count in 32 bits agrees. -/
  stackStart : Nat
deriving Repr, Inhabited, DecidableEq

/-- The number of stacks that an instance has an entry in, which agrees with a count in 32 bits for
fewer than `2 ^ 32` instance fields on the chain. -/
def ClassLayout.stackEnd (l : ClassLayout) : Nat := l.stackStart + l.fields.length

/-- The classes of a program with their layouts. -/
structure ClassTable where
  decls : List ClassDecl
  layouts : List ClassLayout
deriving Repr, Inhabited

namespace ClassTable

def empty : ClassTable := ⟨[], []⟩

/-- The declaration of a class among others. -/
def find? (decls : List ClassDecl) (name : String) : Option ClassDecl :=
  decls.find? fun d => d.name == name

/-- The classes from the root down to `d`. `path` has the names met on the way to `d`; coming to
one of them again is a cycle. No more steps than there are classes can be taken without that. -/
def ancestry (decls : List ClassDecl) : (steps : Nat) → (path : List String) → ClassDecl →
    Except LowerError (List ClassDecl)
  | 0, path, d => .error (.unsupported (.inheritanceCycle d.name path))
  | steps + 1, path, d =>
    match d.base with
    | none => .ok [d]
    | some base =>
      match find? decls base with
      | none => .error ((LowerError.defect (.unknownBase d.name base)).withSpan d.span)
      | some parent =>
        let path := path ++ [d.name]
        if path.contains base then .error (.unsupported (.inheritanceCycle base path))
        else do return (← ancestry decls steps path parent) ++ [d]

/-- The own fields of a class with their stacks, from the first stack on. -/
def fieldSlots (d : ClassDecl) (stackStart : Nat) : List FieldSlot :=
  d.instanceFields.mapIdx fun i f => ⟨f.name, d.name, stackStart + i⟩

/-- The layout of the class at the end of a chain. -/
def layoutOf (chain : List ClassDecl) (d : ClassDecl) : ClassLayout :=
  let stackStart := (chain.dropLast.map fun c => c.instanceFields.length).sum
  { name := d.name
    base := d.base
    chain := chain.map (·.name)
    fields := fieldSlots d stackStart
    stackStart := stackStart }

/-- Fails at the second declaration of a class. -/
def checkDistinct : (seen : List String) → List ClassDecl → Except LowerError Unit
  | _, [] => .ok ()
  | seen, d :: rest =>
    if seen.contains d.name then
      .error ((LowerError.defect (.classDeclaredTwice d.name)).withSpan d.span)
    else checkDistinct (d.name :: seen) rest

/-- Lays out all classes of a program. -/
def build (decls : List ClassDecl) : Except LowerError ClassTable := do
  checkDistinct [] decls
  let layouts ← decls.mapM fun d => do
    return layoutOf (← ancestry decls decls.length [] d) d
  return ⟨decls, layouts⟩

def layout (t : ClassTable) (className : String) : Except LowerError ClassLayout :=
  match t.layouts.find? fun l => l.name == className with
  | some l => .ok l
  | none => .error (.defect (.unknownClass className))

def decl (t : ClassTable) (className : String) : Except LowerError ClassDecl :=
  match find? t.decls className with
  | some d => .ok d
  | none => .error (.defect (.unknownClass className))

/-- The declarations from a class up to its root. -/
def walkUp (t : ClassTable) (className : String) : Except LowerError (List ClassDecl) := do
  return (← t.layout className).chain.reverse.filterMap (find? t.decls)

/-- The instance fields of a class, those of its root first. -/
def allFields (t : ClassTable) (className : String) : Except LowerError (List FieldSlot) := do
  let fields ← (← t.layout className).chain.mapM fun name => do return (← t.layout name).fields
  return fields.flatten

/-- The declaration behind an instance field. -/
def fieldDecl (t : ClassTable) (slot : FieldSlot) : Except LowerError FieldDecl := do
  match (← t.decl slot.owner).instanceFields.find? fun f => f.name == slot.name with
  | some f => return f
  | none => throw (.defect (.lostField slot.owner slot.name))

/-- The instance field that a name means in a class: of the classes that declare it the one
nearest to the class. -/
def findField (t : ClassTable) (className field : String) : Except LowerError FieldSlot := do
  let layouts ← (← t.layout className).chain.reverse.mapM t.layout
  match layouts.findSome? fun l => l.fields.find? fun f => f.name == field with
  | some slot => return slot
  | none => throw (.defect (.noInstanceField className field))

/-- The static field that a name means in a class, with the class that declares it. -/
def findStatic (t : ClassTable) (className field : String) :
    Except LowerError (String × FieldDecl) := do
  let found := (← t.walkUp className).findSome? fun d =>
    (d.fields.find? fun f => f.isStatic && f.name == field).map fun f => (d.name, f)
  match found with
  | some pair => return pair
  | none => throw (.defect (.noStaticField className field))

/-- The method that a name means in a class, with the class that declares it. -/
def findMethod (t : ClassTable) (className method : String) :
    Except LowerError (String × MethodDecl) := do
  let found := (← t.walkUp className).findSome? fun d =>
    (d.methods.find? fun m => m.name == method).map fun m => (d.name, m)
  match found with
  | some pair => return pair
  | none => throw (.defect (.noMethod className method))

/-- A constructor of a class. A class that declares none has an empty one. -/
def constructor (t : ClassTable) (className : String) (index : Nat) :
    Except LowerError ConstructorDecl := do
  let d ← t.decl className
  if d.constructors.isEmpty && index == 0 then return ⟨[], []⟩
  else
    match d.constructors[index]? with
    | some c => return c
    | none => throw (.defect (.noConstructor className index))

end ClassTable

end SkipCode
