import SkipCode.Class.Storage

/-!
# Sessions

What the units of one compilation share: the pools, the classes with their storage, and the
functions. Because they share the pools, their slots do not collide.
-/

namespace SkipCode

open Source (MethodDecl Program)

structure Session where
  config : LowerConfig
  global : SlotPool
  actor : SlotPool
  classes : ClassTable
  classData : ClassData
  functions : List MethodDecl
deriving Repr, Inhabited

namespace Session

/-- Fails at the second declaration of a function. -/
def checkFunctions : (seen : List String) → List MethodDecl → Except LowerError Unit
  | _, [] => .ok ()
  | seen, f :: rest =>
    if seen.contains f.name then
      .error ((LowerError.defect (.functionDeclaredTwice f.name)).withSpan f.span)
    else checkFunctions (f.name :: seen) rest

/-- The session of a program before any unit is lowered. -/
def new (config : LowerConfig) (program : Program) : Except LowerError Session := do
  let classes ← ClassTable.build program.classes
  checkFunctions [] program.functions
  return {
    config := config
    global := .new .global config.globalCapacity config.reuseSlots
    actor := .new .actor config.actorCapacity config.reuseSlots
    classes := classes
    classData := .empty
    functions := program.functions }

def slotPool (s : Session) : Pool → SlotPool
  | .global => s.global
  | .actor => s.actor

def setSlotPool (s : Session) (p : SlotPool) : Pool → Session
  | .global => { s with global := p }
  | .actor => { s with actor := p }

def findFunction (s : Session) (name : String) : Except LowerError MethodDecl :=
  match s.functions.find? fun f => f.name == name with
  | some f => .ok f
  | none => .error (.defect (.unknownFunction name))

end Session

end SkipCode
