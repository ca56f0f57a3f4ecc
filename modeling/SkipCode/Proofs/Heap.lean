import SkipCode.Proofs.Constants
import SkipCode.Proofs.Stacks

/-!
# Instances as a heap

What a program may think of instances: a *heap* knows for each handle that is live the class of its
instance and the value of every field. Making, writing and deleting an instance are *events* on it.

The code of straight units, which use instances by one statement after the other, has events too:
`Script.moments` cuts a run of such a unit at the ends of its statements and reads off the handles
and values in between. That the two agree is in `Proofs.Instances`.
-/

namespace SkipCode

open Engine (Context Host Memory)
open Source (Expr Stmt StmtKind)

/-! ## Heaps -/

/-- An instance that is live, with the values of its fields. -/
structure Instance where
  className : String
  fields : FieldSlot → Value

/-- The instances that are live, by their handles. -/
abbrev Heap := Binary64 → Option Instance

/-- What happens to an instance. -/
inductive HeapEvent where
  | made (handle : Binary64) (className : String)
  /-- A field is written; `className` is the static class of the access. -/
  | written (handle : Binary64) (className field : String) (value : Value)
  /-- `className` is the static class of the object. -/
  | deleted (handle : Binary64) (className : String)

namespace ClassTable

/-- The value that a field has in a new instance. -/
def initialValue (t : ClassTable) (slot : FieldSlot) : Value :=
  match t.fieldDecl slot with
  | .ok ⟨_, some e, _⟩ => e.constantValue
  | _ => .neutral

/-- A class has another one on its chain. -/
def derives (t : ClassTable) (className base : String) : Bool :=
  match t.layout className with
  | .ok l => l.chain.contains base
  | .error _ => false

end ClassTable

namespace Heap

def empty : Heap := fun _ => none

/-- The heap behind an event. -/
def play (t : ClassTable) (H : Heap) : HeapEvent → Heap
  | .made x className => fun y => if y = x then some ⟨className, t.initialValue⟩ else H y
  | .written x className field v =>
    match H x, t.findField className field with
    | some obj, .ok slot => fun y =>
      if y = x then some { obj with fields := fun s =>
        if s = slot then v else obj.fields s } else H y
    | _, _ => H
  | .deleted x _ => fun y => if y = x then none else H y

/-- The heap behind several events. -/
def after (t : ClassTable) (H : Heap) (events : List HeapEvent) : Heap := events.foldl (play t) H

/-- The event is about an instance that is live, by a class on its chain. -/
def allows (t : ClassTable) (H : Heap) : HeapEvent → Bool
  | .made .. => true
  | .written x className _ _ => (H x).any fun obj => t.derives obj.className className
  | .deleted x className => (H x).any fun obj => t.derives obj.className className

/-- Every event is allowed by the heap that it comes to. -/
def legal (t : ClassTable) : Heap → List HeapEvent → Bool
  | _, [] => true
  | H, ev :: rest => H.allows t ev && legal t (H.play t ev) rest

/-- Wherever a field of a live instance is read in the code of a session, by whatever class on its
chain, the value is the one that the heap has. -/
def Shown (H : Heap) (σ : Session) (c : Context) : Prop :=
  ∀ x obj className field slot, H x = some obj → σ.classes.derives obj.className className = true →
    σ.classes.findField className field = .ok slot →
    ∀ depth object s handle s₁ element s₂ v, s.session.classes = σ.classes →
      Lower.run (lowerExpr (expander depth) object) s = some (.ok handle, s₁) →
      Lower.run (lowerExpr (expander depth) (.field object className field)) s =
        some (.ok element, s₂) →
      s₂.session.classData.Grows σ.classData →
      Engine.eval c handle = .ok v → v.asNumber = x → Engine.eval c element = .ok (obj.fields slot)

end Heap

/-! ## Straight units -/

/-- An expression that itself is neither a call nor a new instance. -/
def Source.Expr.isInert : Expr → Bool
  | .new .. | .call .. => false
  | _ => true

/-- An expression without calls and without new instances. -/
def Source.Expr.effectFree (e : Expr) : Bool := e.parts.all Expr.isInert

/-- The class has constant initial values and the constructor does nothing. -/
def ClassTable.makesPlain (t : ClassTable) (className : String) (constructorIndex : Nat) : Bool :=
  match t.constructor className constructorIndex, Lower.fieldInitials t className with
  | .ok constructor, .ok fields =>
    constructor.body.isEmpty && fields.all fun field => field.2.all fun e => e.constant?.isSome
  | _, _ => false

/-- An expression that makes an instance, or has no effect. -/
def Source.Expr.simple (t : ClassTable) : Expr → Bool
  | .new className constructorIndex arguments =>
    t.makesPlain className constructorIndex && arguments.all Expr.effectFree
  | e => e.effectFree

/-- A statement that makes, writes or deletes one instance, or only deals with variables. -/
def Source.StmtKind.simple (t : ClassTable) : StmtKind → Bool
  | .define _ initial _ => initial.all (Expr.simple t)
  | .assign (.field object _ _) index _ value =>
    object.effectFree && index.isEmpty && value.effectFree
  | .assign (.actorVar actor _) index _ value =>
    actor.effectFree && index.all Expr.effectFree && value.effectFree
  | .assign _ index _ value => index.all Expr.effectFree && value.effectFree
  | .delete object _ => object.effectFree
  | .expr value => value.simple t
  | _ => false

/-! ## The events of a run -/

/-- The number that an expression has where it is lowered in a state. -/
def numberOf (into : Expander) (s : UnitState) (c : Context) (e : Expr) : Option Binary64 :=
  match Lower.run (lowerExpr into e) s with
  | some (.ok x, _) => (Engine.eval c x).toOption.map Value.asNumber
  | _ => none

/-- The events of a simple statement that starts in a state and is run from one context to another.
What a field is written with is lowered behind the field itself. -/
def Source.StmtKind.events (into : Expander) (s : UnitState) (before after : Context) :
    StmtKind → Option (List HeapEvent)
  | .define _ (some (.new className constructorIndex arguments)) _
  | .expr (.new className constructorIndex arguments) => do
    let x ← numberOf into s after (.new className constructorIndex arguments)
    return [.made x className]
  | .assign (.field object className field) _ op value => do
    let x ← numberOf into s before object
    match Lower.run (lowerExprs into [.field object className field, value]) s with
    | some (.ok [current, value], _) =>
      let v ← (Engine.eval before (Lower.combine op current [] value)).toOption
      return [.written x className field v]
    | _ => none
  | .delete object className => do
    let x ← numberOf into s before object
    return [.deleted x className]
  | _ => some []

namespace Engine.Host

/-- The memory when a run comes to a position, if that is soon enough. -/
def upTo (h : Host) (list : ActionList) (target : Nat) : (fuel ip : Nat) → Memory → Option Memory
  | 0, ip, m => if ip = target then some m else none
  | fuel + 1, ip, m =>
    if ip = target then some m
    else (h.step list ip m).bind fun next => h.upTo list target fuel next.1 next.2

end Engine.Host

/-- What a statement is run in, and its events. -/
structure Moment where
  context : Context
  events : List HeapEvent

/-- The heap is shown wherever a statement starts, and a handle that is made is that of no live
instance. -/
def Heap.Agrees (σ : Session) : Heap → List Moment → Prop
  | _, [] => True
  | H, moment :: rest => H.Shown σ moment.context ∧
      (∀ x className, .made x className ∈ moment.events → H x = none) ∧
        Agrees σ (H.after σ.classes moment.events) rest

/-- A straight unit: the session and the pool it was lowered in, its body and its list. -/
structure Script where
  session : Session
  name : String
  pool : Pool
  body : List Stmt
  list : ActionList

namespace Script

/-- The statements that are left, from a state of the lowering and a memory of the run on. -/
def momentsFrom (into : Expander) (h : Host) (list : ActionList) :
    UnitState → Memory → List Stmt → Option (List Moment)
  | _, _, [] => some []
  | s, m, stmt :: rest =>
    match Lower.run (lowerStmt into stmt) s with
    | some (.ok (), s') => do
      let m' ← h.upTo list s'.list.length list.length s.list.length m
      let events ← stmt.kind.events into { s with span := stmt.span } (h.context m) (h.context m')
      return ⟨h.context m, events⟩ :: (← momentsFrom into h list s' m' rest)
    | _ => none

/-- The statements of a run that starts on an engine as an actor. -/
def moments (u : Script) (e : Engine) (actor : Int64) : Option (List Moment) :=
  momentsFrom (expander (expansionBound u.session)) ⟨e.config, actor⟩ u.list
    (u.session.start u.name u.pool) e.memory u.body

/-- A unit all of whose statements are simple. -/
def Simple (u : Script) (t : ClassTable) : Prop := ∀ stmt ∈ u.body, stmt.kind.simple t = true

end Script

/-- Straight units and others that were lowered in one session, with the symbols of all. -/
inductive Scripted (config : LowerConfig) (program : Source.Program) :
    List Script → List Symbol → Session → Prop
  | start {σ} : Session.new config program = .ok σ → Scripted config program [] [] σ
  | script {scripts past σ name pool body output list} : Scripted config program scripts past σ →
      σ.lowerUnit name pool body = some output → output.result = .ok list → output.deferred = [] →
      Scripted config program (scripts ++ [⟨σ, name, pool, body, list⟩]) (output.symbols ++ past)
        output.session
  | other {scripts past σ body output list} : Scripted config program scripts past σ →
      σ.Lowered body output → output.result = .ok list → output.deferred = [] →
      Scripted config program scripts (output.symbols ++ past) output.session

/-- A run of a straight unit, from an engine on and as an actor. -/
structure ScriptRun where
  script : Script
  engine : Engine
  actor : Int64

def ScriptRun.moments (r : ScriptRun) : Option (List Moment) := r.script.moments r.engine r.actor

/-- Straight units run one after the other, each to its end. -/
inductive Performed (scripts : List Script) (start : Engine) : List ScriptRun → Engine → Prop
  | idle : Performed scripts start [] start
  | run {runs e u actor e'} : Performed scripts start runs e → u ∈ scripts →
      e.runList u.list actor = some (.ok .completed, e') →
      Performed scripts start (runs ++ [⟨u, e, actor⟩]) e'

end SkipCode
