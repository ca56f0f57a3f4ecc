import SkipCode.Action.Check
import SkipCode.Engine.Eval
import SkipCode.Image.Basic

/-!
# Running lists

A list is checked before it runs; one that is refused leaves the engine as it was. A run then
executes action after action until it comes to the end of the list, to an `abort`, to a failure or
to the limit on its steps. A run without a limit may have no end, so `execute` takes fuel and
answers `none` when it runs out; `runList` supplies more than a limited run can use.
-/

namespace SkipCode

/-- The reference engine: its stores, the actor of the last run and the steps of that run. -/
structure Engine where
  config : Engine.Config
  memory : Engine.Memory
  actor : Int64
  steps : Nat

namespace Engine

/-- The actor that units run as unless another is given. -/
def defaultActor : Int64 := 1

def new (config : Config) : Engine := ⟨config, .empty, defaultActor, 0⟩

def context (e : Engine) : Context := ⟨e.config, e.memory, e.actor⟩

def global (e : Engine) (slot : UInt32) : Value := e.memory.get .global slot

def actorSlot (e : Engine) (who : Int64) (slot : UInt32) : Value := e.memory.get (.actor who) slot

/-- Writes a slot of the shared store from outside, whatever its capacity. -/
def setGlobal (e : Engine) (slot : UInt32) (v : Value) : Engine :=
  { e with memory := e.memory.set .global slot v }

/-- How a run ends when nothing fails. -/
inductive Outcome where
  /-- Went past the last action. -/
  | completed
  | aborted
deriving DecidableEq, Repr

def write (e : Engine) (key : StoreKey) (slot : UInt32) (v : Value) : Engine :=
  { e with memory := e.memory.set key slot v }

/-- The items of an array with one written; an array that is too short is filled up. -/
def setItem : List Value → (position : Nat) → Value → List Value
  | [], position, v => List.replicate position .neutral ++ [v]
  | _ :: rest, 0, v => v :: rest
  | item :: rest, position + 1, v => item :: setItem rest position v

/-- Writes a value to a slot, unless it is an array that is too long. -/
def store (e : Engine) (key : StoreKey) (slot : UInt32) (v : Value) : Except Fault Unit × Engine :=
  if e.config.maxArrayLength < v.items.length then
    (.error (.arrayTooLong v.items.length e.config.maxArrayLength), e)
  else (.ok (), e.write key slot v)

/-- Writes one item of the array in a slot; what is no array counts as an empty one. The length in
the message is a word. The array is taken out of its slot while it is changed. -/
def storeAt (e : Engine) (key : StoreKey) (slot : UInt32) (index : Binary64) (v : Value) :
    Except Fault Unit × Engine :=
  if index.less 0 || !index.isFinite then (.error (.badIndex index), e)
  else
    let position := index.toIndex
    let limit := e.config.maxArrayLength
    if limit ≤ position then (.error (.arrayTooLong ((position + 1) % 2 ^ 64) limit), e)
    else
      let items := (e.memory.get key slot).items
      (e.write key slot .neutral).store key slot (.array (setItem items position v))

/-- What a write needs to know before it changes anything: the store, the value and the index. -/
def operands (c : Context) (st : Store) (slot : UInt32) (index : Option Element)
    (value : Element) : Except Fault (StoreKey × Value × Option Binary64) := do
  let key ← storeKey c st
  let value ← eval c value
  let index ← match index with
    | some index => do
      let index ← eval c index
      pure (some index.asNumber)
    | none => pure none
  c.checkSlot key slot
  return (key, value, index)

/-- Executes a write. -/
def assign (e : Engine) (st : Store) (slot : UInt32) (index : Option Element) (value : Element) :
    Except Fault Unit × Engine :=
  match operands e.context st slot index value with
  | .error f => (.error f, e)
  | .ok (key, value, none) => e.store key slot value
  | .ok (key, value, some index) => e.storeAt key slot index value

/-- What an action leads to. -/
inductive Next where
  | goto (ip : Nat)
  | stop

/-- Where a skip that is taken leads. -/
def taken (ip len : Nat) (count : Option Int32) : Except RuntimeError Next :=
  match count.bind fun count => Action.skipTarget? ip count len with
  | some target => .ok (.goto target)
  | none => .error (.malformed ⟨ip, .noTarget⟩)

/-- Executes the action at `ip` of a list of length `len`. -/
def step (e : Engine) (ip len : Nat) : Action → Except RuntimeError Next × Engine
  | .set st slot index value =>
    match e.assign st slot index value with
    | (.ok (), e) => (.ok (.goto (ip + 1)), e)
    | (.error f, e) => (.error (.fault ip f), e)
  | .skipIf condition count =>
    match eval e.context condition with
    | .ok v => (if v.truthy then taken ip len count else .ok (.goto (ip + 1)), e)
    | .error f => (.error (.fault ip f), e)
  | .skip count => (taken ip len count, e)
  | .abort => (.ok .stop, e)

/-- Counts a step; one beyond the limit is counted and then refused. -/
def countStep (e : Engine) (ip : Nat) : Except RuntimeError Unit × Engine :=
  let e := { e with steps := e.steps + 1 }
  match e.config.maxSteps with
  | some limit =>
    if limit < e.steps then (.error (.fault ip (.stepLimit limit)), e) else (.ok (), e)
  | none => (.ok (), e)

/-- Runs a list from `ip` on, for at most `fuel` steps. -/
def execute (list : ActionList) :
    (fuel : Nat) → (ip : Nat) → Engine → Option (Except RuntimeError Outcome × Engine)
  | 0, _, _ => none
  | fuel + 1, ip, e =>
    match list.get? ip with
    | none => some (.ok .completed, e)
    | some action =>
      match e.countStep ip with
      | (.error err, e) => some (.error err, e)
      | (.ok (), e) =>
        match e.step ip list.length action with
        | (.error err, e) => some (.error err, e)
        | (.ok .stop, e) => some (.ok .aborted, e)
        | (.ok (.goto ip), e) => execute list fuel ip e

/-- Fuel for every run with a limit: the steps that it allows and one more, which sees the end or
the limit. Without a limit there is no telling. -/
def fuel (config : Config) : Nat :=
  match config.maxSteps with
  | some limit => limit + 1
  | none => 2 ^ 62

/-- Runs a list as an actor; `none` when a run without a limit comes to no end. -/
def runList (e : Engine) (list : ActionList) (actor : Int64) :
    Option (Except RuntimeError Outcome × Engine) :=
  match list.check with
  | .error err => some (.error (.malformed err), e)
  | .ok () => execute list (fuel e.config) 0 { e with actor := actor, steps := 0 }

/-- Runs a unit of an image as an actor. -/
def runUnit (e : Engine) (image : Image) (name : String) (actor : Int64) :
    Option (Except RuntimeError Outcome × Engine) :=
  match image.unit? name with
  | none => some (.error (.unknownUnit name), e)
  | some list => e.runList list actor

end Engine

end SkipCode
