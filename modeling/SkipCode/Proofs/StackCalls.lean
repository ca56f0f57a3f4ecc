import Mathlib.Data.List.Induction
import SkipCode.Proofs.DeepWrites

/-!
# Recursive variables are stacks

Every call on a recursive variable emits one write to its slot, which computes the height of the
stack anew from the array that is in the slot. Here a sequence of calls is followed beside an
abstract stack of values. What was in the slot before the first of them stays below that stack.

* `RecursiveVar.push_done`, `pop_done`, `write_done`: what the three writes do to the array;
* `RecursiveVar.Stacked.call`: one call;
* `RecursiveVar.stacked`: all calls, the last one behind the others;
* `RecursiveVar.calls_stack`: what is in the slot and what is read, and which calls fail.
-/

namespace SkipCode

open Engine (Context Host Memory StoreKey eval)

/-! ## The abstract stack -/

/-- A call on a recursive variable. -/
inductive StackCall where
  | enter (value : Element)
  | exit
  | set (value : Element) (extra : List Element)

/-- What becomes of a stack of values. -/
inductive StackChange where
  | push (x : Value)
  | pop
  /-- Writes the top, or at a path inside it. -/
  | write (path : List Nat) (x : Value)

namespace StackChange

/-- The top is the last one. The empty stack has none to pop or to write. -/
def apply (stack : List Value) : StackChange → List Value
  | .push x => stack ++ [x]
  | .pop => stack.dropLast
  | .write path x => stack.modify (stack.length - 1) fun top => top.replaceAt path x

/-- The stack behind some changes of the empty one. -/
def result (changes : List StackChange) : List Value := changes.foldl apply []

/-- There is room for a value that is pushed on `base` others and the stack, and the place in the
top that is written is there. -/
def Fits (limit base : Nat) (stack : List Value) : StackChange → Prop
  | .push _ => base + stack.length < limit
  | .pop => True
  | .write path _ => ∃ top, stack.getLast? = some top ∧ top.Fits limit path

/-- The last change is applied to the result of the others. -/
theorem result_concat (changes : List StackChange) (change : StackChange) :
    result (changes ++ [change]) = change.apply (result changes) := by
  rw [result, List.foldl_append]
  rfl

/-- A change of the last item leaves those below alone. -/
theorem modify_last (f : Value → Value) (below : List Value) (top : Value) :
    (below ++ [top]).modify below.length f = below ++ [f top] := by
  induction below with
  | nil => rfl
  | cons a below ih => exact congrArg (a :: ·) ih

/-- A write changes the top alone. -/
theorem apply_write (below : List Value) (top x : Value) (path : List Nat) :
    (write path x).apply (below ++ [top]) = below ++ [top.replaceAt path x] := by
  rw [apply, List.length_append, List.length_singleton, Nat.add_sub_cancel, modify_last]

end StackChange

/-- What a call means where it is executed. -/
inductive StackCall.Means (c : Context) : StackCall → StackChange → Prop
  | enter {value : Element} {x : Value} : eval c value = .ok x → Means c (.enter value) (.push x)
  | exit : Means c .exit .pop
  | set {value : Element} {extra : List Element} {x : Value} {path : List Nat} :
      eval c value = .ok x → List.Forall₂ c.Points extra path →
      Means c (.set value extra) (.write path x)

namespace RecursiveVar

/-- Makes a call: the actions that it emits, and the variable behind it. One that fails emits none.
-/
def call (v : RecursiveVar) (actor : Option Element) : StackCall → List Action × RecursiveVar
  | .enter value => v.enter value actor
  | .exit =>
    match v.exit actor with
    | .ok result => result
    | .error _ => ([], v)
  | .set value extra => (v.set value actor extra, v)

/-- Makes calls one after another. -/
def calls (v : RecursiveVar) (actor : Option Element) (calls : List StackCall) :
    List Action × RecursiveVar :=
  calls.foldl (fun r call => (r.1 ++ (r.2.call actor call).1, (r.2.call actor call).2)) ([], v)

/-- The last call is made on the variable the others left. -/
theorem calls_concat (v : RecursiveVar) (actor : Option Element) (before : List StackCall)
    (call : StackCall) :
    v.calls actor (before ++ [call]) =
      ((v.calls actor before).1 ++ ((v.calls actor before).2.call actor call).1,
        ((v.calls actor before).2.call actor call).2) := by
  rw [calls, List.foldl_append]
  rfl

variable {h : Host} {m m' : Memory} {v : RecursiveVar} {value : Element} {actor : Option Element}
  {key : StoreKey} {x : Value}

/-! ## The three writes -/

section Writes

variable (plain : v.stack.path = [])
  (known : Engine.storeKey (h.context m) (v.stack.store actor) = .ok key)
  (inside : v.stack.slot < (h.context m).capacity key)

include plain known inside

/-- The height of a stack is the length of its array. -/
theorem eval_height : eval (h.context m) (v.height actor) =
    .ok (.number (.ofNat (m.get key v.stack.slot).items.length)) := by
  rw [height, IndexedVar.get, plain]
  exact Location.eval_countOf (IndexedVar.eval_store known inside)

/-- The top is the item below the height. -/
theorem eval_top : eval (h.context m) (v.top actor) =
    .ok (.number ((Binary64.ofNat (m.get key v.stack.slot).items.length).sub (.ofNat 1))) := by
  rw [top, height, IndexedVar.get, plain]
  exact Location.eval_top (l := ⟨v.stack.pool, v.stack.slot⟩) (IndexedVar.eval_store known inside)

/-- The top is read, or the neutral value where there is none. -/
theorem eval_get : eval (h.context m) (v.get actor) =
    .ok ((m.get key v.stack.slot).items.getLastD .neutral) := by
  rw [get, IndexedVar.get, plain]
  show eval _ (.lastOf (v.stack.root actor)) = _
  rw [eval, IndexedVar.eval_store known inside]
  rfl

/-- A push is done while there is room for one more item. -/
theorem push_done (evaluates : eval (h.context m) value = .ok x)
    (room : (m.get key v.stack.slot).items.length < h.config.maxArrayLength)
    (small : (m.get key v.stack.slot).items.length ≤ 2 ^ 53) :
    h.acts m (v.pushActions value actor) =
      some (m.put key v.stack.slot (.array ((m.get key v.stack.slot).items ++ [x]))) := by
  have whole := Binary64.isWhole_ofNat small
  have index : (Value.number (.ofNat (m.get key v.stack.slot).items.length)).asNumber.toIndex = _ :=
    Binary64.toIndex_ofNat small
  have action : v.pushActions value actor =
      [.set (v.stack.store actor) v.stack.slot (some (v.height actor)) value] := by
    rw [pushActions, IndexedVar.set, plain]
    rfl
  rw [action, Host.acts_one]
  refine Host.write_some_iff.2 ⟨key, x, _, known, evaluates, eval_height plain known inside,
    if_pos inside, whole.not_less_zero, whole.finite, ?_, ?_, ?_⟩
  · rw [index]
    exact room
  · rw [index, Engine.setItem_length, List.length_append]
    exact room
  · rw [index, Engine.setItem_length]

/-- A pop is done on every array a cell can hold. -/
theorem pop_done (short : (m.get key v.stack.slot).items.length ≤ h.config.maxArrayLength)
    (small : (m.get key v.stack.slot).items.length ≤ 2 ^ 53) :
    h.acts m (v.popActions actor) =
      some (m.set key v.stack.slot (.array (m.get key v.stack.slot).items.dropLast)) := by
  have remaining : eval (h.context m) (.slice (v.stack.get actor) (.ofNat 0) (v.top actor)) =
      .ok (.array (m.get key v.stack.slot).items.dropLast) := by
    have start : eval (h.context m) (.ofNat 0) = .ok (.number (.ofNat 0)) := Location.eval_number _
    rw [IndexedVar.get, plain]
    show eval _ (.slice (v.stack.root actor) _ _) = _
    rw [Engine.eval_slice (IndexedVar.eval_store known inside) start (eval_top plain known inside),
      Location.slice_eq]
    exact congrArg Except.ok (Location.slice_all_but_last _ small)
  have action : v.popActions actor = [.set (v.stack.store actor) v.stack.slot none
      (.slice (v.stack.get actor) (.ofNat 0) (v.top actor))] := by
    rw [popActions, IndexedVar.set, plain]
    rfl
  rw [action, Host.acts_one]
  refine Host.write_none_iff.2 ⟨key, _, known, remaining, if_pos inside, ?_, rfl⟩
  rw [Value.items_array, List.length_dropLast]
  omega

/-- A write is done at a path that reaches an item. -/
theorem write_done {items : List Value} {top : Value} {extra : List Element} {path : List Nat}
    (whole : m.get key v.stack.slot = .array (items ++ [top]))
    (evaluates : eval (h.context m) value = .ok x)
    (points : List.Forall₂ (h.context m).Points extra path)
    (short : items.length < min Element.restCount h.config.maxArrayLength)
    (fits : top.Fits (min Element.restCount h.config.maxArrayLength) path) :
    h.acts m (v.set value actor extra) =
      some (m.put key v.stack.slot (.array (items ++ [top.replaceAt path x]))) := by
  have last : (items ++ [top]).length = items.length + 1 := by simp
  have small : items.length + 1 ≤ 2 ^ 53 := by
    have : Element.restCount ≤ 2 ^ 53 := by decide
    omega
  -- the index of the top is the length less one
  have first : (h.context m).Points (v.top actor) items.length := by
    refine ⟨_, eval_top plain known inside, false, ?_, nofun⟩
    rw [whole, Value.items_array, last]
    have := (Binary64.isWhole_ofNat small).sub (Binary64.isWhole_ofNat (by decide : 1 ≤ 2 ^ 53))
      (Nat.succ_pos _) small
    rwa [Nat.add_sub_cancel] at this
  have reaches : (m.get key v.stack.slot).Fits (min Element.restCount h.config.maxArrayLength)
      (items.length :: path) := by
    rw [whole]
    exact .inside (by simp) (by rw [last]; exact short) fits
  have points : List.Forall₂ (h.context m).Points (v.stack.path ++ v.top actor :: extra)
      (items.length :: path) := by
    rw [plain]
    exact .cons first points
  obtain ⟨a, one, done⟩ :=
    IndexedVar.set_at_path (by simp) known inside evaluates points reaches
  rw [set, one, Host.acts_one, done, whole, Value.replaceAt, Value.items_array,
    StackChange.modify_last]

end Writes

/-! ## One call -/

/-- Between two calls the slot has the items from before the first of them, and a stack on these. -/
structure Stacked (h : Host) (m₀ : Memory) (w : IndexedVar) (key : StoreKey) (stack : List Value)
    (m : Memory) (v : RecursiveVar) : Prop where
  same : v.stack = w
  height : v.openCount = stack.length
  items : (m.get key w.slot).items = (m₀.get key w.slot).items ++ stack
  whole : stack ≠ [] → m.get key w.slot = .array ((m₀.get key w.slot).items ++ stack)
  short : stack ≠ [] → (m₀.get key w.slot).items.length + stack.length ≤
    min Element.restCount h.config.maxArrayLength
  beside : m₀.SameBeside m key w.slot

namespace Stacked

variable {m₀ : Memory} {w : IndexedVar} {stack : List Value}

/-- Before any call the array is what it was. -/
theorem start (h : Host) (m₀ : Memory) (w : IndexedVar) (key : StoreKey) :
    Stacked h m₀ w key [] m₀ ⟨w, 0⟩ :=
  ⟨rfl, rfl, (List.append_nil _).symm, fun some' => absurd rfl some', fun some' => absurd rfl some',
    fun _ _ _ => rfl⟩

/-- Behind every call that writes there is an array in the slot. -/
theorem of_array (same : v.stack = w) (height : v.openCount = stack.length)
    (there : m.get key w.slot = .array ((m₀.get key w.slot).items ++ stack))
    (short : (m₀.get key w.slot).items.length + stack.length ≤
      min Element.restCount h.config.maxArrayLength)
    (beside : m₀.SameBeside m key w.slot) : Stacked h m₀ w key stack m v :=
  ⟨same, height, by rw [there]; rfl, fun _ => there, fun _ => short, beside⟩

section Calls

variable (plain : w.path = [])
  (known : Engine.storeKey (h.context m₀) (w.store actor) = .ok key)
  (fixed : ∀ who ∈ actor, (h.context m₀).Ignores key w.slot who)
  (inside : w.slot < (h.context m₀).capacity key)

include known fixed in
/-- The store is the same one all the time. -/
theorem storeKey (stacked : Stacked h m₀ w key stack m v) :
    Engine.storeKey (h.context m) (v.stack.store actor) = .ok key := by
  rw [stacked.same]
  exact IndexedVar.store_kept known stacked.beside fixed

include plain known fixed inside

/-- Entering puts one value on top. -/
theorem entered (stacked : Stacked h m₀ w key stack m v)
    (evaluates : eval (h.context m) value = .ok x)
    (room : (m₀.get key w.slot).items.length + stack.length <
      min Element.restCount h.config.maxArrayLength) :
    ∃ m', h.acts m (v.enter value actor).1 = some m' ∧
      Stacked h m₀ w key (stack ++ [x]) m' (v.enter value actor).2 := by
  have known' := stacked.storeKey known fixed
  have long : Element.restCount ≤ 2 ^ 53 := by decide
  obtain ⟨rfl, height, items, -, -, beside⟩ := stacked
  -- the height that the push computes is that of the whole array
  have length : (m.get key v.stack.slot).items.length =
      (m₀.get key v.stack.slot).items.length + stack.length := by rw [items, List.length_append]
  refine ⟨_, push_done plain known' inside evaluates (by omega) (by omega),
    of_array rfl ?_ ?_ ?_ ?_⟩
  · rw [List.length_append, ← height]
    rfl
  · rw [Memory.get_put, if_pos ⟨rfl, rfl⟩, items, List.append_assoc]
  · rw [List.length_append, List.length_singleton]
    omega
  · exact beside.put _

/-- Leaving takes the top away again. -/
theorem exited (stacked : Stacked h m₀ w key stack m v) :
    ∃ m', h.acts m (v.call actor .exit).1 = some m' ∧
      Stacked h m₀ w key stack.dropLast m' (v.call actor .exit).2 := by
  have known' := stacked.storeKey known fixed
  have long : Element.restCount ≤ 2 ^ 53 := by decide
  rcases List.eq_nil_or_concat' stack with rfl | ⟨below, top, rfl⟩
  · -- nothing is open, so the exit fails
    have fails : v.call actor .exit = ([], v) := by
      rw [RecursiveVar.call, exit, stacked.height]
      rfl
    rw [fails]
    exact ⟨m, rfl, stacked⟩
  · obtain ⟨rfl, height, items, -, short, beside⟩ := stacked
    have pops : v.call actor .exit = (v.popActions actor,
      { v with openCount := below.length }) := by
      rw [RecursiveVar.call, exit, height, List.length_append]
      rfl
    have short := short (by simp)
    rw [List.length_append, List.length_singleton] at short
    -- the array ends in the items of this stack, so it is not empty
    have length : (m.get key v.stack.slot).items.length =
        (m₀.get key v.stack.slot).items.length + (below.length + 1) := by
      rw [items, List.length_append, List.length_append, List.length_singleton]
    rw [pops, List.dropLast_concat]
    refine ⟨_, pop_done plain known' inside (by omega) (by omega),
      of_array rfl rfl ?_ (by omega) (beside.set _)⟩
    rw [Memory.get_set, if_pos ⟨rfl, rfl⟩, items, ← List.append_assoc, List.dropLast_concat]

/-- Writing changes the top. -/
theorem written {below : List Value} {top : Value} {extra : List Element} {path : List Nat}
    (stacked : Stacked h m₀ w key (below ++ [top]) m v)
    (evaluates : eval (h.context m) value = .ok x)
    (points : List.Forall₂ (h.context m).Points extra path)
    (reaches : top.Fits (min Element.restCount h.config.maxArrayLength) path) :
    ∃ m', h.acts m (v.set value actor extra) = some m' ∧
      Stacked h m₀ w key (below ++ [top.replaceAt path x]) m' v := by
  have known' := stacked.storeKey known fixed
  obtain ⟨rfl, height, items, whole, short, beside⟩ := stacked
  have there := whole (by simp)
  have short := short (by simp)
  -- the top is written in the array of all items, where it is the last one
  rw [← List.append_assoc] at there
  rw [List.length_append, List.length_singleton] at short height
  refine ⟨_, write_done plain known' inside there evaluates points ?_ reaches,
    of_array rfl ?_ ?_ ?_ (beside.put _)⟩
  · rw [List.length_append]
    omega
  · rw [List.length_append, List.length_singleton, height]
  · rw [Memory.get_put, if_pos ⟨rfl, rfl⟩, List.append_assoc]
  · rw [List.length_append, List.length_singleton]
    exact short

/-- A call that has a meaning where it is executed is executed, and does what it means. One that
fails is an exit of the empty stack. -/
theorem call (stacked : Stacked h m₀ w key stack m v) {call : StackCall} {change : StackChange}
    (means : call.Means (h.context m) change)
    (fits : change.Fits (min Element.restCount h.config.maxArrayLength)
      (m₀.get key w.slot).items.length stack) :
    ∃ m', h.acts m (v.call actor call).1 = some m' ∧
      Stacked h m₀ w key (change.apply stack) m' (v.call actor call).2 := by
  cases means with
  | enter evaluates => exact stacked.entered plain known fixed inside evaluates fits
  | exit => exact stacked.exited plain known fixed inside
  | @set value extra x path evaluates points =>
    obtain ⟨top, last, reaches⟩ : ∃ top, stack.getLast? = some top ∧
      top.Fits (min Element.restCount h.config.maxArrayLength) path := fits
    obtain ⟨below, rfl⟩ := List.getLast?_eq_some_iff.1 last
    rw [StackChange.apply_write]
    exact stacked.written plain known fixed inside evaluates points reaches

end Calls

end Stacked

/-! ## All calls -/

/-- Calls that can be made one after another, each with what it means where it is executed. -/
inductive Playable (h : Host) (m₀ : Memory) (v : RecursiveVar) (actor : Option Element)
    (base : Nat) :
    List (StackCall × StackChange) → Prop
  | nil : Playable h m₀ v actor base []
  | concat {before : List (StackCall × StackChange)} {call : StackCall} {change : StackChange} :
      Playable h m₀ v actor base before →
      (∀ m, h.acts m₀ (v.calls actor (before.map Prod.fst)).1 = some m →
        call.Means (h.context m) change) →
      change.Fits (min 9999 h.config.maxArrayLength) base
        (StackChange.result (before.map Prod.snd)) →
      Playable h m₀ v actor base (before ++ [(call, change)])

variable {m₀ : Memory} {base : Nat} {script before after : List (StackCall × StackChange)}

/-- The first of calls that can be played can be played. -/
theorem Playable.of_append (playable : Playable h m₀ v actor base (before ++ after)) :
    Playable h m₀ v actor base before := by
  induction after using List.reverseRecOn with
  | nil => rwa [List.append_nil] at playable
  | append_singleton after last ih =>
    rw [← List.append_assoc] at playable
    generalize e : before ++ after ++ [last] = whole at playable
    cases playable with
    | nil => simp at e
    | concat playable =>
      obtain ⟨rfl, -⟩ := List.append_inj' e rfl
      exact ih playable

/-- The calls are executed, and the stack is in the slot behind them. -/
theorem stacked {w : IndexedVar} (plain : w.path = [])
    (known : Engine.storeKey (h.context m₀) (w.store actor) = .ok key)
    (fixed : ∀ who ∈ actor, (h.context m₀).Ignores key w.slot who)
    (inside : w.slot < (h.context m₀).capacity key)
    (playable : Playable h m₀ ⟨w, 0⟩ actor (m₀.get key w.slot).items.length script) :
    ∃ m, h.acts m₀ (calls ⟨w, 0⟩ actor (script.map Prod.fst)).1 = some m ∧
      Stacked h m₀ w key (StackChange.result (script.map Prod.snd)) m
        (calls ⟨w, 0⟩ actor (script.map Prod.fst)).2 := by
  induction playable with
  | nil => exact ⟨m₀, rfl, .start h m₀ w key⟩
  | @concat before call change _ means fits ih =>
    obtain ⟨m, done, stacked⟩ := ih
    obtain ⟨m', one, stacked⟩ := stacked.call plain known fixed inside (means m done) fits
    rw [List.map_append, List.map_append, List.map_singleton, List.map_singleton, calls_concat,
      StackChange.result_concat]
    refine ⟨m', ?_, stacked⟩
    rw [Host.acts_append_eq, done]
    exact one

/-- What there is behind calls that emitted some actions: a stack in the slot, on what was there
before them. -/
structure IsStack (e : Engine) (runner : Int64) (key : StoreKey) (slot : UInt32)
    (actor : Option Element) (actions : List Action) (v : RecursiveVar) (stack : List Value) :
    Prop where
  executed : ∃ m, Host.acts ⟨e.config, runner⟩ e.memory actions = some m ∧
    (actions.length < Engine.fuel e.config → e.runList (.ofList actions) runner =
      some (.ok .completed, ⟨e.config, m, runner, actions.length⟩)) ∧
    (m.get key slot).items = (e.memory.get key slot).items ++ stack ∧
    e.memory.SameBeside m key slot ∧
    eval { e.seenBy runner with memory := m } (v.get actor) =
      .ok (((e.memory.get key slot).items ++ stack).getLastD .neutral)
  height : v.openCount = stack.length
  fails : (∃ err, v.exit actor = .error err) ↔ stack = []
  /-- An exit that fails emits nothing and changes nothing. -/
  unchanged : stack = [] → v.call actor .exit = ([], v)

/-- What was called through is a stack over its start. -/
theorem Stacked.isStack {e : Engine} {runner : Int64} {w : IndexedVar} {stack : List Value}
    {actions : List Action} (plain : w.path = [])
    (known : Engine.storeKey (e.seenBy runner) (w.store actor) = .ok key)
    (fixed : ∀ who ∈ actor, (e.seenBy runner).Ignores key w.slot who)
    (inside : w.slot < (e.seenBy runner).capacity key)
    (done : Host.acts ⟨e.config, runner⟩ e.memory actions = some m)
    (stacked : Stacked ⟨e.config, runner⟩ e.memory w key stack m v) :
    IsStack e runner key w.slot actor actions v stack := by
  have known' := Stacked.storeKey (h := ⟨e.config, runner⟩) known fixed stacked
  obtain ⟨rfl, height, items, -, -, beside⟩ := stacked
  have get := eval_get plain known' inside
  -- what is read is the last of all items, which need not be one of the stack
  rw [items] at get
  refine ⟨⟨m, done, fun enough => runList_of_acts enough done, items, beside, get⟩, height, ?_,
    fun nothing => ?_⟩
  · rw [← List.length_eq_zero_iff, ← height, exit]
    cases v.openCount with
    | zero => exact ⟨fun _ => rfl, fun _ => ⟨_, rfl⟩⟩
    | succ n => exact ⟨fun ⟨_, e⟩ => (by cases e), nofun⟩
  · rw [nothing] at height
    rw [RecursiveVar.call, exit, height]
    rfl

/-- A recursive variable is a stack. Calls that can be made one after another are executed, and
behind each of them there is in the slot what was there at the start and then the stack that the
calls mean. The last one of these items is read. An exit fails where that stack is empty. -/
theorem calls_stack (e : Engine) (runner : Int64) (name : String) (pool : Pool) (slot : UInt32)
    (actor : Option Element)
    (known : Engine.storeKey (e.seenBy runner) ((new name pool slot).stack.store actor) = .ok key)
    (fixed : ∀ who ∈ actor, (e.seenBy runner).Ignores key slot who)
    (inside : slot < (e.seenBy runner).capacity key) (script : List (StackCall × StackChange))
    (playable : Playable ⟨e.config, runner⟩ e.memory (new name pool slot) actor
      (e.memory.get key slot).items.length script) :
    ∀ before, before <+: script →
      IsStack e runner key slot actor ((new name pool slot).calls actor (before.map Prod.fst)).1
        ((new name pool slot).calls actor (before.map Prod.fst)).2
        (StackChange.result (before.map Prod.snd)) := by
  rintro before ⟨after, rfl⟩
  obtain ⟨m, done, stacked⟩ :=
    stacked (h := ⟨e.config, runner⟩) (w := (new name pool slot).stack) rfl
    known fixed inside playable.of_append
  exact stacked.isStack (w := (new name pool slot).stack) rfl known fixed inside done

/-- An actor has an array of one item in a slot, and another slot tells which actor that is. -/
def filled : Engine :=
  { Engine.new .default with memory :=
      (Memory.empty.set .global 5 (.number (.ofNat 2))).set (.actor 2) 3 (.array [.bool true]) }

/-- A stack in the slot of the actor. -/
def pile : RecursiveVar := new "pile" .actor 3

def teller : Element := .variable .global 5

/-- An array is pushed and written inside, and a copy of it is pushed. -/
def copied : List (StackCall × StackChange) :=
  [] ++ [(.enter (.array [.eventPlayer, .bool false]),
    .push (.array [.number (.ofInt 1), .bool false]))] ++
    [(.set (.bool true) [.ofNat 1], .write [1] (.bool true))] ++
    [(.enter (pile.get (some teller)), .push (.array [.number (.ofInt 1), .bool true]))]

/-- There is one exit too much. -/
def played : List (StackCall × StackChange) :=
  copied ++ [(.exit, .pop)] ++ [(.exit, .pop)] ++ [(.exit, .pop)]

/-- A run with another actor's stack that is entered, written and left. -/
theorem calls_stack_played :
    IsStack filled 1 (.actor 2) 3 (some teller)
        (pile.calls (some teller) (copied.map Prod.fst)).1
        (pile.calls (some teller) (copied.map Prod.fst)).2
        [.array [.number (.ofInt 1), .bool true], .array [.number (.ofInt 1), .bool true]] ∧
      IsStack filled 1 (.actor 2) 3 (some teller)
        (pile.calls (some teller) (played.map Prod.fst)).1
        (pile.calls (some teller) (played.map Prod.fst)).2 [] := by
  have known : Engine.storeKey (filled.seenBy 1) (pile.stack.store (some teller)) =
    .ok (.actor 2) := rfl
  -- who is told is read from another slot than that of the stack
  have fixed : ∀ who ∈ some teller, (filled.seenBy 1).Ignores (.actor 2) 3 who := by
    rintro _ ⟨⟩ m beside
    have same : m.get .global 5 = filled.memory.get .global 5 := beside .global 5 (by simp)
    show Except.ok (m.get .global 5) = Except.ok (filled.memory.get .global 5)
    rw [same]
  -- each call is possible behind the ones before it
  have start : Playable ⟨filled.config, 1⟩ filled.memory pile (some teller) 1 copied := by
    refine .concat (.concat (.concat .nil (fun m _ => .enter rfl) (show 1 + 0 < 1000 by decide))
      (fun m _ => ?_) ?_) (fun m done => .enter ?_) (show 1 + 1 < 1000 by decide)
    · exact .set rfl (.cons ⟨_, rfl, false, Binary64.isWhole_ofNat (by decide), nofun⟩ .nil)
    · exact ⟨_, rfl, .inside rfl (by decide) (.here _)⟩
    · obtain rfl := Option.some.inj (done.symm.trans rfl)
      rfl
  have whole : Playable ⟨filled.config, 1⟩ filled.memory pile (some teller) 1 played :=
    .concat (.concat (.concat start (fun _ _ => .exit) trivial) (fun _ _ => .exit) trivial)
      (fun _ _ => .exit) trivial
  have all :=
    calls_stack filled 1 "pile" .actor 3 (some teller) known fixed (by decide) played whole
  exact ⟨all copied ⟨_, by rw [played, List.append_assoc, List.append_assoc]⟩,
    all played (List.prefix_refl _)⟩

end RecursiveVar

end SkipCode
