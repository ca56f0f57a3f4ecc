import SkipCode.Lower.Unit

/-!
# Without the slots

The *blank* of something is what is left of it when its slots are forgotten: each is the placeholder
that stands for a slot there was none left for. What elements, variables, lists and blocks do never
depends on a slot, so all of it can be said of blanks: what is built of blanks is the blank of what
is built.
-/

namespace SkipCode

/-- What is left of something when its slots are forgotten. -/
class Blank (α : Type) where
  blank : α → α

export Blank (blank)

/-! ## What has slots -/

section

variable {α β : Type} [Blank α] [Blank β]

instance : Blank Unit := ⟨id⟩
instance : Blank Bool := ⟨id⟩
instance : Blank Nat := ⟨id⟩
instance : Blank String := ⟨id⟩
instance : Blank (Option α) := ⟨Option.map blank⟩
instance : Blank (List α) := ⟨List.map blank⟩
instance : Blank (α × β) := ⟨fun p => (blank p.1, blank p.2)⟩

/-- A slot is forgotten. -/
instance : Blank UInt32 := ⟨fun _ => placeholderSlot⟩

@[simp] theorem blank_none : blank (none : Option α) = none := rfl

@[simp] theorem blank_some (a : α) : blank (some a) = some (blank a) := rfl

@[simp] theorem blank_nil : blank ([] : List α) = [] := rfl

@[simp] theorem blank_cons (a : α) (l : List α) : blank (a :: l) = blank a :: blank l := rfl

/-- Blanking keeps lengths. -/
@[simp] theorem length_blank (l : List α) : (blank l).length = l.length := List.length_map _

/-- What is empty stays empty. -/
theorem isEmpty_blank (l : List α) : (blank l).isEmpty = l.isEmpty := by
  cases l <;> rfl

/-- What is in a list stays in order. -/
theorem blank_append (l m : List α) : blank (l ++ m) = blank l ++ blank m := List.map_append

theorem blank_flatMap {f f' : α → List β} (h : ∀ a, blank (f a) = f' (blank a)) (l : List α) :
    blank (l.flatMap f) = (blank l).flatMap f' := by
  induction l with
  | nil => rfl
  | cons a rest ih => rw [List.flatMap_cons, blank_append, h, ih, blank_cons, List.flatMap_cons]

/-- What belongs together stays together. -/
theorem blank_zip (l : List α) (m : List β) : blank (l.zip m) = (blank l).zip (blank m) :=
  List.zip_map.symm

/-- Positions have no slots. -/
theorem blank_positions (l : List Nat) : blank l = l := List.map_id l

/-- Nor have names. -/
theorem blank_names (l : List String) : blank l = l := List.map_id l

end

mutual

def Store.blanked : Store → Store
  | .global => .global
  | .actor who => .actor who.blanked

def Element.blanked : Element → Element
  | .number x => .number x
  | .bool b => .bool b
  | .eventPlayer => .eventPlayer
  | .array items => .array (Element.blankedAll items)
  | .variable store _ => .variable store.blanked placeholderSlot
  | .countOf inner => .countOf inner.blanked
  | .lastOf inner => .lastOf inner.blanked
  | .not inner => .not inner.blanked
  | .itemAt array index => .itemAt array.blanked index.blanked
  | .append array value => .append array.blanked value.blanked
  | .indexOf array value => .indexOf array.blanked value.blanked
  | .slice array start count => .slice array.blanked start.blanked count.blanked
  | .arithmetic op lhs rhs => .arithmetic op lhs.blanked rhs.blanked
  | .compare lhs op rhs => .compare lhs.blanked op rhs.blanked
  | .and lhs rhs => .and lhs.blanked rhs.blanked
  | .or lhs rhs => .or lhs.blanked rhs.blanked

def Element.blankedAll : List Element → List Element
  | [] => []
  | item :: rest => item.blanked :: Element.blankedAll rest

end

instance : Blank Store := ⟨Store.blanked⟩
instance : Blank Element := ⟨Element.blanked⟩

instance : Blank IndexedVar := ⟨fun v => { v with slot := placeholderSlot, path := blank v.path }⟩

instance : Blank RecursiveVar := ⟨fun v => { v with stack := blank v.stack }⟩

instance : Blank Variable where
  blank
    | .indexed v => .indexed (blank v)
    | .recursive v => .recursive (blank v)
    | .reference e => .reference (blank e)

instance : Blank Action where
  blank
    | .set store _ index value => .set (blank store) placeholderSlot (blank index) (blank value)
    | .skipIf condition count => .skipIf (blank condition) count
    | .skip count => .skip count
    | .abort => .abort

instance : Blank ActionList := ⟨fun l => ⟨l.actions.map blank⟩⟩

/-- Only a position that does not hold a skip is reported with what it holds. -/
instance : Blank LowerError where
  blank
    | ⟨.defect (.notASkip position action), span⟩ =>
      ⟨.defect (.notASkip position (blank action)), span⟩
    | e => e

instance {α : Type} [Blank α] : Blank (Except LowerError α) where
  blank
    | .ok a => .ok (blank a)
    | .error e => .error (blank e)

/-- Where an error points has no slots in it. -/
theorem LowerError.blank_withSpan (e : LowerError) (span : Source.Span) :
    blank (e.withSpan span) = (blank e).withSpan span := by
  obtain ⟨cause, _⟩ := e
  cases cause with
  | defect d => cases d <;> rfl
  | exhausted | unsupported => rfl

/-! ## Elements -/

namespace Element

/-- Blanking goes into the items of an array. -/
theorem blank_array (items : List Element) :
    blank (Element.array items) = .array (blank items) := by
  have all : Element.blankedAll items = blank items := by
    induction items with
    | nil => rfl
    | cons item rest ih =>
      rw [Element.blankedAll, ih]
      rfl
  exact congrArg Element.array all

/-- It goes under a negation, whose form does not depend on slots. -/
theorem blank_negate (e : Element) : blank e.negate = (blank e).negate := by
  cases e <;> rfl

/-- The element of an operator is built without a look at slots. -/
theorem blank_binary (op : Source.BinaryOp) (lhs rhs : Element) :
    blank (Element.binary op lhs rhs) = .binary op (blank lhs) (blank rhs) := by
  cases op <;> rfl

end Element

/-! ## Variables -/

namespace IndexedVar

/-- The path to a position has the same form over other slots. -/
theorem blank_descend (array : Element) (path : List Element) :
    blank (descend array path) = descend (blank array) (blank path) := by
  induction path generalizing array with
  | nil => rfl
  | cons index rest ih => exact ih (.itemAt array index)

variable (v : IndexedVar) (actor : Option Element)

theorem blank_store : blank (v.store actor) = (blank v).store (blank actor) := by
  obtain ⟨name, pool, slot, path⟩ := v
  cases pool <;> cases actor <;> rfl

theorem blank_root : blank (v.root actor) = (blank v).root (blank actor) :=
  congrArg (Element.variable · placeholderSlot) (blank_store v actor)

/-- Reading a variable has the same form over other slots. -/
theorem blank_get : blank (v.get actor) = (blank v).get (blank actor) := by
  rw [get, blank_descend, blank_root]
  rfl

/-- So has putting a value in its place. -/
theorem blank_rebuild (array value : Element) (path : List Element) :
    blank (rebuild array value path) = rebuild (blank array) (blank value) (blank path) := by
  induction path generalizing array with
  | nil => rfl
  | cons index rest ih =>
    rw [rebuild, blank_cons, rebuild]
    exact congrArg (Element.splice (blank array) (blank index)) (ih (.itemAt array index))

/-- So has writing a variable. -/
theorem blank_set (value : Element) (extra : List Element) :
    blank (v.set value actor extra) = (blank v).set (blank value) (blank actor) (blank extra) := by
  have path : blank (v.path ++ extra) = (blank v).path ++ blank extra := blank_append _ _
  rw [set, set, ← path, ← blank_store, ← blank_root]
  cases v.path ++ extra with
  | nil => rfl
  | cons first rest =>
    have inner := blank_rebuild (.itemAt (v.root actor) first) value rest
    exact congrArg
      (fun e => [Action.set (blank (v.store actor)) placeholderSlot (some (blank first)) e]) inner

end IndexedVar

namespace RecursiveVar

variable (v : RecursiveVar) (actor : Option Element)

theorem blank_height : blank (v.height actor) = (blank v).height (blank actor) :=
  congrArg Element.countOf (v.stack.blank_get actor)

theorem blank_top : blank (v.top actor) = (blank v).top (blank actor) :=
  congrArg (Element.subtract · (.ofNat 1)) (blank_height v actor)

theorem blank_get : blank (v.get actor) = (blank v).get (blank actor) :=
  congrArg Element.lastOf (v.stack.blank_get actor)

/-- Writing the top of a stack has the same form over other slots. -/
theorem blank_set (value : Element) (extra : List Element) :
    blank (v.set value actor extra) = (blank v).set (blank value) (blank actor) (blank extra) := by
  rw [set, IndexedVar.blank_set, blank_cons, blank_top]
  rfl

theorem blank_pushActions (initial : Element) :
    blank (v.pushActions initial actor) = (blank v).pushActions (blank initial) (blank actor) := by
  rw [pushActions, IndexedVar.blank_set, blank_cons, blank_height]
  rfl

/-- So has pushing on a stack. -/
theorem blank_enter (initial : Element) :
    blank (v.enter initial actor) = (blank v).enter (blank initial) (blank actor) :=
  congrArg (·, _) (blank_pushActions v actor initial)

theorem blank_popActions : blank (v.popActions actor) = (blank v).popActions (blank actor) := by
  have value : blank (Element.slice (v.stack.get actor) (.ofNat 0) (v.top actor)) =
      .slice ((blank v.stack).get (blank actor)) (.ofNat 0) ((blank v).top (blank actor)) := by
    rw [← IndexedVar.blank_get, ← blank_top]
    rfl
  rw [popActions, IndexedVar.blank_set, value]
  rfl

/-- So has popping it. -/
theorem blank_exit : blank (v.exit actor) = (blank v).exit (blank actor) := by
  obtain ⟨stack, openCount⟩ := v
  cases openCount with
  | zero => rfl
  | succ n => exact congrArg (fun pops => Except.ok (pops, _)) (blank_popActions _ actor)

end RecursiveVar

namespace Variable

variable (v : Variable)

/-- Which pool a variable is in is no slot. -/
theorem pool?_blank : (blank v).pool? = v.pool? := by
  cases v <;> rfl

theorem blank_getFor (actor : Option Element) :
    blank (v.getFor actor) = (blank v).getFor (blank actor) := by
  cases v with
  | indexed v => exact v.blank_get actor
  | recursive v => exact v.blank_get actor
  | reference e => rfl

theorem blank_get : blank v.get = (blank v).get := v.blank_getFor none

/-- Writing a variable of any kind fails for the same variables. -/
theorem blank_setFor (name : String) (value : Element) (actor : Option Element)
    (extra : List Element) :
    blank (v.setFor name value actor extra) =
      (blank v).setFor name (blank value) (blank actor) (blank extra) := by
  cases v with
  | indexed v => exact congrArg Except.ok (v.blank_set actor value extra)
  | recursive v => exact congrArg Except.ok (v.blank_set actor value extra)
  | reference e => rfl

theorem blank_set (name : String) (value : Element) (extra : List Element) :
    blank (v.set name value extra) = (blank v).set name (blank value) (blank extra) :=
  v.blank_setFor name value none extra

end Variable

/-! ## Lists of actions -/

namespace Action

variable (a : Action)

/-- Which actions are skips does not depend on slots. -/
theorem skipCount?_blank : (blank a).skipCount? = a.skipCount? := by
  cases a <;> rfl

theorem blank_withCount (count : Int32) :
    blank (a.withCount count) = (blank a).withCount count := by
  cases a <;> rfl

/-- What is wrong with them does not either. -/
theorem flaw?_blank (ip len : Nat) : (blank a).flaw? ip len = a.flaw? ip len := by
  cases a <;> rfl

end Action

namespace ActionList

variable (l : ActionList)

@[simp] theorem length_blank : (blank l).length = l.length := Array.size_map

/-- The actions of a blanked list are the blanked actions. -/
@[simp] theorem toList_blank : (blank l).toList = blank l.toList := Array.toList_map

/-- Each action stays at its position. -/
theorem get?_blank (position : Nat) : (blank l).get? position = blank (l.get? position) :=
  Array.getElem?_map

theorem blank_push (a : Action) : blank (l.push a) = (blank l).push (blank a) :=
  congrArg ActionList.mk (Array.map_push ..)

theorem blank_extend (actions : List Action) :
    blank (l.extend actions) = (blank l).extend (blank actions) :=
  ext_toList (by rw [toList_blank, toList_extend, toList_extend, toList_blank, blank_append])

theorem blank_pushSkip (condition : Option Element) :
    blank (l.pushSkip condition) = (blank l).pushSkip (blank condition) := by
  rw [pushSkip, blank_push]
  cases condition <;> rfl

theorem blank_pushSkipTo (target : Nat) :
    blank (l.pushSkipTo target) = (blank l).pushSkipTo target := by
  rw [pushSkipTo, blank_push, pushSkipTo, length_blank]
  rfl

/-- The same positions wait, so the same are resolved. -/
theorem blank_resolve (position : Nat) (count : Int32) :
    blank (l.resolve position count) = (blank l).resolve position count := by
  rw [resolve, resolve, get?_blank]
  cases l.get? position with
  | none => rfl
  | some a =>
    have same : (blank a).skipCount? = a.skipCount? := a.skipCount?_blank
    simp only [blank_some, same]
    cases skip : a.skipCount? with
    | none => rfl
    | some known =>
      cases known with
      | some count => rfl
      | none =>
        have written : (l.actions.setIfInBounds position (a.withCount count)).map blank =
            (l.actions.map blank).setIfInBounds position ((blank a).withCount count) := by
          rw [Array.map_setIfInBounds, Action.blank_withCount]
        exact congrArg (fun actions => Except.ok (ActionList.mk actions)) written

theorem blank_resolveHere (position : Nat) :
    blank (l.resolveHere position) = (blank l).resolveHere position := by
  rw [resolveHere, blank_resolve, resolveHere, length_blank]

/-- So are several at once. -/
theorem blank_resolveAllHere (positions : List Nat) :
    blank (l.resolveAllHere positions) = (blank l).resolveAllHere positions := by
  induction positions generalizing l with
  | nil => rfl
  | cons position rest ih =>
    rw [resolveAllHere, resolveAllHere, List.foldlM_cons, List.foldlM_cons, ← blank_resolveHere]
    cases l.resolveHere position with
    | error e => rfl
    | ok m => exact ih m

/-- A list is fit to run or not whatever its slots are. -/
theorem check_blank : (blank l).check = l.check := by
  have from' (len : Nat) : ∀ (actions : List Action) (ip : Nat),
      checkFrom len ip (blank actions) = checkFrom len ip actions := by
    intro actions
    induction actions with
    | nil => exact fun _ => rfl
    | cons a rest ih =>
      intro ip
      rw [blank_cons, checkFrom, checkFrom, Action.flaw?_blank, ih]
  rw [check, check, toList_blank, length_blank, from']

end ActionList

/-! ## Blocks -/

instance : Blank IfBlock := ⟨id⟩
instance : Blank IfChain := ⟨id⟩

instance : Blank LoopKind where
  blank
    | .forEach array index => .forEach (blank array) (blank index)
    | kind => kind

instance : Blank LoopBlock := ⟨fun b => { b with kind := blank b.kind }⟩
instance : Blank Flow := ⟨fun flow => { flow with list := blank flow.list }⟩
instance : Blank LoopFrame := ⟨id⟩
instance : Blank LoopStack := ⟨id⟩

/-- Steps that go the same way on blanked parts do so together. -/
theorem blank_bind {α β : Type} [Blank α] [Blank β] {x x' : Except LowerError α}
    {f f' : α → Except LowerError β} (hx : blank x = x') (hf : ∀ a, blank (f a) = f' (blank a)) :
    blank (x >>= f) = x' >>= f' := by
  subst hx
  cases x with
  | error e => rfl
  | ok a => exact hf a

theorem blank_expectStage (actual expected : Stage) (step : String) :
    blank (expectStage actual expected step) = expectStage actual expected step := by
  unfold expectStage
  split <;> rfl

namespace IfBlock

variable (b : IfBlock) (list : ActionList)

/-- A branch is set up in the same way over other slots. -/
theorem blank_setup (condition : Element) :
    blank (b.setup condition list) = b.setup (blank condition) (blank list) := by
  refine blank_bind (blank_expectStage _ _ _) fun _ => ?_
  have pushed := list.blank_pushSkip (some condition.negate)
  rw [blank_some, Element.blank_negate] at pushed
  rw [ActionList.length_blank, ← pushed]
  rfl

/-- It is finished in the same way. -/
theorem blank_finish : blank (b.finish list) = b.finish (blank list) := by
  refine blank_bind (blank_expectStage _ _ _) fun _ => ?_
  cases b.exit with
  | none => rfl
  | some exit => exact blank_bind (list.blank_resolveHere exit) fun _ => rfl

end IfBlock

namespace IfChain

variable (c : IfChain) (list : ActionList)

/-- So is what skips from a branch to the end. -/
theorem blank_skipToEnd : blank (c.skipToEnd list) = c.skipToEnd (blank list) := by
  have pushed : blank (list.pushSkip none) = (blank list).pushSkip none := list.blank_pushSkip none
  rw [skipToEnd, skipToEnd, ActionList.length_blank, ← pushed]
  rfl

/-- The end of a chain is the same. -/
theorem blank_finish :
    blank (c.finish list) = c.finish (blank list) := list.blank_resolveAllHere c.ends

end IfChain

namespace LoopStack

variable (loops : LoopStack) (depth : UInt32) (floor : Nat)

/-- Loops are known by positions alone. -/
theorem blank_frame (exit : String) :
    blank (loops.frame depth floor exit) = loops.frame depth floor exit := by
  unfold frame
  split
  · split <;> rfl
  · rfl

/-- Their exits are positions, too. -/
theorem blank_addBreak (skip : Nat) :
    blank (loops.addBreak depth floor skip) = loops.addBreak depth floor skip :=
  blank_bind (blank_frame loops depth floor _) fun _ => rfl

theorem blank_addContinue (skip : Nat) :
    blank (loops.addContinue depth floor skip) = loops.addContinue depth floor skip :=
  blank_bind (blank_frame loops depth floor _) fun _ => rfl

end LoopStack

/-! ## Attempts -/

namespace Attempt

variable {σ α β γ : Type} [Blank σ] [Blank α] [Blank β]

/-- The second attempt does to the blank of a state what the first does to the state. -/
def Mirrors (m m' : Attempt σ α) : Prop :=
  ∀ s, run m' (blank s) = (blank (run m s).1, blank (run m s).2)

namespace Mirrors

theorem modify {f f' : σ → σ} (h : ∀ s, blank (f s) = f' (blank s)) :
    Mirrors (modify f : Attempt σ Unit) (modify f') :=
  fun s => congrArg (Except.ok (), ·) (h s).symm

theorem pure (a : α) : Mirrors (Pure.pure a : Attempt σ α) (Pure.pure (blank a)) := fun _ => rfl

theorem lift {x x' : Except LowerError α} (h : blank x = x') :
    Mirrors (liftM x : Attempt σ α) (liftM x') := by
  subst h
  intro s
  cases x <;> rfl

theorem throw {e e' : LowerError} (h : blank e = e') :
    Mirrors (MonadExcept.throw e : Attempt σ α) (MonadExcept.throw e') :=
  fun s => congrArg (Except.error ·, blank s) h.symm

/-- Steps that mirror each other do so together. -/
theorem bind {m m' : Attempt σ α} {f f' : α → Attempt σ β} (hm : Mirrors m m')
    (hf : ∀ a, Mirrors (f a) (f' (blank a))) : Mirrors (m >>= f) (m' >>= f') := by
  intro s
  rw [run_bind, run_bind, hm s]
  obtain ⟨r, t⟩ := run m s
  cases r with
  | error e => rfl
  | ok a => exact hf a t

/-- What looks at the state mirrors what looks at the blanked one. -/
theorem get {f f' : σ → Attempt σ β} (hf : ∀ s, Mirrors (f s) (f' (blank s))) :
    Mirrors (MonadState.get >>= f) (MonadState.get >>= f') := by
  intro s
  rw [run_bind, run_bind]
  exact hf s s

theorem set {s s' : σ} (h : blank s = s') :
    Mirrors (MonadStateOf.set s : Attempt σ Unit) (MonadStateOf.set s') :=
  fun _ => congrArg (Except.ok (), ·) h.symm

/-- So do rows of steps. -/
theorem forM {f f' : γ → Attempt σ Unit} (hf : ∀ a, Mirrors (f a) (f' a)) (l : List γ) :
    Mirrors (l.forM f) (l.forM f') := by
  induction l with
  | nil => exact .pure ()
  | cons a rest ih => exact .bind (hf a) fun _ => ih

/-- An attempt that is made before the others when a condition holds. -/
theorem first {c c' : Prop} [Decidable c] [Decidable c'] {m m' : Attempt σ Unit}
    {f f' : Unit → Attempt σ α} (same : c ↔ c') (hm : Mirrors m m') (hf : Mirrors (f ()) (f' ())) :
    Mirrors (if c then m >>= f else f ()) (if c' then m' >>= f' else f' ()) := by
  by_cases h : c
  · rw [if_pos h, if_pos (same.1 h)]
    exact .bind hm fun _ => hf
  · rw [if_neg h, if_neg fun h' => h (same.2 h')]
    exact hf

end Mirrors

end Attempt

namespace LoopBlock

open Attempt (Mirrors)

theorem mirrors_expect (expected : Stage) (step : String) :
    Mirrors (expect expected step) (expect expected step) :=
  .get fun _ => .lift (blank_expectStage _ _ _)

theorem mirrors_modifyList {f f' : ActionList → ActionList} (h : ∀ l, blank (f l) = f' (blank l)) :
    Mirrors (modifyList f) (modifyList f') :=
  .modify fun p : LoopBlock × Flow => congrArg (fun list => (blank p.1, { blank p.2 with list }))
    (h p.2.list)

theorem mirrors_modifyBlock {f f' : LoopBlock → LoopBlock} (h : ∀ b, blank (f b) = f' (blank b)) :
    Mirrors (modifyBlock f) (modifyBlock f') :=
  .modify fun p : LoopBlock × Flow => congrArg (·, blank p.2) (h p.1)

/-- The exits of a loop are resolved in the same way. -/
theorem mirrors_resolveAllHere (positions : List Nat) :
    Mirrors (resolveAllHere positions) (resolveAllHere positions) := by
  refine .forM (fun position => .get ?_) positions
  rintro ⟨b, flow⟩
  exact .bind (.lift (flow.list.blank_resolveHere position)) fun _ => .set rfl

theorem mirrors_setIndex {value value' : Element → Element}
    (h : ∀ e, blank (value e) = value' (blank e)) :
    Mirrors (setIndex value) (setIndex value') := by
  refine .get ?_
  rintro ⟨⟨kind, stage, start, exit, breaks⟩, flow⟩
  cases kind with
  | «while» | «for» => exact .pure ()
  | forEach array index =>
    have next : blank (value index.get) = value' (blank index).get := by rw [h, index.blank_get]
    refine .bind (.lift ?_) fun actions => mirrors_modifyList fun l => l.blank_extend actions
    rw [Variable.blank_set, next]
    rfl

/-- A loop is set up in the same way over other slots. -/
theorem mirrors_setup (scopeDepth : Nat) : Mirrors (setup scopeDepth) (setup scopeDepth) := by
  refine .bind (mirrors_expect _ _) fun _ => .bind (mirrors_setIndex fun _ => rfl) fun _ =>
    .modify ?_
  rintro ⟨b, flow⟩
  show _ = (_, _)
  rw [show (blank flow).list = blank flow.list from rfl, ActionList.length_blank]
  rfl

/-- Its exit condition is the same but for slots. -/
theorem blank_exitCondition (kind : LoopKind) (condition : Option Element) :
    blank (exitCondition kind condition) = exitCondition (blank kind) (blank condition) := by
  cases kind with
  | forEach array index =>
    cases condition with
    | none =>
      exact congrArg (fun e => Except.ok (Element.compare e .greaterEqual (.countOf (blank array))))
        index.blank_get
    | some _ => rfl
  | «while» | «for» =>
    cases condition with
    | none => rfl
    | some e => exact congrArg Except.ok e.blank_negate

/-- It gets its guard in the same way. -/
theorem mirrors_guard (condition : Option Element) :
    Mirrors (guard condition) (guard (blank condition)) := by
  refine .bind (mirrors_expect _ _) fun _ => .get ?_
  rintro ⟨b, flow⟩
  refine .bind (.lift (blank_exitCondition _ _)) fun exit => .modify ?_
  rintro ⟨b, flow⟩
  have pushed : blank (flow.list.pushSkip (some exit)) =
    (blank flow.list).pushSkip (some (blank exit)) :=
    flow.list.blank_pushSkip (some exit)
  show _ = (_, _)
  rw [show (blank flow).list = blank flow.list from rfl, ActionList.length_blank, ← pushed]
  rfl

/-- It gives up the same frame. -/
theorem mirrors_takeFrame : Mirrors takeFrame takeFrame := by
  refine .get ?_
  rintro ⟨b, flow⟩
  refine .bind (.lift (?_ : blank flow.loops.pop = _)) fun taken => .bind (.set rfl) fun _ =>
    .pure taken.1
  obtain ⟨list, ⟨frames⟩⟩ := flow
  cases frames <;> rfl

/-- It comes to its epilogue in the same way. -/
theorem mirrors_epilogue : Mirrors epilogue epilogue := by
  refine .bind (mirrors_expect _ _) fun _ => .bind mirrors_takeFrame fun frame => .get ?_
  rintro ⟨b, flow⟩
  exact .first .rfl (.throw rfl) (.bind (mirrors_resolveAllHere _) fun _ =>
    mirrors_modifyBlock fun _ => rfl)

/-- It is finished in the same way, with the same tail but for slots. -/
theorem mirrors_finish (tail : List Action) : Mirrors (finish tail) (finish (blank tail)) := by
  refine .get ?_
  rintro ⟨b, flow⟩
  refine .first .rfl mirrors_epilogue (.bind (mirrors_expect _ _) fun _ =>
    .bind (mirrors_setIndex fun _ => rfl)
    fun _ => .get ?_)
  rintro ⟨⟨kind, stage, start, exit, breaks⟩, flow⟩
  refine .bind (mirrors_modifyList fun l => l.blank_pushSkipTo start) fun _ => ?_
  cases exit with
  | none => exact .throw rfl
  | some exit =>
    exact .bind (mirrors_modifyBlock fun _ => rfl) fun _ =>
      .bind (mirrors_resolveAllHere [exit]) fun _ =>
      .bind (mirrors_modifyList fun l => l.blank_extend tail) fun _ =>
        .bind (mirrors_modifyBlock fun _ => rfl)
        fun _ => .bind (mirrors_resolveAllHere breaks) fun _ => mirrors_modifyBlock fun _ => rfl

end LoopBlock

end SkipCode
