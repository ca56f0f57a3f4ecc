import SkipCode.Lower.Error

/-!
# Action lists

The list of a unit grows at its end only. A skip over code that is not written yet is pushed
without a count and *resolved* once, when it is known where it has to lead. Positions are counted
from the front, so they stay valid while the list grows.
-/

namespace SkipCode

structure ActionList where
  actions : Array Action
deriving BEq, Repr, Inhabited

namespace ActionList

def empty : ActionList := ⟨#[]⟩

def ofList (actions : List Action) : ActionList := ⟨actions.toArray⟩

def toList (l : ActionList) : List Action := l.actions.toList

/-- The number of actions, which is the position that the next one gets. -/
def length (l : ActionList) : Nat := l.actions.size

def isEmpty (l : ActionList) : Bool := l.actions.isEmpty

def get? (l : ActionList) (position : Nat) : Option Action := l.actions[position]?

def push (l : ActionList) (a : Action) : ActionList := ⟨l.actions.push a⟩

def extend (l : ActionList) (actions : List Action) : ActionList :=
  actions.foldl push l

/-- The skip to push while its count is unknown; without a condition it always skips. -/
def pendingSkip : Option Element → Action
  | some condition => .skipIf condition none
  | none => .skip none

/-- Pushes a skip without a count. -/
def pushSkip (l : ActionList) (condition : Option Element) : ActionList :=
  l.push (pendingSkip condition)

/-- Pushes a skip to a known position. -/
def pushSkipTo (l : ActionList) (target : Nat) : ActionList :=
  l.push (.skip (some (Action.skipDistance l.length target)))

/-- Gives the skip at a position its count. That has to be a skip which has none. -/
def resolve (l : ActionList) (position : Nat) (count : Int32) : Except LowerError ActionList :=
  match l.get? position with
  | none => .error (.defect (.skipPastEnd position))
  | some action =>
    match action.skipCount? with
    | none => .error (.defect (.notASkip position action))
    | some (some known) => .error (.defect (.skipAlreadyResolved position known))
    | some none => .ok ⟨l.actions.setIfInBounds position (action.withCount count)⟩

/-- Lets the skip at a position lead to the end of the list as it is now. -/
def resolveHere (l : ActionList) (position : Nat) : Except LowerError ActionList :=
  l.resolve position (Action.skipDistance position l.length)

/-- The position of the first skip without a count. -/
def unresolved? (l : ActionList) : Option Nat := l.toList.findIdx? Action.isPending

/-- The number of elements of all actions. -/
def count (l : ActionList) : Nat := l.actions.foldl (fun n a => n + a.count) 0

/-! ## The view as a list -/

theorem ext_toList {l m : ActionList} (h : l.toList = m.toList) : l = m := by
  cases l
  cases m
  simp_all [toList]

@[simp] theorem toList_empty : empty.toList = [] := rfl

@[simp] theorem toList_ofList (actions : List Action) : (ofList actions).toList = actions := rfl

@[simp] theorem length_toList (l : ActionList) : l.toList.length = l.length := rfl

theorem get?_eq_toList (l : ActionList) (position : Nat) :
    l.get? position = l.toList[position]? := by
  simp [get?, toList]

@[simp] theorem toList_push (l : ActionList) (a : Action) :
    (l.push a).toList = l.toList ++ [a] := by
  simp [push, toList]

@[simp] theorem length_push (l : ActionList) (a : Action) : (l.push a).length = l.length + 1 := by
  simp [push, length]

@[simp] theorem toList_extend (l : ActionList) (actions : List Action) :
    (l.extend actions).toList = l.toList ++ actions := by
  induction actions generalizing l with
  | nil => simp [extend]
  | cons a rest ih =>
    have h : l.extend (a :: rest) = (l.push a).extend rest := rfl
    rw [h, ih, toList_push, List.append_assoc, List.singleton_append]

@[simp] theorem length_extend (l : ActionList) (actions : List Action) :
    (l.extend actions).length = l.length + actions.length := by
  rw [← length_toList, toList_extend, List.length_append, length_toList]

@[simp] theorem length_pushSkip (l : ActionList) (condition : Option Element) :
    (l.pushSkip condition).length = l.length + 1 := length_push ..

@[simp] theorem length_pushSkipTo (l : ActionList) (target : Nat) :
    (l.pushSkipTo target).length = l.length + 1 := length_push ..

/-- Resolving succeeds exactly on a skip without a count, and changes nothing but that skip. -/
theorem resolve_eq_ok_iff {l m : ActionList} {position : Nat} {count : Int32} :
    l.resolve position count = .ok m ↔
      ∃ a, l.get? position = some a ∧ a.isPending ∧
        m.toList = l.toList.set position (a.withCount count) := by
  unfold resolve
  constructor
  · intro h
    split at h
    · cases h
    · next a ha =>
      split at h
      · cases h
      · cases h
      · next hp =>
        cases h
        exact ⟨a, ha, by simp [Action.isPending, hp], by simp [toList]⟩
  · rintro ⟨a, ha, hp, hm⟩
    have hp' : a.skipCount? = some none := by simpa [Action.isPending] using hp
    rw [ha]
    simp only [hp']
    exact congrArg Except.ok (ext_toList (by simpa [toList] using hm.symm))

end ActionList

end SkipCode
