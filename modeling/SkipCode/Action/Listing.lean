import SkipCode.Action.List

/-!
# Listings

A listing has a line per action with its position. A position that some skip leads to is marked
and has a rule above it; the position behind the last action is shown only when it is one.
-/

namespace SkipCode.ActionList

/-- The position that the action at `ip` of a list of length `len` skips to. -/
def targetOf? (len ip : Nat) (a : Action) : Option Nat :=
  match a.skipCount? with
  | some (some count) => Action.skipTarget? ip count len
  | _ => none

/-- Which positions, from zero to the length of the list, are the target of a skip. -/
def targets (l : ActionList) : Array Bool :=
  let marks := Array.replicate (l.length + 1) false
  (l.toList.mapIdx (targetOf? l.length)).foldl
    (fun marks target => match target with
      | some t => marks.setIfInBounds t true
      | none => marks) marks

/-- The rule above a target. -/
def targetRule : String := "      ┌" ++ String.ofList (List.replicate 34 '─')

/-- The lines of one action. -/
def linesOf (len : Nat) (targets : Array Bool) (ip : Nat) (a : Action) : List String :=
  if targets.getD ip false then [targetRule, s!"{positionText ip} ► {a.toText ip len}"]
  else [s!"{positionText ip}   {a.toText ip len}"]

/-- The lines of a listing. -/
def lines (l : ActionList) : List String :=
  let targets := l.targets
  let last :=
    if targets.getD l.length false then [targetRule, s!"{positionText l.length} ► END"] else []
  (l.toList.mapIdx (linesOf l.length targets)).flatten ++ last

end SkipCode.ActionList
