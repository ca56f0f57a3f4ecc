import SkipCode.Action.Basic

/-!
# Actions as text

`Action.toText` is a line of a listing, `Action.toDetailedText` names every constructor and field.
-/

namespace SkipCode

/-- At least four digits. -/
def positionText (position : Nat) : String :=
  let digits := toString position
  String.ofList (List.replicate (4 - digits.length) '0') ++ digits

/-- A count with its sign. -/
def signedText (n : Int32) : String :=
  if 0 ≤ n.toInt then "+" ++ toString n.toInt else toString n.toInt

namespace Action

/-- The count of a skip with its direction and the place it leads to. -/
def skipText (count : Option Int32) (ip len : Nat) : String :=
  match count with
  | none => "?"
  | some count =>
    let direction := if count.toInt < 0 then "↑" else "↓"
    let target := match skipTarget? ip count len with
      | some target => positionText target
      | none => "out of range"
    signedText count ++ " " ++ direction ++ " (→ " ++ target ++ ")"

/-- The action at `ip` of a list of length `len`, as listings show it. -/
def toText (ip len : Nat) : Action → String
  | set store slot none value => s!"SET         {store.slotText slot} = {value.toText}"
  | set store slot (some index) value =>
    s!"SET         {store.slotText slot}[{index.toText}] = {value.toText}"
  | skipIf condition count => s!"SKIP_IF     {skipText count ip len} ; {condition.toText}"
  | skip count => s!"SKIP        {skipText count ip len}"
  | abort => "ABORT"

/-- What may be missing, in detail. -/
def optionText (text : Option String) : String :=
  match text with
  | some text => applicationText "Some" [text]
  | none => "None"

/-- The action with every constructor and field named. -/
def toDetailedText : Action → String
  | set store slot index value =>
    recordText "SetVariable"
      [fieldText "store" store.toDetailedText, fieldText "slot" (toString slot),
        fieldText "index" (optionText (index.map Element.toDetailedText)),
        fieldText "value" value.toDetailedText]
  | skipIf condition count =>
    recordText "SkipIf"
      [fieldText "condition" condition.toDetailedText,
        fieldText "count" (optionText (count.map fun n => toString n.toInt))]
  | skip count =>
    recordText "Skip" [fieldText "count" (optionText (count.map fun n => toString n.toInt))]
  | abort => "Abort"

end Action

end SkipCode
