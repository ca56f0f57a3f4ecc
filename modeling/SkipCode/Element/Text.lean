import SkipCode.Element.Basic
import SkipCode.Binary64.Text

/-!
# Elements as text

`Element.toText` is the form of listings. `Element.toDetailedText` names every constructor and
field, for messages about an action that stands in a place where it must not.
-/

namespace SkipCode

mutual

/-- An element as listings show it. -/
def Element.toText : Element → String
  | .number x => x.toText
  | .bool b => toString b
  | .array items => "[" ++ ", ".intercalate (Element.texts items) ++ "]"
  | .variable store slot => store.slotText slot
  | .itemAt array index => array.toText ++ "[" ++ index.toText ++ "]"
  | .countOf inner => "count(" ++ inner.toText ++ ")"
  | .lastOf inner => "last(" ++ inner.toText ++ ")"
  | .append array value => "append(" ++ array.toText ++ ", " ++ value.toText ++ ")"
  | .slice array start count =>
    "slice(" ++ array.toText ++ ", " ++ start.toText ++ ", " ++ count.toText ++ ")"
  | .indexOf array value => "index_of(" ++ array.toText ++ ", " ++ value.toText ++ ")"
  | .arithmetic op lhs rhs => "(" ++ lhs.toText ++ " " ++ op.symbol ++ " " ++ rhs.toText ++ ")"
  | .compare lhs op rhs => "(" ++ lhs.toText ++ " " ++ op.symbol ++ " " ++ rhs.toText ++ ")"
  | .and lhs rhs => "(" ++ lhs.toText ++ " && " ++ rhs.toText ++ ")"
  | .or lhs rhs => "(" ++ lhs.toText ++ " || " ++ rhs.toText ++ ")"
  | .not inner => "!" ++ inner.toText
  | .eventPlayer => "event_player"

def Element.texts : List Element → List String
  | [] => []
  | item :: rest => item.toText :: Element.texts rest

/-- A slot of a store: `g` for the shared one, `a` for the one of the actor that runs the unit,
and the actor in front for any other. -/
def Store.slotText : Store → UInt32 → String
  | .global, slot => s!"g{slot}"
  | .actor .eventPlayer, slot => s!"a{slot}"
  | .actor who, slot => s!"{who.toText}.a{slot}"

end

/-- The text of a named field of a record. -/
def fieldText (name value : String) : String := name ++ ": " ++ value

/-- A record with its name and its fields. -/
def recordText (name : String) (fields : List String) : String :=
  name ++ " \x7b " ++ ", ".intercalate fields ++ " \x7d"

/-- A constructor applied to its arguments. -/
def applicationText (name : String) (arguments : List String) : String :=
  name ++ "(" ++ ", ".intercalate arguments ++ ")"

def ArithmeticOp.name : ArithmeticOp → String
  | add => "Add"
  | subtract => "Subtract"
  | multiply => "Multiply"
  | divide => "Divide"
  | modulo => "Modulo"

def Comparison.name : Comparison → String
  | equal => "Equal"
  | notEqual => "NotEqual"
  | less => "Less"
  | lessEqual => "LessEqual"
  | greater => "Greater"
  | greaterEqual => "GreaterEqual"

mutual

/-- An element with every constructor and field named. -/
def Element.toDetailedText : Element → String
  | .number x => applicationText "Number" [x.toDetailedText]
  | .bool b => applicationText "Bool" [toString b]
  | .array items =>
    applicationText "Array" ["[" ++ ", ".intercalate (Element.detailedTexts items) ++ "]"]
  | .variable store slot =>
    recordText "Variable" [fieldText "store" store.toDetailedText, fieldText "slot" (toString slot)]
  | .itemAt array index =>
    recordText "ValueInArray"
      [fieldText "array" array.toDetailedText, fieldText "index" index.toDetailedText]
  | .countOf inner => applicationText "CountOf" [inner.toDetailedText]
  | .lastOf inner => applicationText "LastOf" [inner.toDetailedText]
  | .append array value =>
    recordText "Append"
      [fieldText "array" array.toDetailedText, fieldText "value" value.toDetailedText]
  | .slice array start count =>
    recordText "ArraySlice"
      [fieldText "array" array.toDetailedText, fieldText "start" start.toDetailedText,
        fieldText "count" count.toDetailedText]
  | .indexOf array value =>
    recordText "IndexOfArrayValue"
      [fieldText "array" array.toDetailedText, fieldText "value" value.toDetailedText]
  | .arithmetic op lhs rhs =>
    recordText "Arithmetic"
      [fieldText "op" op.name, fieldText "lhs" lhs.toDetailedText,
        fieldText "rhs" rhs.toDetailedText]
  | .compare lhs op rhs =>
    recordText "Compare"
      [fieldText "lhs" lhs.toDetailedText, fieldText "op" op.name,
        fieldText "rhs" rhs.toDetailedText]
  | .and lhs rhs => applicationText "And" [lhs.toDetailedText, rhs.toDetailedText]
  | .or lhs rhs => applicationText "Or" [lhs.toDetailedText, rhs.toDetailedText]
  | .not inner => applicationText "Not" [inner.toDetailedText]
  | .eventPlayer => "EventPlayer"

def Element.detailedTexts : List Element → List String
  | [] => []
  | item :: rest => item.toDetailedText :: Element.detailedTexts rest

def Store.toDetailedText : Store → String
  | .global => "Global"
  | .actor who => applicationText "Actor" [who.toDetailedText]

end

end SkipCode
