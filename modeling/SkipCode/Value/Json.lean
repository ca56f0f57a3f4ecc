import SkipCode.Value
import SkipCode.Json.Decode

/-!
# Values as JSON

A value is a variant: `Number`, `Bool` or `Array`.
-/

namespace SkipCode.Value

/-- Reads a value nested at most `fuel` deep. -/
def read? : (fuel : Nat) → Json → Option Value
  | 0, _ => none
  | fuel + 1, j => do
    match ← j.variant? with
    | ("Number", some x) => number <$> x.number?
    | ("Bool", some b) => bool <$> b.bool?
    | ("Array", some items) => array <$> items.list? (read? fuel)
    | _ => none

def ofJson? (j : Json) : Option Value := read? (j.depth + 1) j

mutual

/-- A value as a bare document: a number, a boolean or an array of such documents. -/
def toPlainJson : Value → Json
  | .number x => .decimal x
  | .bool b => .bool b
  | .array items => .array (plainItems items)

def plainItems : List Value → List Json
  | [] => []
  | x :: xs => toPlainJson x :: plainItems xs

end

end SkipCode.Value
