import SkipCode.Action.Basic
import SkipCode.Element.Json

/-!
# Actions as JSON
-/

namespace SkipCode.Action

def ofJson? (j : Json) : Option Action := do
  match ← j.variant? with
  | ("SetVariable", some content) =>
    let fields ← content.fields? ["store", "slot", "index", "value"]
    return .set (← fields.required "store" Store.ofJson?) (← fields.required "slot" Json.uint32?)
      (← fields.optional "index" Element.ofJson?) (← fields.required "value" Element.ofJson?)
  | ("SkipIf", some content) =>
    let fields ← content.fields? ["condition", "count"]
    return .skipIf (← fields.required "condition" Element.ofJson?)
      (← fields.optional "count" Json.int32?)
  | ("Skip", some content) =>
    let fields ← content.fields? ["count"]
    return .skip (← fields.optional "count" Json.int32?)
  | ("Abort", content) => (Json.noContent content).map fun _ => .abort
  | _ => none

end SkipCode.Action
