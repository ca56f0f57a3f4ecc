import SkipCode.Element.Text
import SkipCode.Json.Decode

/-!
# Elements as JSON

An element is a variant named after its constructor, `EventPlayer` a plain word.
-/

namespace SkipCode

def ArithmeticOp.table : List (String × ArithmeticOp) :=
  [.add, .subtract, .multiply, .divide, .modulo].map fun op => (op.name, op)

def Comparison.table : List (String × Comparison) :=
  [.equal, .notEqual, .less, .lessEqual, .greater, .greaterEqual].map fun op => (op.name, op)

def Comparison.ofJson? (j : Json) : Option Comparison := j.word? Comparison.table

/-- Reads a store, given how its actor is read. -/
def Store.read? (element : Json → Option Element) (j : Json) : Option Store := do
  match ← j.variant? with
  | ("Global", content) => (Json.noContent content).map fun _ => .global
  | ("Actor", some who) => .actor <$> element who
  | _ => none

namespace Element

/-- Reads an element nested at most `fuel` deep. -/
def read? : (fuel : Nat) → Json → Option Element
  | 0, _ => none
  | fuel + 1, j => do
    let element := read? fuel
    let two (names : List String) (first second : String) (build : Element → Element → Element)
        (content : Json) : Option Element := do
      let fields ← content.fields? names
      return build (← fields.required first element) (← fields.required second element)
    match ← j.variant? with
    | ("Number", some x) => number <$> x.number?
    | ("Bool", some b) => bool <$> b.bool?
    | ("Array", some items) => array <$> items.list? element
    | ("Variable", some content) =>
      let fields ← content.fields? ["store", "slot"]
      return .variable (← fields.required "store" (Store.read? element))
        (← fields.required "slot" Json.uint32?)
    | ("ValueInArray", some content) => two ["array", "index"] "array" "index" itemAt content
    | ("CountOf", some inner) => countOf <$> element inner
    | ("LastOf", some inner) => lastOf <$> element inner
    | ("Append", some content) => two ["array", "value"] "array" "value" append content
    | ("ArraySlice", some content) =>
      let fields ← content.fields? ["array", "start", "count"]
      return .slice (← fields.required "array" element) (← fields.required "start" element)
        (← fields.required "count" element)
    | ("IndexOfArrayValue", some content) =>
      two ["array", "value"] "array" "value" indexOf content
    | ("Arithmetic", some content) =>
      let fields ← content.fields? ["op", "lhs", "rhs"]
      return .arithmetic (← fields.required "op" (Json.word? ArithmeticOp.table))
        (← fields.required "lhs" element) (← fields.required "rhs" element)
    | ("Compare", some content) =>
      let fields ← content.fields? ["lhs", "op", "rhs"]
      return .compare (← fields.required "lhs" element)
        (← fields.required "op" Comparison.ofJson?) (← fields.required "rhs" element)
    | ("And", some content) => (content.pair? element element).map fun (l, r) => .and l r
    | ("Or", some content) => (content.pair? element element).map fun (l, r) => .or l r
    | ("Not", some inner) => not <$> element inner
    | ("EventPlayer", content) => (Json.noContent content).map fun _ => .eventPlayer
    | _ => none

def ofJson? (j : Json) : Option Element := read? (j.depth + 1) j

end Element

def Store.ofJson? (j : Json) : Option Store := Store.read? Element.ofJson? j

mutual

/-- An element as a document. -/
def Element.toJson : Element → Json
  | .number x => .tagged "Number" (.decimal x)
  | .bool b => .tagged "Bool" (.bool b)
  | .array items => .tagged "Array" (.array (Element.toJsons items))
  | .variable store slot =>
    .tagged "Variable" (.object [("store", store.toJson), ("slot", .ofNat slot.toNat)])
  | .itemAt array index =>
    .tagged "ValueInArray" (.object [("array", array.toJson), ("index", index.toJson)])
  | .countOf inner => .tagged "CountOf" inner.toJson
  | .lastOf inner => .tagged "LastOf" inner.toJson
  | .append array value =>
    .tagged "Append" (.object [("array", array.toJson), ("value", value.toJson)])
  | .slice array start count =>
    .tagged "ArraySlice"
      (.object [("array", array.toJson), ("start", start.toJson), ("count", count.toJson)])
  | .indexOf array value =>
    .tagged "IndexOfArrayValue" (.object [("array", array.toJson), ("value", value.toJson)])
  | .arithmetic op lhs rhs =>
    .tagged "Arithmetic"
      (.object [("op", .string op.name), ("lhs", lhs.toJson), ("rhs", rhs.toJson)])
  | .compare lhs op rhs =>
    .tagged "Compare"
      (.object [("lhs", lhs.toJson), ("op", .string op.name), ("rhs", rhs.toJson)])
  | .and lhs rhs => .tagged "And" (.array [lhs.toJson, rhs.toJson])
  | .or lhs rhs => .tagged "Or" (.array [lhs.toJson, rhs.toJson])
  | .not inner => .tagged "Not" inner.toJson
  | .eventPlayer => .string "EventPlayer"

def Element.toJsons : List Element → List Json
  | [] => []
  | item :: rest => item.toJson :: Element.toJsons rest

def Store.toJson : Store → Json
  | .global => .string "Global"
  | .actor who => .tagged "Actor" who.toJson

end

end SkipCode
