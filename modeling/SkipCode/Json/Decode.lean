import SkipCode.Json.Basic

/-!
# Taking documents apart

Small readers from which the readers of the tree, the configurations and the actions are built.
`none` means that a document does not fit.

* A record is an object, whose unknown members are passed over and whose known ones may not be
  repeated, or an array of its fields in order.
* A variant without content is a string, one with content an object with one member.
-/

namespace SkipCode.Json

mutual

/-- How deeply arrays and objects are nested in a document. -/
def depth : Json → Nat
  | .array items => depthItems items + 1
  | .object members => depthMembers members + 1
  | _ => 0

def depthItems : List Json → Nat
  | [] => 0
  | item :: rest => max (depth item) (depthItems rest)

def depthMembers : List (String × Json) → Nat
  | [] => 0
  | (_, value) :: rest => max (depth value) (depthMembers rest)

end

/-- A whole number below `bound`. -/
def below? (bound : Nat) : Json → Option Nat
  | .integer n => if 0 ≤ n ∧ n < bound then some n.toNat else none
  | _ => none

def uint32? (j : Json) : Option UInt32 := (below? (2 ^ 32) j).map UInt32.ofNat

/-- A count or a position: a whole number of at most 64 bits. -/
def count? (j : Json) : Option Nat := below? (2 ^ 64) j

def int32? : Json → Option Int32
  | .integer n => if -2 ^ 31 ≤ n ∧ n < 2 ^ 31 then some (Int32.ofInt n) else none
  | _ => none

def int64? : Json → Option Int64
  | .integer n => if -2 ^ 63 ≤ n ∧ n < 2 ^ 63 then some (Int64.ofInt n) else none
  | _ => none

/-- Any number, whole or not, as the nearest `Binary64`. -/
def number? : Json → Option Binary64
  | .integer n => some (.ofInt n)
  | .decimal x => some x
  | _ => none

def bool? : Json → Option Bool
  | .bool b => some b
  | _ => none

def string? : Json → Option String
  | .string s => some s
  | _ => none

def list? {α : Type} (item : Json → Option α) : Json → Option (List α)
  | .array items => items.mapM item
  | _ => none

def pair? {α β : Type} (first : Json → Option α) (second : Json → Option β) :
    Json → Option (α × β)
  | .array [a, b] => do return (← first a, ← second b)
  | _ => none

def triple? {α β γ : Type} (first : Json → Option α) (second : Json → Option β)
    (third : Json → Option γ) : Json → Option (α × β × γ)
  | .array [a, b, c] => do return (← first a, ← second b, ← third c)
  | _ => none

/-- A document that may be `null`. -/
def nullable? {α : Type} (value : Json → Option α) : Json → Option (Option α)
  | .null => some none
  | j => (value j).map some

/-- The fields of a record that were given. -/
abbrev Fields := List (String × Json)

/-- The fields of a record with these names, from an object or from an array. -/
def fields? (names : List String) : Json → Option Fields
  | .object members =>
    let known := members.filter fun (name, _) => names.contains name
    if (known.map Prod.fst).Nodup then some known else none
  | .array items => if items.length ≤ names.length then some (names.zip items) else none
  | _ => none

namespace Fields

/-- A field that has to be there. -/
def required {α : Type} (fields : Fields) (name : String) (value : Json → Option α) : Option α :=
  match fields.lookup name with
  | some j => value j
  | none => none

/-- A field that may be missing, but not `null`. -/
def withDefault {α : Type} (fields : Fields) (name : String) (value : Json → Option α)
    (default : α) : Option α :=
  match fields.lookup name with
  | some j => value j
  | none => some default

/-- A field that may be missing or `null`. -/
def optional {α : Type} (fields : Fields) (name : String) (value : Json → Option α) :
    Option (Option α) :=
  fields.withDefault name (nullable? value) none

end Fields

/-- The name and the content of a variant. -/
def variant? : Json → Option (String × Option Json)
  | .string name => some (name, none)
  | .object [(name, content)] => some (name, some content)
  | _ => none

/-- A variant without content; `null` is allowed in its place. -/
def noContent : Option Json → Option Unit
  | none => some ()
  | some .null => some ()
  | some _ => none

/-- One of several words. -/
def word? {α : Type} (table : List (String × α)) (j : Json) : Option α := do
  let (name, content) ← variant? j
  noContent content
  table.lookup name

/-- A list of documents. -/
def ofList {α : Type} (item : α → Json) (items : List α) : Json := .array (items.map item)

/-- `null` for nothing. -/
def ofOption {α : Type} (value : α → Json) : Option α → Json
  | none => .null
  | some a => value a

def ofNat (n : Nat) : Json := .integer n

/-- A variant with content. -/
def tagged (name : String) (content : Json) : Json := .object [(name, content)]

end SkipCode.Json
