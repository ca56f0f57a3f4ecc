import SkipCode.Binary64.Conversion

/-!
# JSON documents

A `Json` keeps whole numbers apart from decimals, because a field that counts something accepts
only the former, and keeps the members of an object as they were written, repeated names included,
because a reader decides what a repetition means. What a document passes over need not have a
value: it only has to be well formed.
-/

namespace SkipCode

inductive Json where
  | null
  | bool (b : Bool)
  /-- A number written without a fraction or an exponent, if it fits a word of 64 bits. -/
  | integer (n : Int)
  /-- Any other number. -/
  | decimal (x : Binary64)
  | string (s : String)
  | array (items : List Json)
  | object (members : List (String × Json))
  /-- What is well formed but has no value: a number out of range, a text with half of a surrogate
  pair, what is nested too deeply. It can be passed over but not read. -/
  | unreadable
deriving Inhabited, BEq, Repr

namespace Json

/-- Adds a member, in the place of an earlier one of the same name if there is one. -/
def putMember (name : String) (value : Json) : List (String × Json) → List (String × Json)
  | [] => [(name, value)]
  | (other, old) :: rest =>
    if other == name then (name, value) :: rest else (other, old) :: putMember name value rest

/-- Of members with one name the last one holds. -/
def lastOfEach (members : List (String × Json)) : List (String × Json) :=
  members.foldl (fun kept (name, value) => putMember name value kept) []

mutual

/-- The document with repeated members of its objects resolved: the last one holds. -/
def merged : Json → Json
  | .array items => .array (mergedItems items)
  | .object members => .object (lastOfEach (mergedMembers members))
  | other => other

def mergedItems : List Json → List Json
  | [] => []
  | item :: rest => merged item :: mergedItems rest

def mergedMembers : List (String × Json) → List (String × Json)
  | [] => []
  | (name, value) :: rest => (name, merged value) :: mergedMembers rest

end

mutual

/-- Whether everything in a document has a value. -/
def isReadable : Json → Bool
  | .unreadable => false
  | .array items => itemsReadable items
  | .object members => membersReadable members
  | _ => true

def itemsReadable : List Json → Bool
  | [] => true
  | item :: rest => isReadable item && itemsReadable rest

def membersReadable : List (String × Json) → Bool
  | [] => true
  | (_, value) :: rest => isReadable value && membersReadable rest

end

end Json

end SkipCode
