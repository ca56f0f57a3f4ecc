import SkipCode.Json.Basic

/-!
# Reading JSON text

`Json.parse?` accepts exactly one document with blanks around it, and refuses text that is not
JSON. A number too large for a `Binary64`, a text with half of a surrogate pair, and an array or
object nested deeper than allowed are well formed and are read as `Json.unreadable`, so they do no
harm in a place that is passed over.

The functions on values take fuel. Every call of a value reads at least one character, so twice
the length of the text is enough, and `parse?` supplies it. There is always more fuel left than
text, so what reads a character per step can take the same fuel. `pass?` keeps its own list of open
brackets, because nothing bounds the nesting of what it passes over.
-/

namespace SkipCode.Json

/-- The deepest nesting of arrays and objects that is read from a file. -/
def maxDepth : Nat := 127

namespace Reader

def isBlank (c : Char) : Bool := c == ' ' || c == '\n' || c == '\t' || c == '\r'

def skipBlanks (cs : List Char) : List Char := cs.dropWhile isBlank

/-- The number written by decimal digits. -/
def digitsValue (ds : List Char) : Nat :=
  ds.foldl (fun n d => 10 * n + (d.toNat - '0'.toNat)) 0

/-- Splits off the digits at the front; there has to be one. -/
def digits1? (cs : List Char) : Option (List Char × List Char) :=
  match cs.takeWhile Char.isDigit with
  | [] => none
  | ds => some (ds, cs.dropWhile Char.isDigit)

/-- The digits of a whole part: a zero stands alone. -/
def whole? (cs : List Char) : Option (List Char × List Char) :=
  match digits1? cs with
  | some ('0' :: _ :: _, _) => none
  | other => other

/-- The digits after a point, if there is one. -/
def fraction? : List Char → Option (Option (List Char) × List Char)
  | '.' :: cs => (digits1? cs).map fun (ds, rest) => (some ds, rest)
  | cs => some (none, cs)

/-- The exponent of ten, if there is one. -/
def exponent? : List Char → Option (Option Int × List Char)
  | c :: cs =>
    if c == 'e' || c == 'E' then
      let (negative, cs) := match cs with
        | '-' :: rest => (true, rest)
        | '+' :: rest => (false, rest)
        | rest => (false, rest)
      (digits1? cs).map fun (ds, rest) =>
        let n : Int := digitsValue ds
        (some (if negative then -n else n), rest)
    else some (none, c :: cs)
  | [] => some (none, [])

/-- A decimal, if it is in range. -/
def ofDecimal (x : Binary64) : Json := if x.isFinite then .decimal x else .unreadable

/-- A number without fraction and exponent is whole when it fits a word of 64 bits; the negative
zero is not a whole number. -/
def ofWhole (negative : Bool) (n : Nat) : Json :=
  if negative && n == 0 then .decimal (.zero true)
  else if negative && n ≤ 2 ^ 63 then .integer (-n)
  else if !negative && n < 2 ^ 64 then .integer n
  else ofDecimal (.ofDecimal negative n 0)

def number? (cs : List Char) : Option (Json × List Char) := do
  let (negative, cs) := match cs with
    | '-' :: rest => (true, rest)
    | rest => (false, rest)
  let (whole, cs) ← whole? cs
  let (fraction, cs) ← fraction? cs
  let (exponent, cs) ← exponent? cs
  match fraction, exponent with
  | none, none => return (ofWhole negative (digitsValue whole), cs)
  | _, _ =>
    let places := fraction.getD []
    let digits := digitsValue (whole ++ places)
    return (ofDecimal (.ofDecimal negative digits (exponent.getD 0 - places.length)), cs)

def hexDigit? (c : Char) : Option Nat :=
  if c.isDigit then some (c.toNat - '0'.toNat)
  else if 'a' ≤ c ∧ c ≤ 'f' then some (c.toNat - 'a'.toNat + 10)
  else if 'A' ≤ c ∧ c ≤ 'F' then some (c.toNat - 'A'.toNat + 10)
  else none

/-- Four hexadecimal digits. -/
def unit? : List Char → Option (Nat × List Char)
  | a :: b :: c :: d :: rest => do
    let digits ← [a, b, c, d].mapM hexDigit?
    return (digits.foldl (fun n k => 16 * n + k) 0, rest)
  | _ => none

def isHighSurrogate (unit : Nat) : Bool := 0xD800 ≤ unit && unit < 0xDC00

def isLowSurrogate (unit : Nat) : Bool := 0xDC00 ≤ unit && unit < 0xE000

/-- The character of one escaped unit or of a pair of surrogates. A surrogate without its other
half stands for no character. -/
def escapedUnit? (cs : List Char) : Option (Option Char × List Char) := do
  let (unit, rest) ← unit? cs
  if isHighSurrogate unit then
    match rest with
    | '\\' :: 'u' :: after =>
      let (low, after) ← unit? after
      if isLowSurrogate low then
        return (some (Char.ofNat (0x10000 + (unit - 0xD800) * 0x400 + (low - 0xDC00))), after)
      else return (none, rest)
    | _ => return (none, rest)
  else if isLowSurrogate unit then return (none, rest)
  else return (some (Char.ofNat unit), rest)

/-- What follows a backslash. -/
def escape? : List Char → Option (Option Char × List Char)
  | '"' :: rest => some (some '"', rest)
  | '\\' :: rest => some (some '\\', rest)
  | '/' :: rest => some (some '/', rest)
  | 'b' :: rest => some (some '\x08', rest)
  | 'f' :: rest => some (some '\x0c', rest)
  | 'n' :: rest => some (some '\n', rest)
  | 'r' :: rest => some (some '\r', rest)
  | 't' :: rest => some (some '\t', rest)
  | 'u' :: rest => escapedUnit? rest
  | _ => none

/-- The rest of a string after its opening quote; `read` holds its characters so far, last first,
unless one of them is none. -/
def string? : (fuel : Nat) → (read : Option (List Char)) → List Char →
    Option (Option String × List Char)
  | 0, _, _ => none
  | _ + 1, _, [] => none
  | _ + 1, read, '"' :: rest => some (read.map fun cs => String.ofList cs.reverse, rest)
  | fuel + 1, read, '\\' :: rest => do
    let (c, rest) ← escape? rest
    string? fuel (do return (← c) :: (← read)) rest
  | fuel + 1, read, c :: rest =>
    if c.toNat < 0x20 then none else string? fuel (read.map (c :: ·)) rest

def ofText : Option String → Json
  | some s => .string s
  | none => .unreadable

/-! ## Passing over -/

/-- A value without items: a word, a string or a number. -/
def scalar? (fuel : Nat) : List Char → Option (Json × List Char)
  | 'n' :: 'u' :: 'l' :: 'l' :: rest => some (.null, rest)
  | 't' :: 'r' :: 'u' :: 'e' :: rest => some (.bool true, rest)
  | 'f' :: 'a' :: 'l' :: 's' :: 'e' :: rest => some (.bool false, rest)
  | '"' :: rest => (string? fuel (some []) rest).map fun (s, rest) => (ofText s, rest)
  | rest => number? rest

/-- The name of a member and the colon behind it. -/
def name? (fuel : Nat) (cs : List Char) : Option (Option String × List Char) :=
  match skipBlanks cs with
  | '"' :: rest => do
    let (name, rest) ← string? fuel (some []) rest
    match skipBlanks rest with
    | ':' :: rest => return (name, rest)
    | _ => none
  | _ => none

inductive Bracket where
  | array | object

/-- Passes over what remains of the open brackets, innermost first: a value first when one is
`due`. -/
def pass? : (fuel : Nat) → (due : Bool) → List Bracket → List Char → Option (List Char)
  | 0, _, _, _ => none
  | fuel + 1, true, outer, cs =>
    match skipBlanks cs with
    | '[' :: rest =>
      match skipBlanks rest with
      | ']' :: rest => pass? fuel false outer rest
      | rest => pass? fuel true (.array :: outer) rest
    | '\x7b' :: rest =>
      match skipBlanks rest with
      | '\x7d' :: rest => pass? fuel false outer rest
      | rest =>
        match name? fuel rest with
        | some (_, rest) => pass? fuel true (.object :: outer) rest
        | none => none
    | rest =>
      match scalar? fuel rest with
      | some (_, rest) => pass? fuel false outer rest
      | none => none
  | _ + 1, false, [], cs => some cs
  | fuel + 1, false, .array :: outer, cs =>
    match skipBlanks cs with
    | ',' :: rest => pass? fuel true (.array :: outer) rest
    | ']' :: rest => pass? fuel false outer rest
    | _ => none
  | fuel + 1, false, .object :: outer, cs =>
    match skipBlanks cs with
    | ',' :: rest =>
      match name? fuel rest with
      | some (_, rest) => pass? fuel true (.object :: outer) rest
      | none => none
    | '\x7d' :: rest => pass? fuel false outer rest
    | _ => none

/-! ## Values -/

/-- An object, unless the name of a member has no value. -/
def ofMembers : Option (List (String × Json)) → Json
  | some members => .object members
  | none => .unreadable

mutual

/-- One document; `depth` more arrays and objects may be entered. -/
def value? : (fuel : Nat) → (depth : Nat) → List Char → Option (Json × List Char)
  | 0, _, _ => none
  | fuel + 1, depth, cs =>
    match depth, skipBlanks cs with
    | 0, '[' :: rest => (pass? fuel true [] ('[' :: rest)).map fun rest => (.unreadable, rest)
    | 0, '\x7b' :: rest =>
      (pass? fuel true [] ('\x7b' :: rest)).map fun rest => (.unreadable, rest)
    | depth + 1, '[' :: rest =>
      match skipBlanks rest with
      | ']' :: rest => some (.array [], rest)
      | rest => items? fuel depth [] rest
    | depth + 1, '\x7b' :: rest =>
      match skipBlanks rest with
      | '\x7d' :: rest => some (.object [], rest)
      | rest => members? fuel depth (some []) rest
    | _, rest => scalar? fuel rest

/-- The items of an array, of which there is at least one more; `read` holds those before, last
first. -/
def items? : (fuel : Nat) → (depth : Nat) → (read : List Json) → List Char →
    Option (Json × List Char)
  | 0, _, _, _ => none
  | fuel + 1, depth, read, cs => do
    let (item, rest) ← value? fuel depth cs
    match skipBlanks rest with
    | ',' :: rest => items? fuel depth (item :: read) rest
    | ']' :: rest => return (.array (item :: read).reverse, rest)
    | _ => none

/-- The members of an object, of which there is at least one more; `read` holds those before,
last first, unless the name of one has no value. -/
def members? : (fuel : Nat) → (depth : Nat) → (read : Option (List (String × Json))) → List Char →
    Option (Json × List Char)
  | 0, _, _, _ => none
  | fuel + 1, depth, read, cs => do
    let (name, rest) ← name? fuel cs
    let (value, rest) ← value? fuel depth rest
    let read := do return (← name, value) :: (← read)
    match skipBlanks rest with
    | ',' :: rest => members? fuel depth read rest
    | '\x7d' :: rest => return (ofMembers (read.map List.reverse), rest)
    | _ => none

end

end Reader

/-- The document that a text holds, with values nested at most `depth` deep. -/
def parseWithin? (depth : Nat) (text : String) : Option Json :=
  let cs := text.toList
  match Reader.value? (2 * cs.length + 2) depth cs with
  | some (value, rest) => if (Reader.skipBlanks rest).isEmpty then some value else none
  | none => none

/-- The document that a text holds. -/
def parse? (text : String) : Option Json := parseWithin? maxDepth text

end SkipCode.Json
