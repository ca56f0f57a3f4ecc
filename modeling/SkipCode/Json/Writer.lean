import SkipCode.Json.Basic
import SkipCode.Binary64.Text

/-!
# Writing JSON text

`Json.render` writes a document without blanks. A decimal is written so that it is read as a
decimal again; what has no value is written as `null`.
-/

namespace SkipCode.Json

namespace Writer

def hexDigit (n : Nat) : Char := if n < 10 then Char.ofNat (48 + n) else Char.ofNat (87 + n)

/-- The characters that stand for one character of a string. -/
def escaped (c : Char) : List Char :=
  if c == '"' then ['\\', '"']
  else if c == '\\' then ['\\', '\\']
  else if c == '\n' then ['\\', 'n']
  else if c == '\r' then ['\\', 'r']
  else if c == '\t' then ['\\', 't']
  else if c.toNat < 0x20 then
    ['\\', 'u', '0', '0', hexDigit (c.toNat / 16), hexDigit (c.toNat % 16)]
  else [c]

def quoted (s : String) : String := "\"" ++ String.ofList (s.toList.flatMap escaped) ++ "\""

mutual

/-- Writes a document after `out`. -/
def value (out : String) : Json → String
  | .null => out ++ "null"
  | .unreadable => out ++ "null"
  | .bool b => out ++ if b then "true" else "false"
  | .integer n => out ++ toString n
  | .decimal x => out ++ if x.isFinite then x.toDetailedText else "null"
  | .string s => out ++ quoted s
  | .array [] => out ++ "[]"
  | .array (item :: rest) => moreItems (value (out ++ "[") item) rest ++ "]"
  | .object [] => out ++ "\x7b\x7d"
  | .object ((name, v) :: rest) =>
    moreMembers (value (out ++ "\x7b" ++ quoted name ++ ":") v) rest ++ "\x7d"

def moreItems (out : String) : List Json → String
  | [] => out
  | item :: rest => moreItems (value (out ++ ",") item) rest

def moreMembers (out : String) : List (String × Json) → String
  | [] => out
  | (name, v) :: rest => moreMembers (value (out ++ "," ++ quoted name ++ ":") v) rest

end

end Writer

/-- The text of a document. -/
def render (j : Json) : String := Writer.value "" j

end SkipCode.Json
