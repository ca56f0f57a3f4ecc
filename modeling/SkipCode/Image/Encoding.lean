import SkipCode.Image.Basic

/-!
# The binary form of images: writing

* An unsigned number is written in groups of seven bits, lowest first, each but the last with its
  high bit set. A signed one is folded onto the unsigned ones first: 0, -1, 1, -2, …
* A floating point number is its bit pattern in eight bytes, lowest first.
* A list is its length and its items, a text its length in bytes and its UTF-8 bytes, what may be
  missing a byte 0 or a byte 1 and the content.
* A choice is its number, counted from zero, and its fields in order.

Every writer takes the bytes that follow, so that reading back can be stated for any rest.
-/

namespace SkipCode.Encoding

/-- A writer puts bytes in front of those that follow. -/
abbrev Writer := List UInt8 → List UInt8

/-- A number in groups of seven bits, at most `groups` of them. -/
def varint : (groups : Nat) → Nat → Writer
  | 0, _, rest => rest
  | groups + 1, n, rest =>
    if n < 128 then UInt8.ofNat n :: rest
    else UInt8.ofNat (128 + n % 128) :: varint groups (n / 128) rest

/-- A number of 32 bits takes at most five groups. -/
def word (n : UInt32) : Writer := varint 5 n.toNat

/-- A length takes at most ten groups. -/
def size (n : Nat) : Writer := varint 10 n

/-- Signed numbers onto unsigned ones: the small ones of either sign onto the small ones. -/
def fold (n : Int32) : UInt32 :=
  if 0 ≤ n.toInt then UInt32.ofNat (2 * n.toInt.toNat)
  else UInt32.ofNat (2 * (-n.toInt).toNat - 1)

def signed (n : Int32) : Writer := word (fold n)

/-- The lowest `bytes` bytes of a number, lowest first. -/
def littleEndian : (bytes : Nat) → Nat → Writer
  | 0, _, rest => rest
  | bytes + 1, n, rest => UInt8.ofNat (n % 256) :: littleEndian bytes (n / 256) rest

def number (x : Binary64) : Writer := littleEndian 8 x.bits.toNat

def bool (b : Bool) : Writer := ((if b then 1 else 0) :: ·)

def option {α : Type} (content : α → Writer) : Option α → Writer
  | none, rest => 0 :: rest
  | some a, rest => 1 :: content a rest

/-- The items one after the other. -/
def items {α : Type} (item : α → Writer) : List α → Writer
  | [], rest => rest
  | a :: as, rest => item a (items item as rest)

def list {α : Type} (item : α → Writer) (as : List α) : Writer :=
  fun rest => size as.length (items item as rest)

def text (s : String) : Writer :=
  fun rest => size s.utf8ByteSize (s.toUTF8.toList ++ rest)

/-- The number of a choice. -/
def choice (n : Nat) : Writer := varint 5 n

def arithmeticOp : ArithmeticOp → Nat
  | .add => 0 | .subtract => 1 | .multiply => 2 | .divide => 3 | .modulo => 4

def comparison : Comparison → Nat
  | .equal => 0 | .notEqual => 1 | .less => 2 | .lessEqual => 3 | .greater => 4
  | .greaterEqual => 5

mutual

def element : Element → Writer
  | .number x, rest => choice 0 (number x rest)
  | .bool b, rest => choice 1 (bool b rest)
  | .array es, rest => choice 2 (size es.length (elements es rest))
  | .variable st slot, rest => choice 3 (store st (word slot rest))
  | .itemAt array index, rest => choice 4 (element array (element index rest))
  | .countOf inner, rest => choice 5 (element inner rest)
  | .lastOf inner, rest => choice 6 (element inner rest)
  | .append array value, rest => choice 7 (element array (element value rest))
  | .slice array start count, rest =>
    choice 8 (element array (element start (element count rest)))
  | .indexOf array value, rest => choice 9 (element array (element value rest))
  | .arithmetic op lhs rhs, rest =>
    choice 10 (choice (arithmeticOp op) (element lhs (element rhs rest)))
  | .compare lhs op rhs, rest =>
    choice 11 (element lhs (choice (comparison op) (element rhs rest)))
  | .and lhs rhs, rest => choice 12 (element lhs (element rhs rest))
  | .or lhs rhs, rest => choice 13 (element lhs (element rhs rest))
  | .not inner, rest => choice 14 (element inner rest)
  | .eventPlayer, rest => choice 15 rest

def elements : List Element → Writer
  | [], rest => rest
  | e :: es, rest => element e (elements es rest)

def store : Store → Writer
  | .global, rest => choice 0 rest
  | .actor who, rest => choice 1 (element who rest)

end

def action : Action → Writer
  | .set st slot index value, rest =>
    choice 0 (store st (word slot (option element index (element value rest))))
  | .skipIf condition count, rest => choice 1 (element condition (option signed count rest))
  | .skip count, rest => choice 2 (option signed count rest)
  | .abort, rest => choice 3 rest

def actionList (l : ActionList) : Writer := list action l.toList

/-- A unit is its name and its list. -/
def unit : String × ActionList → Writer
  | (name, l), rest => text name (actionList l rest)

def image (i : Image) : Writer := list unit i.units

end SkipCode.Encoding

namespace SkipCode.Image

/-- The binary form of an image. -/
def toBytes (image : Image) : List UInt8 := Encoding.image image []

end SkipCode.Image
