import SkipCode.Image.Basic

/-!
# The binary form of images: reading

The readers undo the writers of `Encoding`. They refuse input that ends early, a choice that does
not exist, a truth value other than 0 and 1, text that is not UTF-8, and a number with too many
groups or too large for its width; they accept a number written with more groups than it needs,
and leave alone what follows.

A length is compared with what is left before its items are read, since each item takes a byte at
least. The same fact bounds how deeply elements can be nested.
-/

namespace SkipCode.Decoding

/-- A reader takes bytes from the front and gives back the rest. -/
abbrev Reader (α : Type) := List UInt8 → Option (α × List UInt8)

/-- A number of at most `groups` groups, the last of which is below `top` when it is the last
possible one. -/
def varint : (groups : Nat) → (top : Nat) → Reader Nat
  | 0, _, _ => none
  | _ + 1, _, [] => none
  | groups + 1, top, b :: rest =>
    let n := b.toNat
    if n < 128 then if groups = 0 ∧ top ≤ n then none else some (n, rest)
    else
      match varint groups top rest with
      | some (more, rest) => some (n - 128 + 128 * more, rest)
      | none => none

/-- A number of 32 bits: five groups leave four bits for the last. -/
def word : Reader UInt32 := fun bytes =>
  (varint 5 16 bytes).map fun (n, rest) => (UInt32.ofNat n, rest)

/-- A length of 64 bits: ten groups leave one bit for the last. -/
def size : Reader Nat := varint 10 2

/-- The number of a choice. -/
def choice : Reader Nat := varint 5 16

/-- Unsigned numbers back onto signed ones. -/
def unfold (n : UInt32) : Int32 :=
  if n.toNat % 2 = 0 then Int32.ofInt (n.toNat / 2 : Nat)
  else Int32.ofInt (-((n.toNat / 2 + 1 : Nat) : Int))

def signed : Reader Int32 := fun bytes => (word bytes).map fun (n, rest) => (unfold n, rest)

/-- A number of `bytes` bytes, lowest first. -/
def littleEndian : (bytes : Nat) → Reader Nat
  | 0, rest => some (0, rest)
  | _ + 1, [] => none
  | bytes + 1, b :: rest =>
    (littleEndian bytes rest).map fun (more, rest) => (b.toNat + 256 * more, rest)

def number : Reader Binary64 := fun bytes =>
  (littleEndian 8 bytes).map fun (n, rest) => (⟨UInt64.ofNat n⟩, rest)

def bool : Reader Bool
  | 0 :: rest => some (false, rest)
  | 1 :: rest => some (true, rest)
  | _ => none

def option {α : Type} (content : Reader α) : Reader (Option α)
  | 0 :: rest => some (none, rest)
  | 1 :: rest => (content rest).map fun (a, rest) => (some a, rest)
  | _ => none

/-- A number of items one after the other. -/
def items {α : Type} (item : Reader α) : Nat → Reader (List α)
  | 0, rest => some ([], rest)
  | n + 1, bytes => do
    let (a, rest) ← item bytes
    let (as, rest) ← items item n rest
    return (a :: as, rest)

/-- A list whose items take at least a byte each. -/
def list {α : Type} (item : Reader α) : Reader (List α) := fun bytes => do
  let (n, rest) ← size bytes
  if rest.length < n then none else items item n rest

def text : Reader String := fun bytes => do
  let (n, rest) ← size bytes
  if rest.length < n then none
  else
    let s ← String.fromUTF8? (rest.take n).toByteArray
    return (s, rest.drop n)

def arithmeticOp : Reader ArithmeticOp := fun bytes => do
  let (n, rest) ← choice bytes
  match n with
  | 0 => some (.add, rest)
  | 1 => some (.subtract, rest)
  | 2 => some (.multiply, rest)
  | 3 => some (.divide, rest)
  | 4 => some (.modulo, rest)
  | _ => none

def comparison : Reader Comparison := fun bytes => do
  let (n, rest) ← choice bytes
  match n with
  | 0 => some (.equal, rest)
  | 1 => some (.notEqual, rest)
  | 2 => some (.less, rest)
  | 3 => some (.lessEqual, rest)
  | 4 => some (.greater, rest)
  | 5 => some (.greaterEqual, rest)
  | _ => none

/-- A store, given the reader of its actor. -/
def store (element : Reader Element) : Reader Store := fun bytes => do
  let (n, rest) ← choice bytes
  match n with
  | 0 => some (.global, rest)
  | 1 => (element rest).map fun (who, rest) => (.actor who, rest)
  | _ => none

/-- Two elements in a row. -/
def two (element : Reader Element) (build : Element → Element → Element) : Reader Element :=
  fun bytes => do
    let (a, rest) ← element bytes
    let (b, rest) ← element rest
    return (build a b, rest)

/-- An element nested at most `fuel` deep. -/
def elementWithin : (fuel : Nat) → Reader Element
  | 0, _ => none
  | fuel + 1, bytes => do
    let element := elementWithin fuel
    let (n, rest) ← choice bytes
    match n with
    | 0 => (number rest).map fun (x, rest) => (.number x, rest)
    | 1 => (bool rest).map fun (b, rest) => (.bool b, rest)
    | 2 => (list element rest).map fun (es, rest) => (.array es, rest)
    | 3 =>
      let (st, rest) ← store element rest
      let (slot, rest) ← word rest
      return (.variable st slot, rest)
    | 4 => two element .itemAt rest
    | 5 => (element rest).map fun (e, rest) => (.countOf e, rest)
    | 6 => (element rest).map fun (e, rest) => (.lastOf e, rest)
    | 7 => two element .append rest
    | 8 =>
      let (array, rest) ← element rest
      let (start, rest) ← element rest
      let (count, rest) ← element rest
      return (.slice array start count, rest)
    | 9 => two element .indexOf rest
    | 10 =>
      let (op, rest) ← arithmeticOp rest
      two element (.arithmetic op) rest
    | 11 =>
      let (lhs, rest) ← element rest
      let (op, rest) ← comparison rest
      let (rhs, rest) ← element rest
      return (.compare lhs op rhs, rest)
    | 12 => two element .and rest
    | 13 => two element .or rest
    | 14 => (element rest).map fun (e, rest) => (.not e, rest)
    | 15 => some (.eventPlayer, rest)
    | _ => none

/-- An element. Every level of nesting takes a byte, so the length bounds the depth. -/
def element : Reader Element := fun bytes => elementWithin (bytes.length + 1) bytes

def action : Reader Action := fun bytes => do
  let (n, rest) ← choice bytes
  match n with
  | 0 =>
    let (st, rest) ← store element rest
    let (slot, rest) ← word rest
    let (index, rest) ← option element rest
    let (value, rest) ← element rest
    return (.set st slot index value, rest)
  | 1 =>
    let (condition, rest) ← element rest
    let (count, rest) ← option signed rest
    return (.skipIf condition count, rest)
  | 2 => (option signed rest).map fun (count, rest) => (.skip count, rest)
  | 3 => some (.abort, rest)
  | _ => none

def actionList : Reader ActionList := fun bytes =>
  (list action bytes).map fun (actions, rest) => (.ofList actions, rest)

def unit : Reader (String × ActionList) := fun bytes => do
  let (name, rest) ← text bytes
  let (l, rest) ← actionList rest
  return ((name, l), rest)

/-- An image. A name that is repeated keeps its first place and its last list. -/
def image : Reader Image := fun bytes =>
  (list unit bytes).map fun (units, rest) =>
    (units.foldl (fun i (name, l) => i.insert name l) .empty, rest)

end SkipCode.Decoding

namespace SkipCode.Image

/-- The image at the front of some bytes. -/
def ofBytes? (bytes : List UInt8) : Option Image := (Decoding.image bytes).map Prod.fst

end SkipCode.Image
