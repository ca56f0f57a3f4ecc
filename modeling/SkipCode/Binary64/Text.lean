import SkipCode.Binary64.Shortest

/-!
# Numbers as text

Two texts of a number, both with the fewest digits that read back. `toText` is the one of
listings and messages: always positional, a whole number without a decimal point. `toDetailedText`
marks a number as a number: a whole one ends in `.0`, and one that is very large or very small is
written with an exponent.
-/

namespace SkipCode.Binary64

/-- The sign that is written, also in front of a zero. -/
def signText (x : Binary64) : String := if x.isNegative then "-" else ""

/-- Writes a decimal positionally; `whole` follows the digits of a whole number. -/
def Decimal.positional (d : Decimal) (whole : String) : String :=
  let digits := (toString d.digits).toList
  let count := digits.length
  match d.power with
  | .ofNat zeros => String.ofList (digits ++ List.replicate zeros '0') ++ whole
  | .negSucc n =>
    let places := n + 1
    if places < count then
      String.ofList (digits.take (count - places) ++ '.' :: digits.drop (count - places))
    else String.ofList ('0' :: '.' :: List.replicate (places - count) '0' ++ digits)

/-- Writes a decimal with one digit before the point and an exponent of ten. -/
def Decimal.scientific (d : Decimal) : String :=
  let digits := (toString d.digits).toList
  let exponent := d.power + (digits.length - 1 : Nat)
  match digits with
  | [] => ""
  | [digit] => s!"{digit}e{exponent}"
  | digit :: more => s!"{digit}.{String.ofList more}e{exponent}"

/-- The exponents of the leading digit from `1e-4` to `1e15` are written positionally. -/
def Decimal.isModerate (d : Decimal) : Bool :=
  let leading := d.power + ((toString d.digits).length - 1 : Nat)
  leading < 16 && -4 ≤ leading

/-- The text of a number that is not finite. -/
def specialText (x : Binary64) : String := if x.isNaN then "NaN" else x.signText ++ "inf"

/-- The number positionally, without a point when it is whole. -/
def toText (x : Binary64) : String :=
  if !x.isFinite then x.specialText
  else if x.isZero then x.signText ++ "0"
  else x.signText ++ x.shortest.positional ""

/-- The number with a point or an exponent that marks it as one. -/
def toDetailedText (x : Binary64) : String :=
  if !x.isFinite then x.specialText
  else if x.isZero then x.signText ++ "0.0"
  else if x.shortest.isModerate then x.signText ++ x.shortest.positional ".0"
  else x.signText ++ x.shortest.scientific

instance : ToString Binary64 := ⟨toText⟩

end SkipCode.Binary64
