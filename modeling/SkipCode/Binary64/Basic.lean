/-!
# Binary floating point numbers of 64 bits

A `Binary64` is its bit pattern: one sign bit, eleven exponent bits, fifty-two fraction bits.
Keeping the pattern keeps every number apart, also the two zeros and the many NaNs, so that a
binary form can give back exactly what it was given. All arithmetic on these patterns is exact
integer arithmetic followed by one rounding (`Binary64.Rounding`), so it can be reasoned about.

* `significand` and `scale` read a finite number as `± significand · 2 ^ scale`;
* `equal`, `less` and `lessEq` are the comparisons of the number line: the zeros are equal and
  a NaN is neither equal to nor less than anything, itself included.
-/

namespace SkipCode

-- powers and sums are those of the core library, also where a larger one has its own
attribute [default_instance 20000] instPowNat

instance (priority := 2000) natPow : Pow Nat Nat := instPowNat

instance (priority := 2000) natZero : Zero Nat := ⟨0⟩

/-- A floating point number of 64 bits, as its bit pattern. -/
structure Binary64 where
  bits : UInt64
deriving DecidableEq, Inhabited, Repr

namespace Binary64

/-- Whether the sign bit is set. -/
def isNegative (x : Binary64) : Bool := x.bits >>> 63 == 1

/-- The pattern without its sign bit; on numbers of one sign it grows with the absolute value. -/
def magnitude (x : Binary64) : UInt64 := x.bits &&& 0x7fffffffffffffff

/-- The eleven exponent bits. -/
def exponentField (x : Binary64) : Nat := (x.magnitude >>> 52).toNat

/-- The fifty-two fraction bits. -/
def fractionField (x : Binary64) : Nat := (x.bits &&& 0xfffffffffffff).toNat

/-- The magnitude of the infinities; anything above it is a NaN. -/
def infiniteMagnitude : UInt64 := 0x7ff0000000000000

def isNaN (x : Binary64) : Bool := infiniteMagnitude < x.magnitude

def isInfinite (x : Binary64) : Bool := x.magnitude == infiniteMagnitude

def isFinite (x : Binary64) : Bool := x.magnitude < infiniteMagnitude

def isZero (x : Binary64) : Bool := x.magnitude == 0

/-- The number with this sign and this pattern below the sign bit. -/
def ofMagnitude (negative : Bool) (magnitude : UInt64) : Binary64 :=
  ⟨if negative then 0x8000000000000000 ||| magnitude else magnitude⟩

/-- The zero of a sign. -/
def zero (negative : Bool) : Binary64 := ofMagnitude negative 0

/-- The infinity of a sign. -/
def infinity (negative : Bool) : Binary64 := ofMagnitude negative infiniteMagnitude

/-- The NaN that arithmetic answers with. -/
def nan : Binary64 := ⟨0x7ff8000000000000⟩

instance : OfNat Binary64 0 := ⟨zero false⟩

/-- The integer `m` of a finite number `± m · 2 ^ scale`. -/
def significand (x : Binary64) : Nat :=
  if x.exponentField = 0 then x.fractionField else 2 ^ 52 + x.fractionField

/-- The exponent of two that weighs the last place of a finite number. -/
def scale (x : Binary64) : Int := (max x.exponentField 1 : Nat) - 1075

/-- The number with the other sign. -/
def neg (x : Binary64) : Binary64 := ⟨x.bits ^^^ 0x8000000000000000⟩

/-- Equality on the number line: both zeros are equal, a NaN equals nothing. -/
def equal (x y : Binary64) : Bool :=
  !x.isNaN && !y.isNaN && (x.bits == y.bits || x.isZero && y.isZero)

/-- Order on the number line; a NaN is on neither side. -/
def less (x y : Binary64) : Bool :=
  !x.isNaN && !y.isNaN &&
    match x.isNegative, y.isNegative with
    | false, false => x.magnitude < y.magnitude
    | true, true => y.magnitude < x.magnitude
    | true, false => !(x.isZero && y.isZero)
    | false, true => false

/-- Less or equal on the number line; false as soon as a NaN takes part. -/
def lessEq (x y : Binary64) : Bool := x.less y || x.equal y

end Binary64

end SkipCode
