/-!
Binary floating point numbers of 64 bits, read from their encoding with integers alone.

The magnitude of a finite number is a whole number of units, one unit being the least positive
number 2 ^ -1074. With a biased exponent `e` and a fraction `f` of 52 bits it is `f` units when `e`
is zero and `(2 ^ 52 + f) * 2 ^ (e - 1)` units otherwise. Order, equality, sums and rounding are
stated on units.
-/

namespace FormDependencies

/-- A number of 64 bits: the sign, 11 bits of exponent, 52 bits of fraction. -/
structure Binary64 where
  bits : UInt64

namespace Binary64

/-- The sign bit stands above the encoding of the magnitude. -/
def signBit : Nat := 0x8000000000000000

/-- The fractions are the numbers below `2 ^ 52`. -/
def fractionSize : Nat := 0x10000000000000

/-- The encoding of infinity; the encodings above it are those of the numbers that are none. -/
def infinityCode : Nat := 0x7ff0000000000000

def unitsPerOne : Nat := Nat.pow 2 1074

def isNegative (x : Binary64) : Bool := signBit ≤ x.bits.toNat

def magnitudeCode (x : Binary64) : Nat := x.bits.toNat % signBit

def isNaN (x : Binary64) : Bool := infinityCode < x.magnitudeCode

def isInfinite (x : Binary64) : Bool := x.magnitudeCode == infinityCode

def isFinite (x : Binary64) : Bool := x.magnitudeCode < infinityCode

def isZero (x : Binary64) : Bool := x.magnitudeCode == 0

def unitsOfCode (code : Nat) : Nat :=
  let exponent := code / fractionSize
  let fraction := code % fractionSize
  if exponent = 0 then fraction else (fractionSize + fraction) * Nat.pow 2 (exponent - 1)

def units (x : Binary64) : Nat := unitsOfCode x.magnitudeCode

def ofCode (negative : Bool) (code : Nat) : Binary64 :=
  ⟨UInt64.ofNat (if negative then signBit + code else code)⟩

def zero : Binary64 := ofCode false 0

def negativeZero : Binary64 := ofCode true 0

def infinity : Binary64 := ofCode false infinityCode

def negativeInfinity : Binary64 := ofCode true infinityCode

/-- The one chosen representative of the values that are not a number. -/
def nan : Binary64 := ofCode false (infinityCode + 0x8000000000000)

instance : Inhabited Binary64 := ⟨zero⟩

def neg (x : Binary64) : Binary64 := ofCode (!x.isNegative) x.magnitudeCode

/-- Equality of values: all values that are not a number count as one, and so do the two zeros. -/
def same (x y : Binary64) : Bool :=
  (x.isNaN && y.isNaN) || (x.isZero && y.isZero) || (!x.isNaN && x.bits == y.bits)

instance : BEq Binary64 := ⟨same⟩

/-- The value of a number that is not a NaN as a signed count of units; infinity counts as the
first power of two beyond the finite range. -/
def signedUnits (x : Binary64) : Int :=
  if x.isNegative then -(x.units : Int) else x.units

/-- The order of the numbers; a NaN is below nothing and nothing is below it. -/
def below (x y : Binary64) : Bool :=
  !x.isNaN && !y.isNaN && x.signedUnits < y.signedUnits

end Binary64

end FormDependencies
