import FormDependencies.Binary64.Basic

/-!
Rounding of exact quotients to the nearest number, where a tie goes to the even encoding, and the
arithmetic that it gives.
-/

namespace FormDependencies

/-- The whole number nearest to `num / den`; a tie goes to the even one. -/
def roundDiv (num den : Nat) : Nat :=
  let quotient := num / den
  let rest := num % den
  if 2 * rest < den then quotient
  else if den < 2 * rest then quotient + 1
  else quotient + quotient % 2

namespace Binary64

/-- The encoding of the number nearest to `num / den` units. Between 2 ^ (52 + shift) and
2 ^ (53 + shift) units the numbers are multiples of 2 ^ shift, and the encodings count them up
through all shifts, so rounding up into the next binade needs no case of its own. -/
def codeOfUnits (num den : Nat) : Nat :=
  let shift := (num / den).log2 - 52
  min (shift * fractionSize + roundDiv num (den * Nat.pow 2 shift)) infinityCode

def ofQuotient (negative : Bool) (num den : Nat) : Binary64 :=
  ofCode negative (codeOfUnits (num * unitsPerOne) den)

def ofInt (n : Int) : Binary64 :=
  ofQuotient (n < 0) n.natAbs 1

def ofNat (n : Nat) : Binary64 :=
  ofQuotient false n 1

/-- The sum, rounded once. A sum of zero is positive unless both terms are negative zeros. -/
def add (x y : Binary64) : Binary64 :=
  if x.isNaN || y.isNaN then nan
  else if x.isInfinite then
    if y.isInfinite && x.isNegative != y.isNegative then nan else x
  else if y.isInfinite then y
  else
    let total := x.signedUnits + y.signedUnits
    if total = 0 then ofCode (x.isNegative && y.isNegative) 0
    else ofCode (total < 0) (codeOfUnits total.natAbs 1)

/-- The product of magnitudes of finite numbers, rounded once; the sign is positive. -/
def mulMagnitude (x y : Binary64) : Binary64 :=
  ofCode false (codeOfUnits (x.units * y.units) unitsPerOne)

/-- The quotient of magnitudes of finite numbers by one that is not zero, rounded once; the sign is
positive. -/
def divMagnitude (x y : Binary64) : Binary64 :=
  ofCode false (codeOfUnits (x.units * unitsPerOne) y.units)

end Binary64

end FormDependencies
