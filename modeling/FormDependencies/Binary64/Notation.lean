import FormDependencies.Binary64.Shortest

/-!
Positional notation: a decimal as the digits before and after its point, and the text of a number
that never uses an exponent.
-/

namespace FormDependencies

namespace Decimal

def positional (d : Decimal) : List Char × List Char :=
  match d.exponent with
  | .ofNat k => (d.digitChars ++ List.replicate k '0', [])
  | .negSucc k =>
    let places := k + 1
    let count := d.digitChars.length
    if places < count then
      (d.digitChars.take (count - places), d.digitChars.drop (count - places))
    else (['0'], List.replicate (places - count) '0' ++ d.digitChars)

def plainChars (d : Decimal) : List Char :=
  let (whole, fraction) := d.positional
  if fraction.isEmpty then whole else whole ++ '.' :: fraction

end Decimal

namespace Binary64

/-- Below this bound a whole number is written through its integer value. -/
def integerBound : Nat := 1000000000000000

/-- Whether a finite number is whole and of a magnitude below the integer bound. -/
def isSmallInteger (x : Binary64) : Bool :=
  x.units % unitsPerOne == 0 && x.units / unitsPerOne < integerBound

def integerChars (negative : Bool) (magnitude : Nat) : List Char :=
  if negative && magnitude != 0 then '-' :: Nat.toDigits 10 magnitude else Nat.toDigits 10 magnitude

/-- The text of a number in positional notation. Zero has no sign, and of two shortest decimals
equally near the greater one is written. -/
def textChars (x : Binary64) : List Char :=
  if x.isNaN then "NaN".toList
  else if x.isInfinite then if x.isNegative then "-Infinity".toList else "Infinity".toList
  else if x.isSmallInteger then integerChars x.isNegative (x.units / unitsPerOne)
  else
    let digits := (shortest .up x.magnitudeCode).plainChars
    if x.isNegative then '-' :: digits else digits

def text (x : Binary64) : String :=
  String.ofList x.textChars

end Binary64

end FormDependencies
