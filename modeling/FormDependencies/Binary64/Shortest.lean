import FormDependencies.Binary64.Decimal

/-!
The decimal digits of a number: the fewest that read back as the same number, and of those the ones
nearest to it. For each count of digits only the two neighbours of the number on that grid can
qualify; they are tried by reading them back, so the result reads back by construction. When no
count up to 17 has one, which never happens, the exact expansion stands in.
-/

namespace FormDependencies

namespace Decimal

/-- Moves the zeros at the end of the digits into the exponent, at most `fuel` of them. -/
def dropZeros : Nat → Decimal → Decimal
  | 0, d => d
  | fuel + 1, d =>
    if d.digits ≠ 0 ∧ d.digits % 10 = 0 then dropZeros fuel ⟨d.digits / 10, d.exponent + 1⟩ else d

def digitChars (d : Decimal) : List Char :=
  Nat.toDigits 10 d.digits

end Decimal

/-- Which of two decimals equally near to a number is chosen. -/
inductive Tie where
  | up
  | even

/-- Whether the greater neighbour of a tie is chosen, given the digits of the lesser. -/
def Tie.takesHigh : Tie → Nat → Bool
  | .up, _ => true
  | .even, low => low % 2 == 1

def decimalWidth (n : Nat) : Nat :=
  if n = 0 then 0 else (Nat.toDigits 10 n).length

namespace Binary64

/-- The least power of ten above a magnitude of `units`, as its exponent. -/
def decimalPoint (units : Nat) : Int :=
  if unitsPerOne ≤ units then decimalWidth (units / unitsPerOne)
  else 1 - (decimalWidth ((unitsPerOne - 1) / units) : Int)

def scaledBy (units : Nat) (exponent : Int) : Nat × Nat :=
  match exponent with
  | .ofNat k => (units, unitsPerOne * Nat.pow 10 k)
  | .negSucc k => (units * Nat.pow 10 (k + 1), unitsPerOne)

def readsAs (code : Nat) (d : Decimal) : Bool :=
  (ofDecimal false d).bits == (ofCode false code).bits

/-- A decimal of `count` digits that reads back, if there is one: the nearest. -/
def onGrid? (tie : Tie) (code : Nat) (count : Nat) : Option Decimal :=
  let units := unitsOfCode code
  let exponent := decimalPoint units - count
  let (num, den) := scaledBy units exponent
  let low := Decimal.dropZeros count ⟨num / den, exponent⟩
  let high := Decimal.dropZeros count ⟨num / den + 1, exponent⟩
  let rest := 2 * (num % den)
  let takeHigh := den < rest || (rest == den && tie.takesHigh (num / den))
  match readsAs code low, readsAs code high with
  | true, true => some (if takeHigh then high else low)
  | true, false => some low
  | false, true => some high
  | false, false => none

/-- The exact value of an encoding: a unit is `5 ^ 1074 * 10 ^ -1074`. -/
def exactDecimal (code : Nat) : Decimal :=
  ⟨unitsOfCode code * Nat.pow 5 1074, -1074⟩

/-- The shortest decimal that reads back as the number of magnitude `code`. -/
def shortest (tie : Tie) (code : Nat) : Decimal :=
  ((List.range' 1 17).findSome? (onGrid? tie code)).getD (exactDecimal code)

end Binary64

end FormDependencies
