import FormDependencies.Binary64.Round

/-!
Decimal numbers: their value as a binary number, and the literals that a text may hold. A literal
is read exactly and rounded once, whatever the number of its digits.
-/

namespace FormDependencies

/-- The decimal number `digits * 10 ^ exponent`. -/
structure Decimal where
  digits : Nat
  exponent : Int
deriving DecidableEq

def Binary64.ofDecimal (negative : Bool) (d : Decimal) : Binary64 :=
  match d.exponent with
  | .ofNat k => .ofQuotient negative (d.digits * Nat.pow 10 k) 1
  | .negSucc k => .ofQuotient negative d.digits (Nat.pow 10 (k + 1))

namespace Decimal

def digitValue (c : Char) : Nat := c.toNat - '0'.toNat

def ofDigits (cs : List Char) : Nat :=
  cs.foldl (fun n c => 10 * n + digitValue c) 0

def splitDigits (cs : List Char) : List Char × List Char :=
  (cs.takeWhile Char.isDigit, cs.dropWhile Char.isDigit)

/-- The parts of a decimal literal without its sign: the digits before and after the point, and the
exponent. -/
structure Literal where
  whole : List Char
  fraction : List Char
  exponent : Int

def exponent? (cs : List Char) : Option Int :=
  let (negative, cs) := match cs with
    | '+' :: cs => (false, cs)
    | '-' :: cs => (true, cs)
    | cs => (false, cs)
  if cs.isEmpty || !cs.all Char.isDigit then none
  else some (if negative then -(ofDigits cs : Int) else ofDigits cs)

/-- Reads `digits[.digits][e[sign]digits]`, with a digit somewhere before the exponent. -/
def literal? (cs : List Char) : Option Literal :=
  let (whole, rest) := splitDigits cs
  let (fraction, rest) := match rest with
    | '.' :: rest => splitDigits rest
    | rest => ([], rest)
  if whole.isEmpty && fraction.isEmpty then none
  else match rest with
    | [] => some ⟨whole, fraction, 0⟩
    | c :: rest => if c = 'e' || c = 'E' then (exponent? rest).map (⟨whole, fraction, ·⟩) else none

/-- The value of a literal. One with digits that lies beyond every power of ten in question is
infinite or zero without its power of ten being computed. -/
def Literal.toBinary64 (l : Literal) (negative : Bool) : Binary64 :=
  let digits := ofDigits (l.whole ++ l.fraction)
  let exponent := l.exponent - l.fraction.length
  if digits = 0 then .ofCode negative 0
  else if 400 < exponent then .ofCode negative Binary64.infinityCode
  else if exponent + (l.whole.length + l.fraction.length) < -400 then .ofCode negative 0
  else .ofDecimal negative ⟨digits, exponent⟩

/-- Whether a text is one of the words, in any case of its ASCII letters. -/
def isWord (words : List String) (cs : List Char) : Bool :=
  words.any fun word => word.toList == cs.map Char.toLower

end Decimal

namespace Binary64

def ofUnsigned? (negative : Bool) (cs : List Char) : Option Binary64 :=
  if Decimal.isWord ["inf", "infinity"] cs then some (.ofCode negative infinityCode)
  else if Decimal.isWord ["nan"] cs then some nan
  else (Decimal.literal? cs).map (·.toBinary64 negative)

/-- Reads an optional sign and then a literal or one of the words `inf`, `infinity` and `nan`. -/
def ofChars? : List Char → Option Binary64
  | '+' :: cs => ofUnsigned? false cs
  | '-' :: cs => ofUnsigned? true cs
  | cs => ofUnsigned? false cs

end Binary64

end FormDependencies
