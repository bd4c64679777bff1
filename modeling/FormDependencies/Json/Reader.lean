import FormDependencies.Json.Basic
import FormDependencies.Json.Grammar
import FormDependencies.Binary64.Decimal

/-!
Reading a JSON value from text. Beyond the grammar, arrays and objects nest to a depth of 127 at
most, an escaped surrogate must stand in a pair, and a number must not overflow.

A number is not rounded once. Its digits are collected into a whole number of 64 bits as long as it
does not overflow, later digits being dropped; that number is rounded, and then multiplied or
divided by one power of ten, which rounds again.
-/

namespace FormDependencies

namespace JsonNumber

def significandLimit : Nat := UInt64.size - 1

/-- Collects digits while the significand stays within its limit. Also gives the digits that were
dropped. -/
def collect (significand : Nat) : List Char → Nat × List Char
  | [] => (significand, [])
  | c :: cs =>
    let next := 10 * significand + Decimal.digitValue c
    if significandLimit < next then (significand, c :: cs) else collect next cs

/-- The significand and its power of ten before the written exponent is applied. A dropped digit
before the point raises the power of ten; a kept one after it lowers it. -/
def significand (n : JsonNumber) : Nat × Int :=
  let (whole, dropped) := collect 0 n.whole
  match n.fraction with
  | none => (whole, dropped.length)
  | some fraction =>
    let (digits, rest) := collect whole fraction
    (digits, dropped.length - (fraction.length - rest.length : Nat))

def powerOfTen (k : Nat) : Binary64 :=
  .ofNat (Nat.pow 10 k)

/-- Divides by ten to the power `k`, in steps of 308 until the rest of the power is in reach or
nothing is left. -/
def scaleDown (n : Binary64) (k : Nat) : Binary64 :=
  if k ≤ 308 then n.divMagnitude (powerOfTen k)
  else if n.isZero then n
  else scaleDown (n.divMagnitude (powerOfTen 308)) (k - 308)
termination_by k

def scale? (n : Binary64) (exponent : Int) : Option Binary64 :=
  if exponent < 0 then some (scaleDown n exponent.natAbs)
  else if exponent ≤ 308 then
    let product := n.mulMagnitude (powerOfTen exponent.toNat)
    if product.isInfinite then none else some product
  else if n.isZero then some n
  else none

def exponentLimit : Nat := 0x7fffffff

def magnitude? (n : JsonNumber) : Option Binary64 :=
  let (digits, exponent) := n.significand
  match n.exponent with
  | none => scale? (.ofNat digits) exponent
  | some (negative, exponentDigits) =>
    let written := Decimal.ofDigits exponentDigits
    if exponentLimit < written then
      if digits ≠ 0 ∧ !negative then none else some .zero
    else scale? (.ofNat digits) (if negative then exponent - written else exponent + written)

def toBinary64? (n : JsonNumber) : Option Binary64 :=
  n.magnitude?.map fun magnitude => if n.negative then magnitude.neg else magnitude

end JsonNumber

namespace JsonText

/-- The characters of a string. Two units that form a surrogate pair are one character, and a
surrogate outside a pair is refused. -/
def decodeParts? : List JsonStringPart → Option (List Char)
  | [] => some []
  | .char c :: rest => (decodeParts? rest).map (c :: ·)
  | .unit high :: .unit low :: rest =>
    if 0xD800 ≤ high ∧ high ≤ 0xDBFF then
      if 0xDC00 ≤ low ∧ low ≤ 0xDFFF then
        let c := Char.ofNat (0x10000 + (high - 0xD800) * 0x400 + (low - 0xDC00))
        (decodeParts? rest).map (c :: ·)
      else none
    else if 0xDC00 ≤ high ∧ high ≤ 0xDFFF then none
    else (decodeParts? (.unit low :: rest)).map (Char.ofNat high :: ·)
  | .unit n :: rest =>
    if 0xD800 ≤ n ∧ n ≤ 0xDFFF then none else (decodeParts? rest).map (Char.ofNat n :: ·)

def decodeString? (parts : List JsonStringPart) : Option String :=
  (decodeParts? parts).map String.ofList

def depthLimit : Nat := 127

mutual

/-- The value of a text whose arrays and objects nest at most `depth` deep. -/
def toJson? (depth : Nat) : JsonText → Option Json
  | .null => some .null
  | .bool b => some (.bool b)
  | .number n => n.toBinary64?.map .number
  | .text parts => (decodeString? parts).map .text
  | .array items => if depth = 0 then none else (itemsToJson? (depth - 1) items).map .array
  | .object members =>
    if depth = 0 then none
    else (membersToJson? (depth - 1) members).map fun entries => .object (KeyedList.ofList entries)

def itemsToJson? (depth : Nat) : List JsonText → Option (List Json)
  | [] => some []
  | item :: rest => do
    let item ← toJson? depth item
    let rest ← itemsToJson? depth rest
    return item :: rest

def membersToJson? (depth : Nat) : List (List JsonStringPart × JsonText) →
    Option (List (String × Json))
  | [] => some []
  | (key, value) :: rest => do
    let key ← decodeString? key
    let value ← toJson? depth value
    let rest ← membersToJson? depth rest
    return (key, value) :: rest

end

end JsonText

def Json.read? (s : String) : Option Json := do
  let text ← JsonText.ofChars? s.toList
  text.toJson? JsonText.depthLimit

end FormDependencies
