import FormDependencies.Json.Basic
import FormDependencies.Binary64.Notation

/-!
Compact JSON text. In strings the quote, the backslash and the control characters below U+0020 are
escaped. A number has the fewest digits that read back, an even last digit where two are equally
near, and always a point or an exponent; the exponent is used from 10 ^ 16 on and below 10 ^ -5.
Numbers that are not finite have no JSON text and are written as `null`.
-/

namespace FormDependencies.Json

def hexDigit (n : Nat) : Char :=
  if n < 10 then Char.ofNat (48 + n) else Char.ofNat (87 + n)

def escapeChar (c : Char) : List Char :=
  if c == '"' then ['\\', '"']
  else if c == '\\' then ['\\', '\\']
  else if c == '\x08' then ['\\', 'b']
  else if c == '\x0c' then ['\\', 'f']
  else if c == '\n' then ['\\', 'n']
  else if c == '\r' then ['\\', 'r']
  else if c == '\t' then ['\\', 't']
  else if c.toNat < 0x20 then
    ['\\', 'u', '0', '0', hexDigit (c.toNat / 16), hexDigit (c.toNat % 16)]
  else [c]

def stringChars (s : String) : List Char :=
  '"' :: s.toList.flatMap escapeChar ++ ['"']

def stringText (s : String) : String :=
  String.ofList (stringChars s)

/-- The notation of a decimal with an exponent: one digit before the point, a sign always. -/
def scientificChars (d : Decimal) : List Char :=
  let digits := d.digitChars
  let exponent := d.exponent + digits.length - 1
  let mantissa := match digits with
    | first :: second :: rest => first :: '.' :: second :: rest
    | digits => digits
  mantissa ++ 'e' :: (if exponent < 0 then '-' else '+') :: Nat.toDigits 10 exponent.natAbs

/-- The notation of a decimal: positional from 10 ^ -5 up to 10 ^ 16. -/
def decimalChars (d : Decimal) : List Char :=
  let point := d.exponent + d.digitChars.length
  if -5 < point && point ≤ 16 then
    let (whole, fraction) := d.positional
    whole ++ '.' :: if fraction.isEmpty then ['0'] else fraction
  else scientificChars d

/-- The text of a number; zero keeps its sign. -/
def numberChars (n : Binary64) : List Char :=
  if !n.isFinite then "null".toList
  else
    let magnitude :=
      if n.isZero then "0.0".toList else decimalChars (Binary64.shortest .even n.magnitudeCode)
    if n.isNegative then '-' :: magnitude else magnitude

mutual

def chars : Json → List Char
  | .null => "null".toList
  | .bool b => if b then "true".toList else "false".toList
  | .number n => numberChars n
  | .text s => stringChars s
  | .array items => '[' :: itemsChars items
  | .object members => '\x7b' :: membersChars members

def itemsChars : List Json → List Char
  | [] => [']']
  | [item] => chars item ++ [']']
  | item :: rest => chars item ++ ',' :: itemsChars rest

def membersChars : List (String × Json) → List Char
  | [] => ['\x7d']
  | [(key, value)] => stringChars key ++ ':' :: chars value ++ ['\x7d']
  | (key, value) :: rest => stringChars key ++ ':' :: chars value ++ ',' :: membersChars rest

end

def render (json : Json) : String :=
  String.ofList json.chars

end FormDependencies.Json
