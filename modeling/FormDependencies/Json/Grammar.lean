/-!
The grammar of JSON text. A text is divided into a tree that keeps strings and numbers as they are
written, so that each user decides which strings and numbers it accepts. White space is the space,
the tab, the line feed and the carriage return, and nothing may follow the value but white space.

Lists of items nest as deeply as the text does; the depth of the recursion is bounded by a count
that no text of the given length can use up.
-/

namespace FormDependencies

/-- A number as written. -/
structure JsonNumber where
  negative : Bool
  whole : List Char
  /-- The digits after the point, if there is a point. -/
  fraction : Option (List Char)
  /-- Whether the exponent is negative, and its digits, if there is one. -/
  exponent : Option (Bool × List Char)

/-- A part of a string as written: a character, or a UTF-16 unit given by its number. -/
inductive JsonStringPart where
  | char (c : Char)
  | unit (n : Nat)

/-- A JSON text as its grammar divides it. Members keep their order and may repeat a key. -/
inductive JsonText where
  | null
  | bool (b : Bool)
  | number (n : JsonNumber)
  | text (parts : List JsonStringPart)
  | array (items : List JsonText)
  | object (members : List (List JsonStringPart × JsonText))

instance : Inhabited JsonText := ⟨.null⟩

namespace JsonText

def isSpace (c : Char) : Bool :=
  c == ' ' || c == '\t' || c == '\n' || c == '\r'

def skipSpace (cs : List Char) : List Char :=
  cs.dropWhile isSpace

def hexValue? (c : Char) : Option Nat :=
  if c.isDigit then some (c.toNat - 48)
  else if 'a' ≤ c ∧ c ≤ 'f' then some (c.toNat - 87)
  else if 'A' ≤ c ∧ c ≤ 'F' then some (c.toNat - 55)
  else none

def hexUnit? (a b c d : Char) : Option Nat := do
  let a ← hexValue? a
  let b ← hexValue? b
  let c ← hexValue? c
  let d ← hexValue? d
  return ((a * 16 + b) * 16 + c) * 16 + d

def escaped? (c : Char) : Option Char :=
  if c == '"' || c == '\\' || c == '/' then some c
  else if c == 'b' then some '\x08'
  else if c == 'f' then some '\x0c'
  else if c == 'n' then some '\n'
  else if c == 'r' then some '\r'
  else if c == 't' then some '\t'
  else none

def stringRest? : List Char → Option (List JsonStringPart × List Char)
  | [] => none
  | '"' :: rest => some ([], rest)
  | '\\' :: 'u' :: a :: b :: c :: d :: rest => do
    let n ← hexUnit? a b c d
    let (parts, rest) ← stringRest? rest
    return (.unit n :: parts, rest)
  | '\\' :: c :: rest => do
    let c ← escaped? c
    let (parts, rest) ← stringRest? rest
    return (.char c :: parts, rest)
  | c :: rest =>
    if c.toNat < 0x20 then none
    else do
      let (parts, rest) ← stringRest? rest
      return (.char c :: parts, rest)

def string? : List Char → Option (List JsonStringPart × List Char)
  | '"' :: rest => stringRest? rest
  | _ => none

def digits? (cs : List Char) : Option (List Char × List Char) :=
  let digits := cs.takeWhile Char.isDigit
  if digits.isEmpty then none else some (digits, cs.dropWhile Char.isDigit)

/-- Reads the digits before the point: a zero alone, or digits that start with another. -/
def whole? : List Char → Option (List Char × List Char)
  | '0' :: rest => some (['0'], rest)
  | cs => digits? cs

/-- Reads a point and the digits after it, if the point is there. -/
def fraction? : List Char → Option (Option (List Char) × List Char)
  | '.' :: rest => (digits? rest).map fun (digits, rest) => (some digits, rest)
  | cs => some (none, cs)

def exponentRest? (cs : List Char) : Option (Option (Bool × List Char) × List Char) :=
  let (negative, cs) := match cs with
    | '+' :: rest => (false, rest)
    | '-' :: rest => (true, rest)
    | cs => (false, cs)
  (digits? cs).map fun (digits, rest) => (some (negative, digits), rest)

/-- Reads an exponent, if its letter is there. -/
def exponent? : List Char → Option (Option (Bool × List Char) × List Char)
  | 'e' :: rest => exponentRest? rest
  | 'E' :: rest => exponentRest? rest
  | cs => some (none, cs)

def number? (cs : List Char) : Option (JsonNumber × List Char) := do
  let (negative, cs) := match cs with
    | '-' :: rest => (true, rest)
    | cs => (false, cs)
  let (whole, cs) ← whole? cs
  let (fraction, cs) ← fraction? cs
  let (exponent, cs) ← exponent? cs
  return (⟨negative, whole, fraction, exponent⟩, cs)

mutual

def value? : Nat → List Char → Option (JsonText × List Char)
  | 0, _ => none
  | depth + 1, cs =>
    match skipSpace cs with
    | '"' :: rest => (stringRest? rest).map fun (parts, rest) => (.text parts, rest)
    | '[' :: rest =>
      match skipSpace rest with
      | ']' :: rest => some (.array [], rest)
      | rest => (items? depth rest).map fun (items, rest) => (.array items, rest)
    | '\x7b' :: rest =>
      match skipSpace rest with
      | '\x7d' :: rest => some (.object [], rest)
      | rest => (members? depth rest).map fun (members, rest) => (.object members, rest)
    | 'n' :: 'u' :: 'l' :: 'l' :: rest => some (.null, rest)
    | 't' :: 'r' :: 'u' :: 'e' :: rest => some (.bool true, rest)
    | 'f' :: 'a' :: 'l' :: 's' :: 'e' :: rest => some (.bool false, rest)
    | cs => (number? cs).map fun (n, rest) => (.number n, rest)

/-- Reads the items of an array, one at least, with the closing bracket. -/
def items? : Nat → List Char → Option (List JsonText × List Char)
  | 0, _ => none
  | depth + 1, cs => do
    let (item, rest) ← value? depth cs
    match skipSpace rest with
    | ',' :: rest =>
      let (items, rest) ← items? depth rest
      return (item :: items, rest)
    | ']' :: rest => return ([item], rest)
    | _ => none

/-- Reads the members of an object, one at least, with the closing brace. -/
def members? : Nat → List Char → Option (List (List JsonStringPart × JsonText) × List Char)
  | 0, _ => none
  | depth + 1, cs => do
    let (key, rest) ← string? (skipSpace cs)
    match skipSpace rest with
    | ':' :: rest =>
      let (value, rest) ← value? depth rest
      match skipSpace rest with
      | ',' :: rest =>
        let (members, rest) ← members? depth rest
        return ((key, value) :: members, rest)
      | '\x7d' :: rest => return ([(key, value)], rest)
      | _ => none
    | _ => none

end

def ofChars? (cs : List Char) : Option JsonText := do
  let (value, rest) ← value? (2 * cs.length + 2) cs
  if (skipSpace rest).isEmpty then return value else none

end JsonText

end FormDependencies
