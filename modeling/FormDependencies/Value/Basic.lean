import FormDependencies.Binary64.Notation
import FormDependencies.Json.Reader
import FormDependencies.Json.Writer
import FormDependencies.Text.Blank

/-!
Values of fields and expressions. `undefined` stands for absent data: a reference that resolves to
no element reads as `undefined`. The entries of a map are in ascending order of their keys.

Undefined, null, false, zero, NaN and the empty text are falsy; all else is truthy, the empty list
and the empty map included.
-/

namespace FormDependencies

inductive Value where
  | undefined
  | null
  | bool (b : Bool)
  | number (n : Binary64)
  | text (s : String)
  | list (items : List Value)
  | map (entries : List (String × Value))

namespace Value

instance : Inhabited Value := ⟨.undefined⟩

mutual

/-- Equality of values: numbers agree when they are the same value, so NaN agrees with itself, and
lists and maps agree entry by entry. -/
def same : Value → Value → Bool
  | .undefined, .undefined => true
  | .null, .null => true
  | .bool a, .bool b => a == b
  | .number a, .number b => a.same b
  | .text a, .text b => a == b
  | .list a, .list b => sameItems a b
  | .map a, .map b => sameEntries a b
  | _, _ => false

def sameItems : List Value → List Value → Bool
  | [], [] => true
  | a :: as, b :: bs => same a b && sameItems as bs
  | _, _ => false

def sameEntries : List (String × Value) → List (String × Value) → Bool
  | [], [] => true
  | (k, a) :: as, (l, b) :: bs => k == l && same a b && sameEntries as bs
  | _, _ => false

end

instance : BEq Value := ⟨same⟩

def isUndefined : Value → Bool
  | .undefined => true
  | _ => false

def isTruthy : Value → Bool
  | .undefined | .null => false
  | .bool b => b
  | .number n => !n.isZero && !n.isNaN
  | .text s => !s.isEmpty
  | .list _ | .map _ => true

def isBlank : Value → Bool
  | .undefined | .null => true
  | .text s => s.isEmpty
  | .list items => items.isEmpty
  | _ => false

mutual

/-- The JSON value; undefined and the numbers that are not finite become null. -/
def toJson : Value → Json
  | .undefined | .null => .null
  | .bool b => .bool b
  | .number n => if n.isFinite then .number n else .null
  | .text s => .text s
  | .list items => .array (itemsToJson items)
  | .map entries => .object (entriesToJson entries)

def itemsToJson : List Value → List Json
  | [] => []
  | item :: rest => toJson item :: itemsToJson rest

def entriesToJson : List (String × Value) → List (String × Json)
  | [] => []
  | (key, value) :: rest => (key, toJson value) :: entriesToJson rest

end

mutual

def ofJson : Json → Value
  | .null => .null
  | .bool b => .bool b
  | .number n => .number n
  | .text s => .text s
  | .array items => .list (itemsOfJson items)
  | .object members => .map (entriesOfJson members)

def itemsOfJson : List Json → List Value
  | [] => []
  | item :: rest => ofJson item :: itemsOfJson rest

def entriesOfJson : List (String × Json) → List (String × Value)
  | [] => []
  | (key, value) :: rest => (key, ofJson value) :: entriesOfJson rest

end

mutual

/-- The text that is written into a field. A list is joined by commas, a map is JSON. -/
def toText : Value → String
  | .undefined | .null => ""
  | .bool b => if b then "true" else "false"
  | .number n => n.text
  | .text s => s
  | .list items => ",".intercalate (itemTexts items)
  | .map entries => (Value.map entries).toJson.render

def itemTexts : List Value → List String
  | [] => []
  | item :: rest => toText item :: itemTexts rest

end

/-- The text that is shown to a reader: undefined and null are named. -/
def display : Value → String
  | .undefined => "undefined"
  | .null => "null"
  | value => value.toText

/-- The number that a value stands for: blank text is zero, and text that holds no number is NaN. -/
def toNumber : Value → Binary64
  | .undefined => .nan
  | .null => .zero
  | .bool b => if b then .ofNat 1 else .zero
  | .number n => n
  | .text s =>
    let cs := Text.trimChars s.toList
    if cs.isEmpty then .zero else (Binary64.ofChars? cs).getD .nan
  | .list _ | .map _ => .nan

def length? : Value → Option Nat
  | .list items => some items.length
  | _ => none

def ofNat (n : Nat) : Value := .number (.ofNat n)

end Value

end FormDependencies
