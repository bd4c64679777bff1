import FormDependencies.Json.Grammar
import FormDependencies.Proofs.Binary64.Reading

/-!
The grammar of JSON, each rule a relation between characters and what they are divided into. White
space may stand around every value and around the name of every member. What the parts of a string
denote is a relation of its own. Nothing here says how a text is read.
-/

namespace FormDependencies.JsonGrammar

open Decimal (Digits)

def Space (cs : List Char) : Prop :=
  ∀ c ∈ cs, c ∈ [' ', '\t', '\n', '\r']

instance (cs : List Char) : Decidable (Space cs) :=
  List.decidableBAll _ cs

theorem space_nil : Space [] := fun _ mem => absurd mem List.not_mem_nil

/-! ## Numbers -/

/-- The digits before the point have no leading zero. -/
inductive Whole : List Char → Prop
  | zero : Whole ['0']
  | digits {c : Char} {cs : List Char} : c ≠ '0' → Digits (c :: cs) → Whole (c :: cs)

inductive Fraction : List Char → Option (List Char) → Prop
  | absent : Fraction [] none
  | given {digits : List Char} : digits ≠ [] → Digits digits →
      Fraction ('.' :: digits) (some digits)

inductive Sign : List Char → Bool → Prop
  | absent : Sign [] false
  | plus : Sign ['+'] false
  | minus : Sign ['-'] true

inductive Exponent : List Char → Option (Bool × List Char) → Prop
  | absent : Exponent [] none
  | given {letter : Char} {sign digits : List Char} {negative : Bool} :
      letter = 'e' ∨ letter = 'E' → Sign sign negative → digits ≠ [] → Digits digits →
      Exponent (letter :: (sign ++ digits)) (some (negative, digits))

inductive Magnitude : List Char → Bool → JsonNumber → Prop
  | mk {negative : Bool} {whole cs ds : List Char} {fraction : Option (List Char)}
      {exponent : Option (Bool × List Char)} : Whole whole → Fraction cs fraction →
      Exponent ds exponent →
      Magnitude (whole ++ cs ++ ds) negative ⟨negative, whole, fraction, exponent⟩

inductive Number : List Char → JsonNumber → Prop
  | plain {cs : List Char} {n : JsonNumber} : Magnitude cs false n → Number cs n
  | negative {cs : List Char} {n : JsonNumber} : Magnitude cs true n → Number ('-' :: cs) n

/-! ## Strings -/

def escapes : List (Char × Char) :=
  [('"', '"'), ('\\', '\\'), ('/', '/'), ('b', '\x08'), ('f', '\x0c'), ('n', '\n'), ('r', '\r'),
    ('t', '\t')]

def Hex (c : Char) (n : Nat) : Prop :=
  n < 16 ∧ (c = Nat.digitChar n ∨ c = (Nat.digitChar n).toUpper)

instance (c : Char) (n : Nat) : Decidable (Hex c n) :=
  inferInstanceAs (Decidable (_ ∧ _))

inductive Part : List Char → JsonStringPart → Prop
  | plain {c : Char} : 0x20 ≤ c.toNat → c ≠ '"' → c ≠ '\\' → Part [c] (.char c)
  | escape {letter c : Char} : (letter, c) ∈ escapes → Part ['\\', letter] (.char c)
  | unit {a b c d : Char} {w x y z : Nat} : Hex a w → Hex b x → Hex c y → Hex d z →
      Part ['\\', 'u', a, b, c, d] (.unit (((w * 16 + x) * 16 + y) * 16 + z))

inductive Parts : List Char → List JsonStringPart → Prop
  | nil : Parts [] []
  | cons {cs rest : List Char} {part : JsonStringPart} {parts : List JsonStringPart} :
      Part cs part → Parts rest parts → Parts (cs ++ rest) (part :: parts)

inductive Quoted : List Char → List JsonStringPart → Prop
  | mk {cs : List Char} {parts : List JsonStringPart} : Parts cs parts →
      Quoted ('"' :: (cs ++ ['"'])) parts

/-- The characters that the parts of a string denote. A character beyond the first 16 bits is
given by two units, a surrogate pair. -/
inductive Denotes : List JsonStringPart → List Char → Prop
  | nil : Denotes [] []
  | char {c : Char} {parts : List JsonStringPart} {cs : List Char} : Denotes parts cs →
      Denotes (.char c :: parts) (c :: cs)
  | unit {c : Char} {parts : List JsonStringPart} {cs : List Char} : c.toNat < 0x10000 →
      Denotes parts cs → Denotes (.unit c.toNat :: parts) (c :: cs)
  | pair {c : Char} {high low : Nat} {parts : List JsonStringPart} {cs : List Char} :
      high < 0x400 → low < 0x400 → c.toNat = 0x10000 + high * 0x400 + low → Denotes parts cs →
      Denotes (.unit (0xD800 + high) :: .unit (0xDC00 + low) :: parts) (c :: cs)

/-! ## Values -/

inductive Key : List Char → List JsonStringPart → Prop
  | mk {before cs after : List Char} {key : List JsonStringPart} : Space before → Quoted cs key →
      Space after → Key (before ++ cs ++ after) key

mutual

inductive Value : List Char → JsonText → Prop
  | null : Value ['n', 'u', 'l', 'l'] .null
  | yes : Value ['t', 'r', 'u', 'e'] (.bool true)
  | no : Value ['f', 'a', 'l', 's', 'e'] (.bool false)
  | number {cs : List Char} {n : JsonNumber} : Number cs n → Value cs (.number n)
  | text {cs : List Char} {parts : List JsonStringPart} : Quoted cs parts → Value cs (.text parts)
  | emptyArray {blanks : List Char} : Space blanks → Value ('[' :: (blanks ++ [']'])) (.array [])
  | array {cs : List Char} {items : List JsonText} : Items cs items →
      Value ('[' :: (cs ++ [']'])) (.array items)
  | emptyObject {blanks : List Char} : Space blanks →
      Value ('\x7b' :: (blanks ++ ['\x7d'])) (.object [])
  | object {cs : List Char} {members : List (List JsonStringPart × JsonText)} :
      Members cs members → Value ('\x7b' :: (cs ++ ['\x7d'])) (.object members)

/-- A value with white space around it, as a whole text is. -/
inductive Padded : List Char → JsonText → Prop
  | mk {before cs after : List Char} {t : JsonText} : Space before → Value cs t → Space after →
      Padded (before ++ cs ++ after) t

inductive Items : List Char → List JsonText → Prop
  | single {cs : List Char} {item : JsonText} : Padded cs item → Items cs [item]
  | cons {cs rest : List Char} {item : JsonText} {items : List JsonText} : Padded cs item →
      Items rest items → Items (cs ++ ',' :: rest) (item :: items)

inductive Members : List Char → List (List JsonStringPart × JsonText) → Prop
  | single {name cs : List Char} {key : List JsonStringPart} {value : JsonText} : Key name key →
      Padded cs value → Members (name ++ ':' :: cs) [(key, value)]
  | cons {name cs rest : List Char} {key : List JsonStringPart} {value : JsonText}
      {members : List (List JsonStringPart × JsonText)} : Key name key → Padded cs value →
      Members rest members → Members (name ++ ':' :: (cs ++ ',' :: rest)) ((key, value) :: members)

end

end FormDependencies.JsonGrammar
