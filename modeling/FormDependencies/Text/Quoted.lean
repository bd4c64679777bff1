import FormDependencies.Text.Printable

/-!
Texts and characters as they are quoted inside messages. A character is written as itself when it
is printable and does not extend the character before it; otherwise it is escaped.
-/

namespace FormDependencies.Text

/-- The digits of a number in base sixteen, lower case, without leading zeros. -/
def hexDigits (n : Nat) : String :=
  String.ofList (Nat.toDigits 16 n)

/-- The escape of a character by its number in braces, as in `\u{301}`. -/
def escapeByNumber (c : Char) : String :=
  "\\u\x7b" ++ hexDigits c.toNat ++ "\x7d"

/-- One character inside quotes of the kind `quote`: the other kind of quote needs no escape. -/
def escapeQuoted (quote c : Char) : String :=
  if c == '\x00' then "\\0"
  else if c == '\t' then "\\t"
  else if c == '\r' then "\\r"
  else if c == '\n' then "\\n"
  else if c == '\\' then "\\\\"
  else if c == quote then String.ofList ['\\', c]
  else if extendsGrapheme c then escapeByNumber c
  else if isPrintable c then String.singleton c
  else escapeByNumber c

def quoted (s : String) : String :=
  "\"" ++ String.join (s.toList.map (escapeQuoted '"')) ++ "\""

def quotedChar (c : Char) : String :=
  "'" ++ escapeQuoted '\x27' c ++ "'"

end FormDependencies.Text
