import FormDependencies.Text.Blank

/-!
Names of actions: rows of lower-case ASCII letters, digits and hyphens. Any text gives a name, its
letters in lower case and all other characters dropped.
-/

namespace FormDependencies.ActionName

def isNameChar (c : Char) : Bool :=
  c.isLower || c.isDigit || c == '-'

/-- The lower case of a character, as far as it may stand in a name. The kelvin sign and the capital
I with a dot are the only characters beyond ASCII whose lower case begins with an ASCII letter. -/
def lowerCase (c : Char) : Char :=
  if c == '\u212a' then 'k' else if c == '\u0130' then 'i' else c.toLower

def sanitizeChars (cs : List Char) : List Char :=
  (cs.map lowerCase).filter isNameChar

def sanitize (raw : String) : String :=
  String.ofList (sanitizeChars raw.toList)

def default : String := "visibility"

end FormDependencies.ActionName
