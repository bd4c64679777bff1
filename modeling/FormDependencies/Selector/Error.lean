import FormDependencies.Text.Quoted

/-!
Why a text is no selector. Offsets count the bytes of the text in UTF-8.
-/

namespace FormDependencies

inductive SelectorError where
  | empty
  | unexpectedChar (source : String) (offset : Nat) (found : Char)
  | missingIdent (source : String) (offset : Nat)
  /-- The offset is that of the opening bracket. -/
  | unterminatedAttribute (source : String) (offset : Nat)
  /-- The offset is that of the opening quote. -/
  | unterminatedString (source : String) (offset : Nat)
deriving DecidableEq

def SelectorError.message : SelectorError → String
  | .empty => "empty selector"
  | .unexpectedChar source offset found =>
    "unexpected character " ++ Text.quotedChar found ++ " at offset " ++ toString offset ++
      " in " ++ Text.quoted source
  | .missingIdent source offset =>
    "expected an identifier at offset " ++ toString offset ++ " in " ++ Text.quoted source
  | .unterminatedAttribute source offset =>
    "unterminated attribute matcher starting at offset " ++ toString offset ++ " in " ++
      Text.quoted source
  | .unterminatedString source offset =>
    "unterminated string starting at offset " ++ toString offset ++ " in " ++ Text.quoted source

end FormDependencies
