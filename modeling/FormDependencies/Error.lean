import FormDependencies.Document.Event
import FormDependencies.Selector.Error

/-!
What can go wrong while dependencies are set up or evaluated, and the messages that say so.
-/

namespace FormDependencies

/-- Where a text stood that should have been a selector. -/
inductive SelectorPlace where
  | queryScope (query : String)
  | collectionSelector
  | accessorRegistration
  | actionTarget (el : ElementId)
deriving DecidableEq

def SelectorPlace.describe : SelectorPlace → String
  | .queryScope query => "scope of query " ++ Text.quoted query
  | .collectionSelector => "collection selector"
  | .accessorRegistration => "accessor registration"
  | .actionTarget el => "action target of " ++ el.display

/-- Why the text of a query does not divide into references and other text. -/
inductive QueryFlaw where
  | unterminatedString
  | missingName
  | scopedThis
  | unterminatedScope
deriving DecidableEq

def QueryFlaw.describe : QueryFlaw → String
  | .unterminatedString => "unterminated string literal"
  | .missingName => "expected a reference name after '@'"
  | .scopedThis => "@this cannot be scoped"
  | .unterminatedScope => "unterminated scope selector"

inductive DependencyError where
  /-- No action has this name; the known names are in order of registration. -/
  | unknownAction (name : String) (known : List String)
  | invalidActionName (raw : String)
  | invalidSelector (place : SelectorPlace) (cause : SelectorError)
  | malformedQuery (query : String) (offset : Nat) (flaw : QueryFlaw)
  | evaluation (query : String) (el : ElementId) (reason : String)
deriving DecidableEq

namespace DependencyError

def kind : DependencyError → String
  | .unknownAction .. => "unknown_action"
  | .invalidActionName .. => "invalid_action_name"
  | .invalidSelector .. => "invalid_selector"
  | .malformedQuery .. => "malformed_query"
  | .evaluation .. => "evaluation"

def message : DependencyError → String
  | .unknownAction name known =>
    "action " ++ Text.quoted name ++ " is not registered; known actions: " ++ ", ".intercalate known
  | .invalidActionName raw =>
    "action name " ++ Text.quoted raw ++ " has no characters left after sanitizing"
  | .invalidSelector place cause =>
    "invalid selector in " ++ place.describe ++ ": " ++ cause.message
  | .malformedQuery query offset flaw =>
    "malformed query " ++ Text.quoted query ++ " at offset " ++ toString offset ++ ": " ++
      flaw.describe
  | .evaluation query el reason =>
    "failed to evaluate " ++ Text.quoted query ++ " for " ++ el.display ++ ": " ++ reason

end DependencyError

end FormDependencies
