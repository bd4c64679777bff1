import FormDependencies.Action.Name
import FormDependencies.Binary64.Decimal
import FormDependencies.Config
import FormDependencies.Document.Basic
import FormDependencies.Text.Split

/-!
What an element declares: queries with the actions that their results drive.

One attribute holds the queries and another the actions, each list with the separator between its
parts, and they are paired by position. An empty query declares nothing, and a missing action is
the default one. The parameters of the action stand in attributes of their own, named by the action
and the parameter. When one action is declared several times, the attributes of all but the first
end in a hyphen and the number of declarations before with that action.
-/

namespace FormDependencies

/-- A query with its action and the parameters of the action. -/
structure Declaration where
  query : String
  action : String
  parameters : KeyedList String
deriving DecidableEq

namespace Declaration

def parts (config : Config) (text : String) : List String :=
  (Text.splitChars config.separator text.toList).map fun part => String.ofList (Text.trimChars part)

/-- The name of the action that a part gives: its sanitized form, or the part itself when nothing is
left of it. -/
def actionName (part : String) : String :=
  let raw := if part.isEmpty then ActionName.default else part
  let name := ActionName.sanitize raw
  if name.isEmpty then raw else name

def pairings (queries actions : List String) : List (String × String) :=
  (queries.zipIdx.filter fun entry => !entry.1.isEmpty).map fun entry =>
    (entry.1, actionName (actions.getD entry.2 ""))

/-- The greatest number that may stand at the end of a parameter attribute. -/
def indexLimit : Nat := UInt64.size - 1

/-- Reads a number of declarations, with or without a plus sign. -/
def index? (cs : List Char) : Option Nat :=
  let digits := match cs with
    | '+' :: rest => rest
    | cs => cs
  if digits.isEmpty || !digits.all Char.isDigit then none
  else
    let n := Decimal.ofDigits digits
    if n ≤ indexLimit then some n else none

/-- The parameter that the rest of an attribute name stands for, and the number of declarations that
it skips. -/
def parameterOf (rest : List Char) : List Char × Nat :=
  match Text.splitLast? '-' rest with
  | some (name, digits) =>
    if name.isEmpty then (rest, 0)
    else match index? digits with
      | some n => (name, n)
      | none => (rest, 0)
  | none => (rest, 0)

/-- What an attribute gives to the declaration of an action that follows `index` others: the name of
the parameter. -/
def parameterName? (start : List Char) (index : Nat) (attributeName : String) : Option String :=
  match Text.dropStart? start attributeName.toList with
  | none => none
  | some rest =>
    let (name, n) := parameterOf rest
    if n = index && !name.isEmpty then some (String.ofList name) else none

def parametersOf (attributes : List (String × String)) (config : Config) (action : String)
    (index : Nat) : KeyedList String :=
  let start := (config.parameterStart ++ action ++ "-").toList
  KeyedList.ofList (attributes.filterMap fun entry =>
    (parameterName? start index entry.1).map fun name => (name, entry.2))

def withParameters (attributes : List (String × String)) (config : Config) (earlier : List String) :
    List (String × String) → List Declaration
  | [] => []
  | (query, action) :: rest =>
    ⟨query, action, parametersOf attributes config action (earlier.count action)⟩ ::
      withParameters attributes config (action :: earlier) rest

end Declaration

namespace Document

def attributeOrEmpty (doc : Document) (el : ElementId) (name : String) : String :=
  (doc.attribute? el name).getD ""

def declarations (doc : Document) (el : ElementId) (config : Config) : List Declaration :=
  Declaration.withParameters (doc.attributes el) config []
    (Declaration.pairings
      (Declaration.parts config (doc.attributeOrEmpty el config.queryAttribute))
      (Declaration.parts config (doc.attributeOrEmpty el config.actionAttribute)))

/-- All that the observers of an element depend on, as one text; they stay as they are as long as it
does. -/
def declarationSignature (doc : Document) (el : ElementId) (config : Config) : String :=
  let flag (name : String) : String := if doc.hasAttribute el name then "true" else "false"
  let parameters := (doc.declarations el config).flatMap fun d =>
    d.parameters.map fun entry => d.action ++ ":" ++ entry.1 ++ "=" ++ entry.2
  "\x1f".intercalate
    ([doc.attributeOrEmpty el config.queryAttribute, doc.attributeOrEmpty el config.actionAttribute,
      flag config.negateAttribute, flag config.skipInitialAttribute,
      doc.attributeOrEmpty el config.targetAttribute] ++ parameters)

end Document

end FormDependencies
