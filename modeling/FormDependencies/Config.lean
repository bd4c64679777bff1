import FormDependencies.Error
import FormDependencies.Json.Reader
import FormDependencies.Json.Writer
import FormDependencies.Selector.Parser

/-!
Configuration: the attribute names that are read and written, how declarations are separated, what
counts as a collection, and how often one observer may be evaluated in a turn. Every name has a
default, and a JSON text overrides those that it gives.

A JSON object gives fields by name, each at most once; other members are ignored whatever their
value. A JSON array gives them by position, and those left out at its end keep their defaults.
-/

namespace FormDependencies

def defaultValidationMessage : String := "Incorrect data"

structure Config where
  referenceAttribute : String := "data-dependsonref"
  refTypeAttribute : String := "data-dependsonreftype"
  queryAttribute : String := "data-dependson"
  actionAttribute : String := "data-dependsonaction"
  negateAttribute : String := "data-dependsonnegate"
  skipInitialAttribute : String := "data-dependsonskipinitial"
  targetAttribute : String := "data-dependsontarget"
  controllableAttribute : String := "data-dependson-controllable"
  parameterStart : String := "data-dependson-"
  validationMessageAttribute : String := "data-dependson-validation-message"
  collectionSelector : String := "coral-multifield"
  separator : Char := ';'
  cascadeLimit : UInt32 := 64
deriving DecidableEq

namespace Config

def standard : Config := {}

/-- The fields that hold a text. -/
inductive TextField where
  | reference
  | refType
  | query
  | action
  | negate
  | skipInitial
  | target
  | controllable
  | parameterStart
  | validationMessage
  | collection
deriving DecidableEq

inductive Field where
  | text (field : TextField)
  | separator
  | cascadeLimit
deriving DecidableEq

/-- The fields in the order in which they are written. -/
def Field.all : List Field :=
  [.text .reference, .text .refType, .text .query, .text .action, .text .negate,
    .text .skipInitial, .text .target, .text .controllable, .text .parameterStart,
    .text .validationMessage, .text .collection, .separator, .cascadeLimit]

def Field.name : Field → String
  | .text .reference => "reference_attr"
  | .text .refType => "reftype_attr"
  | .text .query => "query_attr"
  | .text .action => "action_attr"
  | .text .negate => "negate_attr"
  | .text .skipInitial => "skip_initial_attr"
  | .text .target => "target_attr"
  | .text .controllable => "controllable_attr"
  | .text .parameterStart => "param_prefix"
  | .text .validationMessage => "validation_message_attr"
  | .text .collection => "collection_selector"
  | .separator => "separator"
  | .cascadeLimit => "cascade_limit"

def Field.ofName? (name : String) : Option Field :=
  all.find? fun field => field.name == name

def text (c : Config) : TextField → String
  | .reference => c.referenceAttribute
  | .refType => c.refTypeAttribute
  | .query => c.queryAttribute
  | .action => c.actionAttribute
  | .negate => c.negateAttribute
  | .skipInitial => c.skipInitialAttribute
  | .target => c.targetAttribute
  | .controllable => c.controllableAttribute
  | .parameterStart => c.parameterStart
  | .validationMessage => c.validationMessageAttribute
  | .collection => c.collectionSelector

def setText (c : Config) (field : TextField) (s : String) : Config :=
  match field with
  | .reference => { c with referenceAttribute := s }
  | .refType => { c with refTypeAttribute := s }
  | .query => { c with queryAttribute := s }
  | .action => { c with actionAttribute := s }
  | .negate => { c with negateAttribute := s }
  | .skipInitial => { c with skipInitialAttribute := s }
  | .target => { c with targetAttribute := s }
  | .controllable => { c with controllableAttribute := s }
  | .parameterStart => { c with parameterStart := s }
  | .validationMessage => { c with validationMessageAttribute := s }
  | .collection => { c with collectionSelector := s }

def collection (c : Config) : Except DependencyError Selector :=
  match Selector.parse c.collectionSelector with
  | .ok selector => .ok selector
  | .error cause => .error (.invalidSelector .collectionSelector cause)

/-! ## JSON -/

def fieldChars (c : Config) : Field → List Char
  | .text field => Json.stringChars (c.text field)
  | .separator => Json.stringChars (String.singleton c.separator)
  | .cascadeLimit => Nat.toDigits 10 c.cascadeLimit.toNat

def linesChars (c : Config) : List Field → List Char
  | [] => []
  | [field] =>
    ' ' :: ' ' :: Json.stringChars field.name ++ ':' :: ' ' :: c.fieldChars field ++ ['\n']
  | field :: rest =>
    ' ' :: ' ' :: Json.stringChars field.name ++ ':' :: ' ' :: c.fieldChars field ++
      ',' :: '\n' :: c.linesChars rest

def toJsonText (c : Config) : String :=
  String.ofList ('\x7b' :: '\n' :: c.linesChars Field.all ++ ['\x7d'])

/-- The whole number that a JSON number is, if it is written as one. -/
def wholeNumber? (n : JsonNumber) : Option Nat :=
  if n.negative || n.fraction.isSome || n.exponent.isSome then none
  else some (Decimal.ofDigits n.whole)

def readField? (c : Config) : Field → JsonText → Option Config
  | .text field, .text parts => (JsonText.decodeString? parts).map (c.setText field)
  | .separator, .text parts =>
    match JsonText.decodeParts? parts with
    | some [separator] => some { c with separator }
    | _ => none
  | .cascadeLimit, .number n =>
    match wholeNumber? n with
    | some limit =>
      if limit < UInt32.size then some { c with cascadeLimit := .ofNat limit } else none
    | none => none
  | _, _ => none

def readMembers? (c : Config) (seen : List Field) :
    List (List JsonStringPart × JsonText) → Option Config
  | [] => some c
  | (key, value) :: rest => do
    let name ← JsonText.decodeString? key
    match Field.ofName? name with
    | none => c.readMembers? seen rest
    | some field =>
      if seen.contains field then none
      else (← c.readField? field value).readMembers? (field :: seen) rest

def readItems? (c : Config) : List Field → List JsonText → Option Config
  | _, [] => some c
  | [], _ :: _ => none
  | field :: fields, item :: items => do
    (← c.readField? field item).readItems? fields items

def ofTree? : JsonText → Option Config
  | .object members => readMembers? {} [] members
  | .array items => readItems? {} Field.all items
  | _ => none

def ofJsonText? (s : String) : Option Config :=
  (JsonText.ofChars? s.toList).bind ofTree?

end Config

end FormDependencies
