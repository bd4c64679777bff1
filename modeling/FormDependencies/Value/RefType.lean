import FormDependencies.Value.Basic
import FormDependencies.Text.Quoted

/-!
The declared type of a reference and the conversion of a field's value to it.
-/

namespace FormDependencies

inductive RefType where
  | auto
  | any
  | boolean
  | boolString
  | string
  | number
  | json
deriving DecidableEq

namespace RefType

instance : Inhabited RefType := ⟨.auto⟩

/-- The types, in the order in which they are listed. -/
def all : List RefType := [.auto, .any, .boolean, .boolString, .string, .number, .json]

def name : RefType → String
  | .auto => "auto"
  | .any => "any"
  | .boolean => "boolean"
  | .boolString => "boolstring"
  | .string => "string"
  | .number => "number"
  | .json => "json"

def ofName? (name : String) : Option RefType :=
  all.find? fun type => type.name == name

/-- A text that names no type. -/
structure Unknown where
  text : String

def Unknown.message (e : Unknown) : String :=
  "unknown reference type " ++ Text.quoted e.text

/-- Reads a type: blanks around the name and the case of ASCII letters do not matter, and blank text
is `auto`. -/
def parse (text : String) : Except Unknown RefType :=
  let name := String.ofList ((Text.trimChars text.toList).map Char.toLower)
  if name.isEmpty then .ok .auto
  else match ofName? name with
    | some type => .ok type
    | none => .error ⟨text⟩

end RefType

namespace Value

/-- The value converted to a type. Undefined stays undefined, and text that is no JSON becomes
undefined under `json`. -/
def cast (value : Value) (type : RefType) : Value :=
  if value.isUndefined then value
  else match type with
    | .auto | .any => value
    | .boolean => .bool value.isTruthy
    | .boolString => .bool (value.toText == "true")
    | .string => .text value.toText
    | .number => .number value.toNumber
    | .json => match value with
      | .text s => ((Json.read? s).map ofJson).getD .undefined
      | value => value

/-- The text that a conversion fails to read, if it fails. -/
def castFailure? (value : Value) (type : RefType) : Option String :=
  match type, value with
  | .json, .text s => if (Json.read? s).isNone then some s else none
  | _, _ => none

end Value

end FormDependencies
