import FormDependencies.Widget.Accessor

/-!
Accessors that a host describes by attributes: where the value is read, and which attributes are
written instead of what is general.
-/

namespace FormDependencies

/-- Where the value of a widget is read. -/
inductive ValueSource where
  | attributeText (name : String)
  | checked
  | const (value : Value)

def ValueSource.read (source : ValueSource) (doc : Document) (el : ElementId) : Value :=
  match source with
  | .attributeText name => ((doc.attribute? el name).map Value.text).getD .undefined
  | .checked => .bool (doc.checked el)
  | .const value => value

/-- A description of an accessor. The attributes that it gives are written in place of what is
general: the text of the value, and the flags of visibility and of being disabled as they are. -/
structure AccessorDescriptor where
  name : String
  source : ValueSource
  preferredType : RefType := .string
  valueAttribute : Option String := none
  visibilityAttribute : Option String := none
  disabledAttribute : Option String := none

namespace AccessorDescriptor

/-- An accessor that is general in all but its value. -/
def bare (source : ValueSource) : Accessor where
  get := source.read

/-- The described accessor. A value that is written to an attribute is announced as a selection. -/
def toAccessor (d : AccessorDescriptor) : Accessor :=
  let general := bare d.source
  { general with
    name := d.name
    preferredType := d.preferredType
    set := fun doc el value notify => match d.valueAttribute with
      | some name => (doc.setAttribute el name value.toText).announce el .selected notify
      | none => general.set doc el value notify
    setVisible := fun doc el visible => match d.visibilityAttribute with
      | some name => doc.toggleAttribute el name visible
      | none => general.setVisible doc el visible
    setDisabled := fun doc el on => match d.disabledAttribute with
      | some name => doc.toggleAttribute el name on
      | none => general.setDisabled doc el on }

end AccessorDescriptor

end FormDependencies
