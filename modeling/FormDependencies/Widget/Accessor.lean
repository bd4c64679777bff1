import FormDependencies.Document.Basic
import FormDependencies.Value.RefType

/-!
Accessors: one way of reading and changing every kind of widget. A widget must say how its value is
read; all else has a general form that works on plain attributes and properties.
-/

namespace FormDependencies

def fieldWrapperClass : String := "coral-Form-fieldwrapper"

def Document.fieldWrapper? (doc : Document) (el : ElementId) : Option ElementId :=
  (el :: doc.ancestors el).find? (doc.hasClass · fieldWrapperClass)

/-- Sets or removes an attribute on an element and on its field wrapper. -/
def Document.toggleOnField (doc : Document) (el : ElementId) (name : String) (on : Bool) :
    Document :=
  let doc := doc.toggleAttribute el name on
  match doc.fieldWrapper? el with
  | some wrapper => if wrapper == el then doc else doc.toggleAttribute wrapper name on
  | none => doc

def Document.announce (doc : Document) (el : ElementId) (kind : EventKind) (notify : Bool) :
    Document :=
  if notify then doc.trigger el kind else doc

/-- How one kind of widget is read and changed. -/
structure Accessor where
  name : String := "custom"
  /-- The type to which a reference without a type of its own converts the value. -/
  preferredType : RefType := .string
  get : Document → ElementId → Value
  /-- Writes a value; the flag asks for a change event right after. -/
  set : Document → ElementId → Value → Bool → Document := fun doc el value notify =>
    (doc.setValue el value.toText).announce el .change notify
  setVisible : Document → ElementId → Bool → Document := fun doc el visible =>
    doc.toggleOnField el "hidden" (!visible)
  setDisabled : Document → ElementId → Bool → Document := fun doc el on =>
    doc.toggleOnField el "disabled" on
  setReadonly : Document → ElementId → Bool → Document := fun doc el on =>
    doc.toggleAttribute el "readonly" on
  setRequired : Document → ElementId → Bool → Document := fun doc el on =>
    (doc.toggleAttribute el "required" on).toggleAttribute el "aria-required" on

end FormDependencies
