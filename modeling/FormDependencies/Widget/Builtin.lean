import FormDependencies.Selector.Basic
import FormDependencies.Widget.Accessor

/-!
The built-in accessors: plain fields, toggles, radio groups and selects of several values. With
each stands the selector of the elements that it is for.
-/

namespace FormDependencies.Accessor

def plain : Accessor where
  name := "default"
  get doc el := .text (doc.value el)

/-! ## Toggles -/

def switchInputClass : String := "coral3-Switch-input"

def toggleSelector : Selector where
  source := "input[type=\"radio\"],input[type=\"checkbox\"],coral-radio,coral-checkbox,coral-switch"
  alternatives :=
    [[{ tag := some "input", attributes := [⟨"type", some "radio"⟩] }],
      [{ tag := some "input", attributes := [⟨"type", some "checkbox"⟩] }],
      [{ tag := some "coral-radio" }], [{ tag := some "coral-checkbox" }],
      [{ tag := some "coral-switch" }]]

/-- The type of the native inputs inside a switch follows its visibility, so that a hidden switch
stays out of native validation. -/
def setSwitchInputs (doc : Document) (el : ElementId) (visible : Bool) : Document :=
  ((doc.descendants el).filter (doc.hasClass · switchInputClass)).foldl
    (fun doc input => doc.setAttribute input "type" (if visible then "text" else "hidden")) doc

def toggle : Accessor where
  name := "toggle"
  preferredType := .boolean
  get doc el := .bool (doc.checked el)
  set doc el value notify := (doc.setChecked el value.isTruthy).announce el .change notify
  setVisible doc el visible := (setSwitchInputs doc el visible).toggleOnField el "hidden" (!visible)

/-! ## Radio groups -/

def radioGroupSelector : Selector where
  source := ".coral-RadioGroup"
  alternatives := [[{ classes := ["coral-RadioGroup"] }]]

def radioMemberSelector : Selector where
  source := "coral-radio,input[type=\"radio\"]"
  alternatives :=
    [[{ tag := some "coral-radio" }],
      [{ tag := some "input", attributes := [⟨"type", some "radio"⟩] }]]

def radioGroupValue (doc : Document) (el : ElementId) : String :=
  match (doc.queryAll el radioMemberSelector).find? doc.checked with
  | some member => doc.value member
  | none => ""

def checkMembers (doc : Document) (el : ElementId) (wanted : String) : Document :=
  (doc.queryAll el radioMemberSelector).foldl
    (fun doc member => doc.setChecked member (doc.value member == wanted)) doc

def radioGroup : Accessor where
  name := "radio-group"
  get doc el := .text (radioGroupValue doc el)
  set doc el value notify := (checkMembers doc el value.toText).announce el .change notify

/-! ## Selects of several values -/

def multiValueSelector : Selector where
  source := "select[multiple],coral-select[multiple]"
  alternatives :=
    [[{ tag := some "select", attributes := [⟨"multiple", none⟩] }],
      [{ tag := some "coral-select", attributes := [⟨"multiple", none⟩] }]]

def optionSelector : Selector where
  source := "option,coral-select-item"
  alternatives := [[{ tag := some "option" }], [{ tag := some "coral-select-item" }]]

/-- The values of the selected options, in document order. -/
def selectedValues (doc : Document) (el : ElementId) : List Value :=
  ((doc.queryAll el optionSelector).filter (doc.hasAttribute · "selected")).map
    fun option => .text (doc.value option)

/-- The values of the options that a value selects: a list those of its items, undefined and null
none, and any other value its own text. -/
def wantedOptions : Value → List String
  | .list items => items.map Value.toText
  | .undefined | .null => []
  | value => [value.toText]

def selectOptions (doc : Document) (el : ElementId) (wanted : List String) : Document :=
  (doc.queryAll el optionSelector).foldl
    (fun doc option => doc.toggleAttribute option "selected" (wanted.contains (doc.value option)))
    doc

def multiValue : Accessor where
  name := "multi-value"
  preferredType := .any
  get doc el := .list (selectedValues doc el)
  set doc el value notify := (selectOptions doc el (wantedOptions value)).announce el .change notify

end FormDependencies.Accessor
