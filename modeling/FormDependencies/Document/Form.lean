import FormDependencies.Widget.Accessor

/-!
Building forms: the shapes of the widgets that the built-in accessors know, and what a user does to
them. A user's deed changes the document and queues the event that it causes.
-/

namespace FormDependencies

namespace Document

/-- Creates an element with attributes at the end of the children of another. -/
def appendNew (doc : Document) (parent : ElementId) (tag : String)
    (attributes : List (String × String)) : Document × ElementId :=
  let (doc, el) := doc.create tag
  let doc := attributes.foldl (fun doc entry => doc.setAttribute el entry.1 entry.2) doc
  ((doc.append parent el).1, el)

def appendEach (doc : Document) (parent : ElementId) (tag : String) :
    List (List (String × String)) → Document × List ElementId
  | [] => (doc, [])
  | attributes :: rest =>
    let (doc, el) := doc.appendNew parent tag attributes
    let (doc, els) := doc.appendEach parent tag rest
    (doc, el :: els)

end Document

namespace Form

def referenceAttribute : String := "data-dependsonref"

def element : ElementId := ⟨1⟩

def new : Document :=
  (Document.new.appendNew .root "form" [("class", "coral-Form")]).1

/-- A field inside its wrapper. -/
structure Field where
  wrapper : ElementId
  input : ElementId

def addField (doc : Document) (tag : String) (attributes : List (String × String)) :
    Document × Field :=
  let (doc, wrapper) := doc.appendNew element "div" [("class", fieldWrapperClass)]
  let (doc, input) := doc.appendNew wrapper tag attributes
  (doc, ⟨wrapper, input⟩)

def addCheckbox (doc : Document) (name : String) : Document × Field :=
  addField doc "input" [("type", "checkbox"), (referenceAttribute, name)]

def addSwitch (doc : Document) (name : String) : Document × Field :=
  let (doc, field) := addField doc "coral-switch" [(referenceAttribute, name)]
  let (doc, _) := doc.appendNew field.input "input"
    [("type", "checkbox"), ("class", "coral3-Switch-input")]
  (doc, field)

def addText (doc : Document) (attributes : List (String × String)) : Document × Field :=
  addField doc "input" (("type", "text") :: attributes)

def addReference (doc : Document) (name value : String) : Document × Field :=
  addText doc [(referenceAttribute, name), ("value", value)]

def addDependent (doc : Document) (query : String) (attributes : List (String × String)) :
    Document × Field :=
  addText doc (("data-dependson", query) :: attributes)

/-- Adds a radio group that declares a reference, with a radio button for each value. -/
def addRadioGroup (doc : Document) (name : String) (values : List String) :
    Document × ElementId × List ElementId :=
  let (doc, group) := doc.appendNew element "div"
    [("class", "coral-RadioGroup"), (referenceAttribute, name)]
  let (doc, radios) := doc.appendEach group "input"
    (values.map fun value => [("type", "radio"), ("name", name), ("value", value)])
  (doc, group, radios)

def addMultiSelect (doc : Document) (name : String) (options : List String) :
    Document × ElementId × List ElementId :=
  let (doc, select) := doc.appendNew element "select" [("multiple", ""), (referenceAttribute, name)]
  let (doc, items) := doc.appendEach select "option" (options.map fun value => [("value", value)])
  (doc, select, items)

/-- A collection whose members declare one reference. -/
structure Collection where
  element : ElementId
  name : String
  items : List ElementId

def addMember (doc : Document) (collection : Collection) (value : String) :
    Document × Collection × ElementId :=
  let (doc, item) := doc.appendNew collection.element "coral-multifield-item" []
  let (doc, input) := doc.appendNew item "input"
    [("type", "text"), (referenceAttribute, collection.name), ("value", value)]
  (doc, { collection with items := collection.items ++ [input] }, input)

/-- Adds members to a collection in order. -/
def addMembers (doc : Document) (collection : Collection) : List String → Document × Collection
  | [] => (doc, collection)
  | value :: rest =>
    let (doc, collection, _) := addMember doc collection value
    addMembers doc collection rest

def addCollection (doc : Document) (name : String) (values : List String) :
    Document × Collection :=
  let (doc, el) := doc.appendNew element "coral-multifield" []
  addMembers doc ⟨el, name, []⟩ values

def insertItem (doc : Document) (collection : Collection) (value : String) :
    Document × Collection × ElementId :=
  let (doc, collection, input) := addMember doc collection value
  (doc.trigger collection.element .collectionAdd, collection, input)

/-- A user removes the member at a place, if there is one, with the element around it. -/
def removeItem (doc : Document) (collection : Collection) (index : Nat) :
    Document × Collection × Option ElementId :=
  match collection.items[index]? with
  | none => (doc, collection, none)
  | some input =>
    let item := (doc.parent? input).getD input
    let doc := (doc.remove item).1
    (doc.trigger collection.element .collectionRemove,
      { collection with items := collection.items.eraseIdx index }, some input)

def setChecked (doc : Document) (el : ElementId) (on : Bool) : Document :=
  (doc.setChecked el on).trigger el .change

def typeText (doc : Document) (el : ElementId) (text : String) : Document :=
  (doc.setValue el text).trigger el .change

/-- A user picks the radio button of a value; the last one of that value reports the change. -/
def pickRadio (doc : Document) (radios : List ElementId) (value : String) : Document :=
  let doc := radios.foldl (fun doc radio => doc.setChecked radio (doc.value radio == value)) doc
  match (radios.filter fun radio => doc.value radio == value).getLast? with
  | some radio => doc.trigger radio .change
  | none => doc

end Form

end FormDependencies
