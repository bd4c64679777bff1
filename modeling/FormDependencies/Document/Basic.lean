import FormDependencies.Document.Forest
import FormDependencies.Text.Blank

/-!
Documents: elements with their attributes and field properties, a forest over them, and the events
that wait for delivery.

Elements are numbered in order of creation, the root being number zero. Every element stands in the
forest exactly once; those that are not attached stand there as trees of their own. Taking an
element out of its parent keeps the element, so that a name of an element never dangles. Functions
that read an unknown element give the answer for an empty one, and those that write do nothing.
-/

namespace FormDependencies

/-- What a document keeps about one element. -/
structure Element where
  tag : String
  /-- Names and values in order of first insertion. -/
  attributes : List (String × String) := []
  checked : Bool := false
  written : Option String := none
  pending : Bool := false

namespace Element

/-- A new element; tag names are kept in lower case. -/
def new (tag : String) : Element :=
  { tag := String.ofList (tag.toList.map Char.toLower) }

def attribute? (e : Element) (name : String) : Option String :=
  (e.attributes.find? fun entry => entry.1 == name).map (·.2)

/-- Sets a value in place, or at the end under a new name. -/
def setEntry (name value : String) : List (String × String) → List (String × String)
  | [] => [(name, value)]
  | entry :: rest =>
    if entry.1 = name then (name, value) :: rest else entry :: setEntry name value rest

def setAttribute (e : Element) (name value : String) : Element :=
  { e with attributes := setEntry name value e.attributes }

def removeAttribute (e : Element) (name : String) : Element :=
  { e with attributes := e.attributes.filter fun entry => entry.1 != name }

/-- The value property, which is the `value` attribute until it is written. -/
def value (e : Element) : String :=
  e.written.getD ((e.attribute? "value").getD "")

theorem attribute?_setAttribute (e : Element) (name other value : String) :
    (e.setAttribute name value).attribute? other =
      if name = other then some value else e.attribute? other := by
  suffices ∀ entries : List (String × String),
      ((setEntry name value entries).find? fun entry => entry.1 == other).map (·.2) =
        if name = other then some value
        else (entries.find? fun entry => entry.1 == other).map (·.2) from this e.attributes
  intro entries
  induction entries with
  | nil => by_cases h : name = other <;> simp [setEntry, h]
  | cons entry rest ih =>
    by_cases h : entry.1 = name
    · by_cases h' : name = other <;> simp [setEntry, h, h']
    · rw [setEntry, if_neg h, List.find?_cons, List.find?_cons]
      by_cases h' : entry.1 = other
      · simp [h', show name ≠ other from fun e => h (h'.trans e.symm)]
      · simp only [beq_false_of_ne h', ih]

theorem attribute?_removeAttribute (e : Element) (name other : String) :
    (e.removeAttribute name).attribute? other =
      if name = other then none else e.attribute? other := by
  by_cases h : name = other
  · simp [attribute?, removeAttribute, h]
  · simp only [attribute?, removeAttribute, h, if_false]
    rw [List.find?_filter]
    congr 2
    funext entry
    by_cases h' : entry.1 = other <;> simp [h', Ne.symm h]

end Element

structure Document where
  elements : Array Element
  forest : Forest
  outbox : List Event

namespace Document

def new : Document :=
  { elements := #[.new "body"], forest := .single .root .nil, outbox := [] }

instance : Inhabited Document := ⟨.new⟩

def size (doc : Document) : Nat := doc.elements.size

def isEmpty (doc : Document) : Bool := doc.size == 1

def element? (doc : Document) (el : ElementId) : Option Element :=
  doc.elements[el.number]?

def contains (doc : Document) (el : ElementId) : Bool :=
  el.number < doc.size

/-! ## Structure -/

def create (doc : Document) (tag : String) : Document × ElementId :=
  let el : ElementId := ⟨doc.size⟩
  ({ doc with
    elements := doc.elements.push (.new tag)
    forest := doc.forest.append (.single el .nil) }, el)

def ancestors (doc : Document) (el : ElementId) : List ElementId :=
  (doc.forest.above? el).getD []

def parent? (doc : Document) (el : ElementId) : Option ElementId :=
  (doc.ancestors el).head?

def below (doc : Document) (el : ElementId) : Forest :=
  (doc.forest.below? el).getD .nil

def children (doc : Document) (el : ElementId) : List ElementId :=
  (doc.below el).roots

/-- The proper descendants of an element in document order. -/
def descendants (doc : Document) (el : ElementId) : List ElementId :=
  (doc.below el).elements

def isWithin (doc : Document) (el ancestor : ElementId) : Bool :=
  (el == ancestor && doc.contains el) || (doc.ancestors el).contains ancestor

def isAttached (doc : Document) (el : ElementId) : Bool :=
  doc.isWithin el .root

/-- Whether `child` may be moved under `parent`: both exist, the child is not the root, and the
parent is not within the child. -/
def canAdopt (doc : Document) (parent child : ElementId) : Bool :=
  doc.contains parent && doc.contains child && child != .root && !doc.isWithin parent child

/-- The forest in which a subtree is taken out and put among the children of `parent` as `place`
says. -/
def moved (doc : Document) (parent child : ElementId) (place : Forest → Forest → Forest) : Forest :=
  (doc.forest.erase child).modifyBelow parent (place (.single child (doc.below child)))

/-- Moves an element to the end of the children of another. The answer says whether it may. -/
def append (doc : Document) (parent child : ElementId) : Document × Bool :=
  if doc.canAdopt parent child then
    ({ doc with forest := doc.moved parent child fun added row => row.append added }, true)
  else (doc, false)

/-- Moves an element in front of a child of another, or to the end of the children when `reference`
is none of them. The answer says whether it may. -/
def insertBefore (doc : Document) (parent child reference : ElementId) : Document × Bool :=
  if doc.canAdopt parent child && child != reference then
    ({ doc with
      forest := doc.moved parent child fun added => Forest.insertBefore added reference }, true)
  else (doc, false)

/-- Takes an element out of its parent. The answer says whether it had one. -/
def remove (doc : Document) (el : ElementId) : Document × Bool :=
  if (doc.parent? el).isSome then
    ({ doc with forest := (doc.forest.erase el).append (.single el (doc.below el)) }, true)
  else (doc, false)

/-! ## Attributes -/

def modify (doc : Document) (el : ElementId) (change : Element → Element) : Document :=
  { doc with elements := doc.elements.modify el.number change }

theorem element?_modify (doc : Document) (el other : ElementId) (change : Element → Element) :
    (doc.modify el change).element? other =
      if el = other then (doc.element? other).map change else doc.element? other := by
  cases el; cases other
  simp [modify, element?, Array.getElem?_modify]

def tag? (doc : Document) (el : ElementId) : Option String :=
  (doc.element? el).map (·.tag)

def attribute? (doc : Document) (el : ElementId) (name : String) : Option String :=
  (doc.element? el).bind (·.attribute? name)

def hasAttribute (doc : Document) (el : ElementId) (name : String) : Bool :=
  (doc.attribute? el name).isSome

/-- The attributes in order of first insertion. -/
def attributes (doc : Document) (el : ElementId) : List (String × String) :=
  ((doc.element? el).map (·.attributes)).getD []

def setAttribute (doc : Document) (el : ElementId) (name value : String) : Document :=
  doc.modify el (·.setAttribute name value)

def removeAttribute (doc : Document) (el : ElementId) (name : String) : Document :=
  doc.modify el (·.removeAttribute name)

def toggleAttribute (doc : Document) (el : ElementId) (name : String) (on : Bool) : Document :=
  if on then doc.setAttribute el name "true" else doc.removeAttribute el name

def hasClass (doc : Document) (el : ElementId) (name : String) : Bool :=
  match doc.attribute? el "class" with
  | some classes => (Text.words classes).contains name
  | none => false

/-! ## Field properties -/

def checked (doc : Document) (el : ElementId) : Bool :=
  ((doc.element? el).map (·.checked)).getD false

def setChecked (doc : Document) (el : ElementId) (on : Bool) : Document :=
  doc.modify el fun e => { e with checked := on }

def value (doc : Document) (el : ElementId) : String :=
  ((doc.element? el).map (·.value)).getD ""

def setValue (doc : Document) (el : ElementId) (value : String) : Document :=
  doc.modify el fun e => { e with written := some value }

def isPending (doc : Document) (el : ElementId) : Bool :=
  ((doc.element? el).map (·.pending)).getD false

def setPending (doc : Document) (el : ElementId) (on : Bool) : Document :=
  doc.modify el fun e => { e with pending := on }

/-- Whether neither an element nor anything below it is still setting itself up. -/
def isReady (doc : Document) (el : ElementId) : Bool :=
  !doc.isPending el && !(doc.descendants el).any doc.isPending

/-! ## Events -/

def trigger (doc : Document) (el : ElementId) (kind : EventKind) : Document :=
  if doc.contains el then { doc with outbox := doc.outbox ++ [⟨el, kind⟩] } else doc

def markReady (doc : Document) (el : ElementId) : Document :=
  if doc.isPending el then (doc.setPending el false).trigger el .componentReady else doc

def nextEvent (doc : Document) : Document × Option Event :=
  match doc.outbox with
  | [] => (doc, none)
  | event :: rest => ({ doc with outbox := rest }, some event)

def takeEvents (doc : Document) : Document × List Event :=
  ({ doc with outbox := [] }, doc.outbox)

def hasEvents (doc : Document) : Bool := !doc.outbox.isEmpty

end Document

end FormDependencies
