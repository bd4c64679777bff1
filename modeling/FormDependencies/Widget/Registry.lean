import FormDependencies.Widget.Builtin

/-!
The table of accessors. Every entry has a selector, and the newest entry that means an element is
the one for it, so a later entry shadows an earlier one without removing it. An element without an
entry is a plain field.
-/

namespace FormDependencies

/-- The accessors with their selectors, oldest first. -/
structure AccessorTable where
  entries : List (Selector × Accessor) := []

namespace AccessorTable

def empty : AccessorTable := {}

def register (table : AccessorTable) (selector : Selector) (accessor : Accessor) : AccessorTable :=
  ⟨table.entries ++ [(selector, accessor)]⟩

def shadows (table : AccessorTable) (selector : Selector) : Bool :=
  table.entries.any fun entry => entry.1 == selector

def builtin : AccessorTable :=
  ((empty.register Accessor.toggleSelector .toggle).register
    Accessor.radioGroupSelector .radioGroup).register Accessor.multiValueSelector .multiValue

def size (table : AccessorTable) : Nat := table.entries.length

def resolve (table : AccessorTable) (doc : Document) (el : ElementId) : Accessor :=
  match table.entries.reverse.find? fun entry => entry.1.holds doc el with
  | some entry => entry.2
  | none => .plain

def get (table : AccessorTable) (doc : Document) (el : ElementId) : Value :=
  (table.resolve doc el).get doc el

def typeAt (table : AccessorTable) (doc : Document) (el : ElementId) (type : RefType) : RefType :=
  if type = .auto then (table.resolve doc el).preferredType else type

def getTyped (table : AccessorTable) (doc : Document) (el : ElementId) (type : RefType) : Value :=
  (table.get doc el).cast (table.typeAt doc el type)

/-- The text that `getTyped` fails to convert, if it fails. -/
def castFailure? (table : AccessorTable) (doc : Document) (el : ElementId) (type : RefType) :
    Option String :=
  (table.get doc el).castFailure? (table.typeAt doc el type)

def set (table : AccessorTable) (doc : Document) (el : ElementId) (value : Value) (notify : Bool) :
    Document :=
  (table.resolve doc el).set doc el value notify

def setVisible (table : AccessorTable) (doc : Document) (el : ElementId) (on : Bool) : Document :=
  (table.resolve doc el).setVisible doc el on

def setDisabled (table : AccessorTable) (doc : Document) (el : ElementId) (on : Bool) : Document :=
  (table.resolve doc el).setDisabled doc el on

def setReadonly (table : AccessorTable) (doc : Document) (el : ElementId) (on : Bool) : Document :=
  (table.resolve doc el).setReadonly doc el on

def setRequired (table : AccessorTable) (doc : Document) (el : ElementId) (on : Bool) : Document :=
  (table.resolve doc el).setRequired doc el on

end AccessorTable

end FormDependencies
