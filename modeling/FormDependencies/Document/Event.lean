/-!
Elements are named by numbers, and events are what happened to an element.
-/

namespace FormDependencies

/-- The name of an element within one document. -/
structure ElementId where
  number : Nat
deriving DecidableEq

namespace ElementId

def root : ElementId := ⟨0⟩

def display (el : ElementId) : String := "#" ++ toString el.number

end ElementId

inductive EventKind where
  | contentLoaded
  | change
  | selected
  | collectionAdd
  | collectionRemove
  | componentReady
deriving DecidableEq

namespace EventKind

/-- The kinds, in the order in which they are listed. -/
def all : List EventKind :=
  [.contentLoaded, .change, .selected, .collectionAdd, .collectionRemove, .componentReady]

def name : EventKind → String
  | .contentLoaded => "ContentLoaded"
  | .change => "Change"
  | .selected => "Selected"
  | .collectionAdd => "CollectionAdd"
  | .collectionRemove => "CollectionRemove"
  | .componentReady => "ComponentReady"

def ofName? (name : String) : Option EventKind :=
  all.find? fun kind => kind.name == name

def isValueChange : EventKind → Bool
  | .change | .selected => true
  | _ => false

def isCollectionChange : EventKind → Bool
  | .collectionAdd | .collectionRemove => true
  | _ => false

end EventKind

structure Event where
  target : ElementId
  kind : EventKind
deriving DecidableEq

end FormDependencies
