import FormDependencies.Document.Basic

/-!
Selectors: which elements of a document are meant. A selector is a list of alternatives, each a
chain of compounds from the outermost to the element itself, every compound but the last matching
some element above the next.
-/

namespace FormDependencies

/-- A required attribute, with its value unless any value will do. -/
structure AttributeTest where
  name : String
  value : Option String
deriving DecidableEq

/-- The requirements on one element. A tag of `*` stands for any. -/
structure Compound where
  tag : Option String := none
  classes : List String := []
  attributes : List AttributeTest := []
deriving DecidableEq

/-- A chain of compounds, outermost first. -/
abbrev Chain := List Compound

/-- A parsed selector with the text that it comes from. -/
structure Selector where
  source : String
  alternatives : List Chain
deriving DecidableEq

namespace AttributeTest

def holds (test : AttributeTest) (doc : Document) (el : ElementId) : Bool :=
  match doc.attribute? el test.name, test.value with
  | some _, none => true
  | some actual, some expected => actual == expected
  | none, _ => false

end AttributeTest

namespace Compound

def isEmpty (c : Compound) : Bool :=
  c.tag.isNone && c.classes.isEmpty && c.attributes.isEmpty

def allowsTag (c : Compound) (tag : String) : Bool :=
  match c.tag with
  | none => true
  | some expected => expected == "*" || expected == tag

def holds (c : Compound) (doc : Document) (el : ElementId) : Bool :=
  match doc.tag? el with
  | none => false
  | some tag =>
    c.allowsTag tag && c.classes.all (doc.hasClass el) && c.attributes.all (·.holds doc el)

end Compound

namespace Chain

/-- Finds the compounds, innermost first, among the elements, nearest first. Each compound takes the
nearest element that it can, which leaves the most to the others. -/
def holdsAmong (doc : Document) : List Compound → List ElementId → Bool
  | [], _ => true
  | _ :: _, [] => false
  | c :: cs, el :: els =>
    if c.holds doc el then holdsAmong doc cs els else holdsAmong doc (c :: cs) els

/-- Whether an element meets the last compound and its ancestors meet the others. -/
def holds (chain : Chain) (doc : Document) (el : ElementId) : Bool :=
  match chain.reverse with
  | [] => false
  | subject :: rest => subject.holds doc el && holdsAmong doc rest (doc.ancestors el)

end Chain

namespace Selector

def carrying (name : String) : Selector :=
  { source := "[" ++ name ++ "]", alternatives := [[{ attributes := [⟨name, none⟩] }]] }

def holds (s : Selector) (doc : Document) (el : ElementId) : Bool :=
  s.alternatives.any fun chain => Chain.holds chain doc el

end Selector

namespace Document

def closest? (doc : Document) (el : ElementId) (s : Selector) : Option ElementId :=
  if doc.contains el then (el :: doc.ancestors el).find? (s.holds doc) else none

/-- The descendants that a selector means, in document order. -/
def queryAll (doc : Document) (container : ElementId) (s : Selector) : List ElementId :=
  (doc.descendants container).filter (s.holds doc)

/-- The descendants that carry an attribute, in document order. -/
def queryAttribute (doc : Document) (container : ElementId) (name : String) : List ElementId :=
  (doc.descendants container).filter (doc.hasAttribute · name)

end Document

end FormDependencies
