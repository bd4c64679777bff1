import FormDependencies.Document.Form

/-!
Templates: descriptions of elements with all that is below them, from which a document creates the
elements in document order.
-/

namespace FormDependencies

/-- A description of an element. -/
inductive Template where
  | node (tag : String) (attributes : List (String × String)) (checked : Bool)
      (value : Option String) (pending : Bool) (children : List Template)

instance : Inhabited Template := ⟨.node "div" [] false none false []⟩

namespace Document

/-- Creates one element with its attributes under a parent, then sets its properties. The element
stays without a parent when the parent may not adopt it. -/
def instantiateNode (doc : Document) (parent : ElementId) (tag : String)
    (attributes : List (String × String)) (checked : Bool) (value : Option String)
    (pending : Bool) : Document × ElementId :=
  let (doc, el) := doc.appendNew parent tag attributes
  let doc := doc.setChecked el checked
  let doc := match value with
    | some value => doc.setValue el value
    | none => doc
  (doc.setPending el pending, el)

mutual

/-- Creates the elements of a template under a parent; gives the topmost one. -/
def instantiate (doc : Document) (parent : ElementId) : Template → Document × ElementId
  | .node tag attributes checked value pending children =>
    let (doc, el) := doc.instantiateNode parent tag attributes checked value pending
    ((instantiateAll doc el children).1, el)

/-- Creates the elements of templates one after the other under a parent; gives the topmost ones. -/
def instantiateAll (doc : Document) (parent : ElementId) :
    List Template → Document × List ElementId
  | [] => (doc, [])
  | template :: rest =>
    let (doc, el) := instantiate doc parent template
    let (doc, els) := instantiateAll doc parent rest
    (doc, el :: els)

end

end Document

end FormDependencies
