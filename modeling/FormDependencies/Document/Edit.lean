import FormDependencies.Document.Basic

/-!
What the host can do to a document, one step at a time. Whatever it builds or changes is a sequence
of such steps.
-/

namespace FormDependencies

inductive Edit where
  | create (tag : String)
  | append (parent child : ElementId)
  | insertBefore (parent child reference : ElementId)
  | remove (el : ElementId)
  | setAttribute (el : ElementId) (name value : String)
  | removeAttribute (el : ElementId) (name : String)
  | setChecked (el : ElementId) (on : Bool)
  | setValue (el : ElementId) (value : String)
  | setPending (el : ElementId) (on : Bool)
  | markReady (el : ElementId)
  | trigger (el : ElementId) (kind : EventKind)
  | nextEvent
  | takeEvents

namespace Document

def edit (doc : Document) : Edit → Document
  | .create tag => (doc.create tag).1
  | .append parent child => (doc.append parent child).1
  | .insertBefore parent child reference => (doc.insertBefore parent child reference).1
  | .remove el => (doc.remove el).1
  | .setAttribute el name value => doc.setAttribute el name value
  | .removeAttribute el name => doc.removeAttribute el name
  | .setChecked el on => doc.setChecked el on
  | .setValue el value => doc.setValue el value
  | .setPending el on => doc.setPending el on
  | .markReady el => doc.markReady el
  | .trigger el kind => doc.trigger el kind
  | .nextEvent => doc.nextEvent.1
  | .takeEvents => doc.takeEvents.1

def editAll (doc : Document) (edits : List Edit) : Document := edits.foldl edit doc

end Document

end FormDependencies
