import FormDependencies.Engine.Basic

/-!
What one pass does: it reclaims references, registers those of the container, computes the groups
anew, destroys the observers of detached elements, creates those of the container and evaluates
each new one at once, empties the queue, and last lets the host act. An element with a wrong
declaration is left out; the error is kept.
-/

namespace FormDependencies

namespace Document

/-- The elements within the subtree of a container that carry an attribute, the container first. -/
def carriers (doc : Document) (container : ElementId) (name : String) : List ElementId :=
  (container :: doc.descendants container).filter (doc.hasAttribute · name)

end Document

namespace Engine
variable {ν : Type}

/-- Registers the references of elements. The answer is the number of those that have one. -/
def registerEach (e : Engine ν) (doc : Document) : List ElementId → Engine ν × Nat
  | [] => (e, 0)
  | el :: rest =>
    let (bindings, r) := e.bindings.register doc e.accessors e.config el
    let (e, count) := { e with bindings }.registerEach doc rest
    (e, if r.isSome then count + 1 else count)

def evaluateEach (e : Engine ν) (doc : Document) :
    List ObserverId → Engine ν × Document × List DependencyError
  | [] => (e, doc, [])
  | id :: rest =>
    let (bindings, doc, result) := e.bindings.evaluateNow doc e.environment id
    let (e, doc, errors) := { e with bindings }.evaluateEach doc rest
    (e, doc, match result with
      | .ok _ => errors
      | .error error => error :: errors)

/-- Creates the observers of an element and evaluates each of them. The answer is their number. -/
def initElement (e : Engine ν) (doc : Document) (el : ElementId) : Engine ν × Document × Nat :=
  match e.bindings.init doc el e.actions e.config with
  | (bindings, .error error) => ({ e with bindings }.recordError error, doc, 0)
  | (bindings, .ok ids) =>
    let (e, doc, errors) := { e with bindings }.evaluateEach doc ids
    (e.recordErrors errors, doc, ids.length)

/-- Creates the observers of elements. The answer is their number. -/
def initEach (e : Engine ν) (doc : Document) : List ElementId → Engine ν × Document × Nat
  | [] => (e, doc, 0)
  | el :: rest =>
    let (e, doc, n) := e.initElement doc el
    let (e, doc, count) := e.initEach doc rest
    (e, doc, n + count)

/-- Brings the bindings up to date with the content of an attached container. -/
def scan (e : Engine ν) (doc : Document) (container : ElementId) : Engine ν × Document :=
  let (bindings, reclaimed) := e.bindings.actualizeReferences doc
  let (e, registered) :=
    { e with bindings }.registerEach doc (doc.carriers container e.config.referenceAttribute)
  let bindings := (e.bindings.actualizeGroups doc).1
  let (bindings, destroyed) := bindings.actualizeObservers doc
  let (e, doc, created) :=
    { e with bindings }.initEach doc (doc.carriers container e.config.queryAttribute)
  let (e, doc) := e.flush doc
  (e.log (.passDone container reclaimed registered destroyed created), doc)

/-- Runs a pass. A pass over a detached container does nothing but let the host act. -/
def runPass (e : Engine ν) (doc : Document) (pass : Pass ν) : Engine ν × Document :=
  let (e, doc) :=
    if doc.isAttached pass.container then e.scan doc pass.container
    else (e.log (.passDetached pass.container), doc)
  match pass.callback with
  | none => (e, doc)
  | some callback =>
    let (doc, notes) := callback doc
    ({ e with bindings := e.bindings.recordNotes notes }, doc)

end Engine

end FormDependencies
