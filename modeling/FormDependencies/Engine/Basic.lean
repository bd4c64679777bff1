import FormDependencies.Binding.Evaluation
import FormDependencies.Widget.Validation

/-!
The engine of one document: configuration, accessors, actions, evaluator and bindings, with the
passes that are scheduled and the errors that were collected.

A pass brings the bindings up to date with the content of a container. It waits in the queue of
ready passes, or is parked as long as something in its container is still setting itself up.
-/

namespace FormDependencies

/-- A scheduled pass over a container, with what the host does at its end. -/
structure Pass (ν : Type) where
  container : ElementId
  callback : Option (Document → Document × List ν) := none

structure Engine (ν : Type) where
  config : Config
  collection : Selector
  accessors : AccessorTable := .builtin
  actions : ActionTable ν := .builtin
  evaluator : Evaluator
  bindings : Bindings ν := {}
  /-- The passes that can run, oldest first. -/
  ready : List (Pass ν) := []
  /-- The passes that wait for their container, oldest first. -/
  parked : List (Pass ν) := []
  /-- The errors that have not been taken, oldest first. -/
  errors : List DependencyError := []

namespace AccessorTable

def registration (table : AccessorTable) (selector : Selector) (accessor : Accessor) : LogEvent :=
  .accessorRegistered selector.source accessor.name (table.shadows selector)

def builtinRegistrations : List LogEvent :=
  [(Accessor.toggleSelector, Accessor.toggle), (Accessor.radioGroupSelector, .radioGroup),
    (Accessor.multiValueSelector, .multiValue)].map fun entry =>
      .accessorRegistered entry.1.source entry.2.name false

end AccessorTable

/-- What is logged when an action is registered under the name that a text gives. -/
def ActionTable.registration {ν : Type} (table : ActionTable ν) (raw name : String) :
    List LogEvent :=
  (if name = Text.trim raw then [] else [.actionRenamed raw name]) ++
    (if table.contains name then [.actionOverwritten name] else [])

namespace Engine
variable {ν : Type}

/-- An engine with a configuration and an evaluator, and with all that is built in. -/
def create (config : Config) (evaluator : Evaluator) : Except DependencyError (Engine ν) := do
  let collection ← config.collection
  let bindings : Bindings ν := AccessorTable.builtinRegistrations.foldl Bindings.log {}
  return { config, collection, evaluator, bindings }

def log (e : Engine ν) (event : LogEvent) : Engine ν :=
  { e with bindings := e.bindings.log event }

def environment (e : Engine ν) : Environment where
  accessors := e.accessors
  config := e.config
  evaluator := e.evaluator

def registerAccessor (e : Engine ν) (selector : String) (accessor : Accessor) :
    Except DependencyError (Engine ν) :=
  match Selector.parse selector with
  | .error cause => .error (.invalidSelector .accessorRegistration cause)
  | .ok selector =>
    .ok { e.log (e.accessors.registration selector accessor) with
      accessors := e.accessors.register selector accessor }

def registerAction (e : Engine ν) (raw : String) (action : Action ν) :
    Except DependencyError (Engine ν × String) := do
  let (actions, name) ← e.actions.register raw action
  let bindings := (e.actions.registration raw name).foldl Bindings.log e.bindings
  return ({ e with actions, bindings }, name)

def isExcluded (e : Engine ν) (doc : Document) (el : ElementId) : Bool :=
  doc.isExcluded el (Document.controlMarks e.config)

def hasPendingWork (e : Engine ν) : Bool :=
  !e.ready.isEmpty || !e.parked.isEmpty

def takeErrors (e : Engine ν) : Engine ν × List DependencyError :=
  ({ e with errors := [] }, e.errors)

def recordError (e : Engine ν) (error : DependencyError) : Engine ν :=
  { e.log (.failure error) with errors := e.errors ++ [error] }

/-- Logs errors in order and keeps them. -/
def recordErrors (e : Engine ν) (errors : List DependencyError) : Engine ν :=
  errors.foldl recordError e

/-! ## Scheduling -/

/-- Schedules a pass: it is ready when its container is. -/
def schedule (e : Engine ν) (doc : Document) (pass : Pass ν) : Engine ν :=
  if doc.isReady pass.container then
    { e.log (.passQueued pass.container) with ready := e.ready ++ [pass] }
  else { e.log (.passParked pass.container) with parked := e.parked ++ [pass] }

def request (e : Engine ν) (doc : Document) (container : ElementId)
    (callback : Option (Document → Document × List ν)) : Engine ν :=
  e.schedule doc { container, callback }

def dropDetached (e : Engine ν) (doc : Document) : Engine ν :=
  let gone := e.parked.filter fun pass => !doc.isAttached pass.container
  let bindings := gone.foldl (fun b pass => b.log (.passDropped pass.container)) e.bindings
  { e with bindings, parked := e.parked.filter fun pass => doc.isAttached pass.container }

/-- Moves the parked passes whose container is ready now to the ready ones. -/
def unpark (e : Engine ν) (doc : Document) : Engine ν :=
  let e := e.dropDetached doc
  let (ready, waiting) := e.parked.partition fun pass => doc.isReady pass.container
  { e with ready := e.ready ++ ready, parked := waiting }

def flush (e : Engine ν) (doc : Document) : Engine ν × Document :=
  let (bindings, doc, report) := e.bindings.flush doc e.environment
  ({ e with bindings }.recordErrors report.errors, doc)

end Engine

end FormDependencies
