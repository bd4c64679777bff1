import FormDependencies.Error
import FormDependencies.Value.RefType

/-!
What is logged: events with a level, a message and fields of text.
-/

namespace FormDependencies

/-- The name of an observer. -/
structure ObserverId where
  number : Nat
deriving DecidableEq

def ObserverId.display (id : ObserverId) : String := "observer#" ++ toString id.number

inductive LogLevel where
  | error
  | warn
  | debug
  | trace
deriving DecidableEq

namespace LogLevel

def name : LogLevel → String
  | .error => "ERROR"
  | .warn => "WARN"
  | .debug => "DEBUG"
  | .trace => "TRACE"

/-- How much is shown at a level: each level shows what the ones before it show. -/
def verbosity : LogLevel → Nat
  | .error => 0
  | .warn => 1
  | .debug => 2
  | .trace => 3

end LogLevel

inductive LogEvent where
  | jsonCast (text : String)
  | accessorRegistered (selector accessor : String) (shadows : Bool)
  | actionRenamed (requested name : String)
  | actionOverwritten (name : String)
  | invalidName (el : ElementId) (name : String)
  | invalidType (el : ElementId) (error : RefType.Unknown)
  | redeclared (el : ElementId) (fromName toName : String)
  | registered (el : ElementId) (name : String) (type : RefType)
  | reclaimed (count live : Nat)
  | reread (el : ElementId) (name : String) (value : Value)
  | groupCreated (name : String) (scope : ElementId) (members : Nat)
  | groupsActualized (dropped changed live : Nat)
  | observersCreated (el : ElementId) (observers replaced : Nat)
  | observersDestroyed (count live : Nat)
  | cascadeLimit (observer : ObserverId) (limit : Nat)
  | evaluated (observer : ObserverId) (el : ElementId) (query : String) (result : Value)
  | passQueued (container : ElementId)
  | passParked (container : ElementId)
  | passDropped (container : ElementId)
  | passDetached (container : ElementId)
  | passDone (container : ElementId) (reclaimed registered destroyed created : Nat)
  | pumped (processed : Nat)
  | event (event : Event)
  | failure (error : DependencyError)

namespace LogEvent

def level : LogEvent → LogLevel
  | .failure .. => .error
  | .jsonCast .. | .actionRenamed .. | .actionOverwritten .. | .invalidName .. | .invalidType ..
  | .cascadeLimit .. => .warn
  | .reread .. | .evaluated .. | .passQueued .. | .event .. => .trace
  | _ => .debug

def message : LogEvent → String
  | .jsonCast .. => "dependson.value.json_cast"
  | .accessorRegistered .. => "dependson.accessor.register"
  | .actionRenamed .. => "dependson.action.rename"
  | .actionOverwritten .. => "dependson.action.overwrite"
  | .invalidName .. => "dependson.reference.invalid_name"
  | .invalidType .. => "dependson.reference.invalid_type"
  | .redeclared .. => "dependson.reference.redeclare"
  | .registered .. => "dependson.reference.register"
  | .reclaimed .. => "dependson.reference.actualize"
  | .reread .. => "dependson.reference.change"
  | .groupCreated .. => "dependson.group.create"
  | .groupsActualized .. => "dependson.group.actualize"
  | .observersCreated .. => "dependson.observer.init"
  | .observersDestroyed .. => "dependson.observer.actualize"
  | .cascadeLimit .. => "dependson.observer.cascade_limit"
  | .evaluated .. => "dependson.observer.evaluate"
  | .passQueued .. => "dependson.initialize.queue"
  | .passParked .. => "dependson.initialize.park"
  | .passDropped .. => "dependson.initialize.drop"
  | .passDetached .. => "dependson.initialize.detached"
  | .passDone .. => "dependson.initialize"
  | .pumped .. => "dependson.pump"
  | .event .. => "dependson.event"
  | .failure .. => "dependson.error"

def flagText (b : Bool) : String := if b then "true" else "false"

def fields : LogEvent → List (String × String)
  | .jsonCast text => [("text", text)]
  | .accessorRegistered selector accessor shadows =>
    [("selector", selector), ("accessor", accessor), ("shadows", flagText shadows)]
  | .actionRenamed requested name => [("requested", requested), ("name", name)]
  | .actionOverwritten name => [("name", name)]
  | .invalidName el name => [("element", el.display), ("name", name)]
  | .invalidType el error => [("element", el.display), ("error", error.message)]
  | .redeclared el fromName toName =>
    [("element", el.display), ("from", fromName), ("to", toName)]
  | .registered el name type =>
    [("element", el.display), ("name", name), ("ref_type", type.name)]
  | .reclaimed count live => [("reclaimed", toString count), ("live", toString live)]
  | .reread el name value => [("element", el.display), ("name", name), ("value", value.display)]
  | .groupCreated name scope members =>
    [("name", name), ("scope", scope.display), ("members", toString members)]
  | .groupsActualized dropped changed live =>
    [("dropped", toString dropped), ("changed", toString changed), ("live", toString live)]
  | .observersCreated el observers replaced =>
    [("element", el.display), ("observers", toString observers), ("replaced", toString replaced)]
  | .observersDestroyed count live => [("destroyed", toString count), ("live", toString live)]
  | .cascadeLimit observer limit => [("observer", observer.display), ("limit", toString limit)]
  | .evaluated observer el query result =>
    [("observer", observer.display), ("element", el.display), ("query", query),
      ("result", result.display)]
  | .passQueued container | .passParked container | .passDropped container
  | .passDetached container => [("container", container.display)]
  | .passDone container gone found destroyed created =>
    [("container", container.display), ("reclaimed", toString gone),
      ("registered", toString found), ("destroyed", toString destroyed),
      ("created", toString created)]
  | .pumped processed => [("processed", toString processed)]
  | .event e => [("target", e.target.display), ("kind", e.kind.name)]
  | .failure e => [("kind", e.kind), ("error", e.message)]

end LogEvent

end FormDependencies
