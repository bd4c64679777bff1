import FormDependencies.Action.Registry
import FormDependencies.Log
import FormDependencies.Query.Basic
import FormDependencies.Query.Values
import FormDependencies.Reactive.Observable

/-!
The state that binds queries to references: references with their observable values, groups of
references, and observers with what they are subscribed to.

Values of references and groups live in slots. A slot is never given up, so whoever still knows it
can read it: the slot of a reference that is gone reads as undefined. Besides its value, every name
of a reference has an epoch, opened when it is first asked for, which counts how often the set of
elements of that name changed.

A change calls its subscribers at once, but an observer that is called only joins the queue of those
that wait for evaluation, each at most once. So a call never causes another change.

Whatever happens is written into a journal: log events, notes of the host, what evaluations have
read, and the expressions that were handed to the evaluator.
-/

namespace FormDependencies

/-- The name of a slot. -/
structure SlotId where
  index : Nat
deriving DecidableEq

/-- Who is called about the change of a slot. -/
inductive Listener (ν : Type) where
  | observer (id : ObserverId)
  /-- The host, who makes a note of the value. -/
  | host (note : Value → ν)

/-- What can be subscribed to. -/
inductive Source where
  | epoch (name : String)
  | slot (id : SlotId)
deriving DecidableEq

/-- What was read of a source: the version that it had. -/
structure Reading where
  source : Source
  version : Nat
deriving DecidableEq

/-- A subscription: its source and the number of the subscriber. -/
structure Subscription where
  source : Source
  number : Nat
deriving DecidableEq

/-- A registered reference: the element stands for the name. -/
structure Reference where
  element : ElementId
  name : String
  type : RefType
  slot : SlotId
deriving DecidableEq

/-- All references of one name within the subtree of one element. -/
structure Group where
  name : String
  scope : ElementId
  /-- The elements of the references, in document order. -/
  members : List ElementId
  slot : SlotId
deriving DecidableEq

/-- A query on an element whose result drives an action. -/
structure Observer (ν : Type) where
  id : ObserverId
  element : ElementId
  query : Query
  actionName : String
  action : Action ν
  /-- Whether the result is negated before the action sees it. -/
  negated : Bool
  skipsInitial : Bool
  parameters : KeyedList String
  /-- The elements that the action is applied to, instead of the element itself. -/
  target : Option Selector
  evaluations : Nat := 0
  lastResult : Option Value := none
  subscriptions : List Subscription := []

/-- The observers of one element, with the text of the declarations that they come from. -/
structure ElementObservers where
  element : ElementId
  signature : String
  ids : List ObserverId

/-- What the journal holds. -/
inductive Entry (ν : Type) where
  | log (event : LogEvent)
  | note (n : ν)
  | lookedUp (observer : ObserverId) (readings : List Reading)
  | expression (text : String)

structure Bindings (ν : Type) where
  slots : Array (Observable Value (Listener ν)) := #[]
  epochs : List (String × Observable Nat ObserverId) := []
  /-- One reference at most for each element, in order of elements. -/
  references : List Reference := []
  groups : List Group := []
  observers : List (Observer ν) := []
  /-- The elements that have been initialised, in order of elements. -/
  declared : List ElementObservers := []
  /-- The observers that wait for evaluation, each once, in the order in which they joined. -/
  pending : List ObserverId := []
  turn : List (ObserverId × Nat) := []
  nextObserver : Nat := 0
  nextSubscription : Nat := 0
  /-- What happened, latest first. -/
  journal : List (Entry ν) := []

namespace Bindings
variable {ν : Type}

def empty : Bindings ν := {}

/-! ## The journal -/

def record (b : Bindings ν) (entry : Entry ν) : Bindings ν :=
  { b with journal := entry :: b.journal }

def log (b : Bindings ν) (event : LogEvent) : Bindings ν :=
  b.record (.log event)

/-- Logs the text that a conversion failed to read, if it failed. -/
def logCast (b : Bindings ν) (failure : Option String) : Bindings ν :=
  match failure with
  | some text => b.log (.jsonCast text)
  | none => b

/-- Records notes of the host in order. -/
def recordNotes (b : Bindings ν) (notes : List ν) : Bindings ν :=
  notes.foldl (fun b n => b.record (.note n)) b

/-! ## The queue -/

/-- Queues an observer unless it waits already. -/
def push (b : Bindings ν) (id : ObserverId) : Bindings ν :=
  if b.pending.contains id then b else { b with pending := b.pending ++ [id] }

/-! ## Slots and epochs -/

def newSlot (b : Bindings ν) (value : Value) : Bindings ν × SlotId :=
  ({ b with slots := b.slots.push { value } }, ⟨b.slots.size⟩)

def slot (b : Bindings ν) (id : SlotId) : Observable Value (Listener ν) :=
  b.slots.getD id.index { value := .undefined }

def read (b : Bindings ν) (id : SlotId) : Value := (b.slot id).value

def call (b : Bindings ν) (value : Value) : Listener ν → Bindings ν
  | .observer id => b.push id
  | .host note => b.record (.note (note value))

/-- Stores a value in a slot, and calls the subscribers when it is a change. -/
def write (b : Bindings ν) (id : SlotId) (value : Value) : Bindings ν × Bool :=
  let (o, changed) := (b.slot id).set value
  if changed then
    (o.subscribers.foldl (fun b entry => b.call value entry.2)
      { b with slots := b.slots.setIfInBounds id.index o }, true)
  else (b, false)

/-- The epoch of a name, if it is open. -/
def epoch? (b : Bindings ν) (name : String) : Option (Observable Nat ObserverId) :=
  (b.epochs.find? fun entry => entry.1 == name).map (·.2)

/-- Opens the epoch of a name, at zero, unless it is open. -/
def openEpoch (b : Bindings ν) (name : String) : Bindings ν :=
  if (b.epoch? name).isSome then b else { b with epochs := b.epochs ++ [(name, { value := 0 })] }

def modifyEpoch (b : Bindings ν) (name : String)
    (change : Observable Nat ObserverId → Observable Nat ObserverId) : Bindings ν :=
  { b with epochs := b.epochs.map fun entry =>
      if entry.1 == name then (entry.1, change entry.2) else entry }

/-- Advances the epoch of a name, if it is open, and calls its subscribers. -/
def bump (b : Bindings ν) (name : String) : Bindings ν :=
  match b.epoch? name with
  | none => b
  | some o =>
    o.subscribers.foldl (fun b entry => b.push entry.2)
      (b.modifyEpoch name fun o => (o.set (o.value + 1)).1)

/-- The version of a source, zero as long as the source is not there. -/
def version (b : Bindings ν) : Source → Nat
  | .epoch name => ((b.epoch? name).map (·.version)).getD 0
  | .slot id => (b.slot id).version

def reading (b : Bindings ν) (source : Source) : Reading := ⟨source, b.version source⟩

/-! ## Subscriptions -/

def subscribeEpoch (b : Bindings ν) (name : String) (id : ObserverId) : Bindings ν × Subscription :=
  let number := b.nextSubscription
  ({ ((b.openEpoch name).modifyEpoch name (·.subscribe number id)) with
      nextSubscription := number + 1 },
    ⟨.epoch name, number⟩)

def subscribeSlot (b : Bindings ν) (id : SlotId) (listener : Listener ν) :
    Bindings ν × Subscription :=
  let number := b.nextSubscription
  ({ b with
      slots := b.slots.modify id.index (·.subscribe number listener)
      nextSubscription := number + 1 },
    ⟨.slot id, number⟩)

def unsubscribe (b : Bindings ν) (s : Subscription) : Bindings ν :=
  match s.source with
  | .epoch name => b.modifyEpoch name (·.unsubscribe s.number)
  | .slot id => { b with slots := b.slots.modify id.index (·.unsubscribe s.number) }

def unsubscribeAll (b : Bindings ν) (subscriptions : List Subscription) : Bindings ν :=
  subscriptions.foldl unsubscribe b

end Bindings

end FormDependencies
