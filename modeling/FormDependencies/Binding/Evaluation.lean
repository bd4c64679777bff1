import FormDependencies.Binding.Observer
import FormDependencies.Evaluator.Basic

/-!
Evaluation of observers. The references of the query are looked up, and the observer is subscribed
to exactly what this look-up read; then the evaluator computes the result, and the action is run on
the targets.

In one turn an observer is evaluated at most as often as the configuration allows. Evaluation queues
nobody, so emptying the queue is a pass over it.
-/

namespace FormDependencies

/-- What evaluation needs besides the bindings and the document. -/
structure Environment where
  accessors : AccessorTable
  config : Config
  evaluator : Evaluator

namespace Bindings
variable {ν : Type}

/-! ## Looking up references -/

/-- What a look-up has found so far. -/
structure Lookup (ν : Type) where
  bindings : Bindings ν
  values : ReferenceValues := .empty
  subscriptions : List Subscription := []
  readings : List Reading := []

namespace Lookup

def insert (l : Lookup ν) (key : String) (value : Value) : Lookup ν :=
  { l with values := l.values.insert key value }

def insertGroup (l : Lookup ν) (key : String) (snapshot : GroupSnapshot) : Lookup ν :=
  { l with values := l.values.insertGroup key snapshot }

def watchEpoch (l : Lookup ν) (name : String) (id : ObserverId) : Lookup ν :=
  let (bindings, s) := l.bindings.subscribeEpoch name id
  { l with
    bindings
    subscriptions := l.subscriptions ++ [s]
    readings := l.readings ++ [bindings.reading s.source] }

def watchSlot (l : Lookup ν) (slot : SlotId) (id : ObserverId) : Lookup ν :=
  let (bindings, s) := l.bindings.subscribeSlot slot (.observer id)
  { l with
    bindings
    subscriptions := l.subscriptions ++ [s]
    readings := l.readings ++ [bindings.reading s.source] }

def simple (l : Lookup ν) (doc : Document) (el : ElementId) (id : ObserverId)
    (token : ReferenceToken) (scope : Option ElementId) : Lookup ν :=
  let l := l.watchEpoch token.name id
  match l.bindings.resolve doc el token.name scope with
  | some r => (l.watchSlot r.slot id).insert token.key (l.bindings.read r.slot)
  | none => l.insert token.key .undefined

def group (l : Lookup ν) (doc : Document) (id : ObserverId) (token : ReferenceToken)
    (scope : ElementId) : Lookup ν :=
  let l := l.watchEpoch token.name id
  let (bindings, g) := l.bindings.resolveGroup doc token.name scope
  let l := { l with bindings }.watchSlot g.slot id
  l.insertGroup token.key (bindings.snapshot g)

def this (l : Lookup ν) (doc : Document) (accessors : AccessorTable) (el : ElementId)
    (token : ReferenceToken) : Lookup ν :=
  { l with bindings := l.bindings.logCast (accessors.castFailure? doc el .auto) }.insert token.key
    (accessors.getTyped doc el .auto)

/-- Looks up a reference whose scope is nowhere above the element: only its name is watched. -/
def outOfScope (l : Lookup ν) (id : ObserverId) (token : ReferenceToken) : Lookup ν :=
  let l := l.watchEpoch token.name id
  match token.kind with
  | .group => l.insertGroup token.key {}
  | _ => l.insert token.key .undefined

/-- Looks up a reference within a scope, or where it is not limited to one. -/
def within (l : Lookup ν) (doc : Document) (accessors : AccessorTable) (el : ElementId)
    (id : ObserverId) (token : ReferenceToken) (scope : Option ElementId) : Lookup ν :=
  match token.kind with
  | .simple => l.simple doc el id token scope
  | .group => l.group doc id token (scope.getD .root)
  | .this => l.this doc accessors el token

def token (l : Lookup ν) (doc : Document) (accessors : AccessorTable) (el : ElementId)
    (id : ObserverId) (token : ReferenceToken) : Lookup ν :=
  match token.scope with
  | none => l.within doc accessors el id token none
  | some selector =>
    match doc.closest? el selector with
    | some root => l.within doc accessors el id token (some root)
    | none => l.outOfScope id token

end Lookup

def lookUp (b : Bindings ν) (doc : Document) (accessors : AccessorTable) (o : Observer ν) :
    Lookup ν :=
  o.query.references.foldl (fun l token => l.token doc accessors o.element o.id token)
    { bindings := b }

/-! ## One evaluation -/

/-- Looks up the references of an observer and subscribes it to what the look-up read, in place of
what it was subscribed to. -/
def rebind (b : Bindings ν) (doc : Document) (accessors : AccessorTable) (o : Observer ν) :
    Bindings ν × ReferenceValues :=
  let l := b.lookUp doc accessors o
  let b := (l.bindings.record (.lookedUp o.id l.readings)).unsubscribeAll o.subscriptions
  (b.modifyObserver o.id fun o => { o with subscriptions := l.subscriptions }, l.values)

def targetsOf (doc : Document) (o : Observer ν) : List ElementId :=
  match o.target with
  | some selector => doc.queryAll .root selector
  | none => [o.element]

def act (b : Bindings ν) (doc : Document) (env : Environment) (o : Observer ν) (result : Value) :
    Bindings ν × Document :=
  let ctx : ActionContext :=
    { accessors := env.accessors, config := env.config, element := o.element
      targets := targetsOf doc o, parameters := o.parameters }
  let (doc, notes) := o.action ctx result doc
  (b.recordNotes notes, doc)

/-- Evaluates an observer on an attached element. The answer says whether the action ran; it does
not after a failure of the evaluator, and it may be left out the first time. -/
def evaluateObserver (b : Bindings ν) (doc : Document) (env : Environment) (o : Observer ν) :
    Bindings ν × Document × Except DependencyError Bool :=
  let (b, values) := b.rebind doc env.accessors o
  let b := b.record (.expression o.query.text)
  match env.evaluator o.query.text values with
  | .error reason => (b, doc, .error (.evaluation o.query.text o.element reason))
  | .ok value =>
    let result := if o.negated then .bool (!value.isTruthy) else value
    let b := b.log (.evaluated o.id o.element o.query.text result)
    let b := b.modifyObserver o.id fun o =>
      { o with evaluations := o.evaluations + 1, lastResult := some result }
    if o.evaluations = 0 && o.skipsInitial then (b, doc, .ok false)
    else
      let (b, doc) := b.act doc env o result
      (b, doc, .ok true)

/-- Evaluates an observer, if it is there; one whose element is not attached is destroyed instead,
with all others of the element. -/
def evaluate (b : Bindings ν) (doc : Document) (env : Environment) (id : ObserverId) :
    Bindings ν × Document × Except DependencyError Bool :=
  match b.observer? id with
  | none => (b, doc, .ok false)
  | some o =>
    if doc.isAttached o.element then b.evaluateObserver doc env o
    else ((b.destroyElement o.element).1, doc, .ok false)

/-! ## Turns -/

/-- How often an observer was evaluated in the turn, if it was tried at all. -/
def turnCount? (b : Bindings ν) (id : ObserverId) : Option Nat :=
  (b.turn.find? fun entry => entry.1 == id).map (·.2)

def turnCount (b : Bindings ν) (id : ObserverId) : Nat := (b.turnCount? id).getD 0

def setTurn (b : Bindings ν) (id : ObserverId) (count : Nat) : Bindings ν :=
  { b with turn := (id, count) :: b.turn.filter fun entry => entry.1 != id }

def countTurn (b : Bindings ν) (id : ObserverId) : Bindings ν :=
  b.setTurn id (b.turnCount id + 1)

/-- Notes that an observer was tried, without counting an evaluation. -/
def enterTurn (b : Bindings ν) (id : ObserverId) : Bindings ν := b.setTurn id (b.turnCount id)

def beginTurn (b : Bindings ν) : Bindings ν := { b with turn := [] }

def isLimited (b : Bindings ν) (config : Config) (id : ObserverId) : Bool :=
  config.cascadeLimit.toNat ≤ b.turnCount id

/-- Evaluates an observer unless it has used up its evaluations of the turn. -/
def evaluateNow (b : Bindings ν) (doc : Document) (env : Environment) (id : ObserverId) :
    Bindings ν × Document × Except DependencyError Bool :=
  if b.isLimited env.config id then
    ((b.enterTurn id).log (.cascadeLimit id env.config.cascadeLimit.toNat), doc, .ok false)
  else (b.countTurn id).evaluate doc env id

/-- What emptying the queue did. -/
structure FlushReport where
  evaluated : Nat := 0
  skipped : Nat := 0
  errors : List DependencyError := []

/-- Evaluates one observer of the queue, if it is still there. It counts as skipped if it had used up
its evaluations before, so the first attempt of a turn does not, even where none is allowed. -/
def flushOne (b : Bindings ν) (doc : Document) (env : Environment) (report : FlushReport)
    (id : ObserverId) : Bindings ν × Document × FlushReport :=
  if (b.observer? id).isNone then (b, doc, report)
  else
    let limited := (b.turnCount? id).any fun count => env.config.cascadeLimit.toNat ≤ count
    match b.evaluateNow doc env id with
    | (b, doc, .ok _) =>
      (b, doc, if limited then { report with skipped := report.skipped + 1 }
        else { report with evaluated := report.evaluated + 1 })
    | (b, doc, .error e) => (b, doc, { report with errors := report.errors ++ [e] })

def flushEach (b : Bindings ν) (doc : Document) (env : Environment) (report : FlushReport) :
    List ObserverId → Bindings ν × Document × FlushReport
  | [] => (b, doc, report)
  | id :: rest =>
    let (b, doc, report) := b.flushOne doc env report id
    b.flushEach doc env report rest

def flush (b : Bindings ν) (doc : Document) (env : Environment) :
    Bindings ν × Document × FlushReport :=
  flushEach { b with pending := [] } doc env {} b.pending

end Bindings

end FormDependencies
