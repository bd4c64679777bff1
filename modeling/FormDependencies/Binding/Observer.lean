import FormDependencies.Binding.Group
import FormDependencies.Declaration
import FormDependencies.Query.Parser

/-!
Observers: created from the declarations of an element, all together or not at all, kept as long as
the declarations stay as they are, and destroyed with their element.
-/

namespace FormDependencies.Bindings
variable {ν : Type}

def observer? (b : Bindings ν) (id : ObserverId) : Option (Observer ν) :=
  b.observers.find? fun o => o.id == id

def declared? (b : Bindings ν) (el : ElementId) : Option ElementObservers :=
  b.declared.find? fun entry => entry.element == el

def observersOf (b : Bindings ν) (el : ElementId) : List ObserverId :=
  ((b.declared? el).map (·.ids)).getD []

/-- Puts what is kept about an element in its place among the others. -/
def placeDeclared (added : ElementObservers) : List ElementObservers → List ElementObservers
  | [] => [added]
  | entry :: rest =>
    if entry.element = added.element then added :: rest
    else if added.element.number < entry.element.number then added :: entry :: rest
    else entry :: placeDeclared added rest

def modifyObserver (b : Bindings ν) (id : ObserverId) (change : Observer ν → Observer ν) :
    Bindings ν :=
  { b with observers := b.observers.map fun o => if o.id == id then change o else o }

/-- Destroys observers: their subscriptions end and their evaluations are no longer counted. -/
def destroyEach (b : Bindings ν) (ids : List ObserverId) : Bindings ν :=
  let gone := b.observers.filter fun o => ids.contains o.id
  let b := b.unsubscribeAll (gone.flatMap (·.subscriptions))
  { b with
    observers := b.observers.filter fun o => !ids.contains o.id
    turn := b.turn.filter fun entry => !ids.contains entry.1 }

/-- Destroys the observers of an element. The answer is their number. -/
def destroyElement (b : Bindings ν) (el : ElementId) : Bindings ν × Nat :=
  match b.declared? el with
  | none => (b, 0)
  | some entry =>
    let b := b.destroyEach entry.ids
    ({ b with declared := b.declared.filter fun other => other.element != el }, entry.ids.length)

/-- Destroys the observers of elements one after the other. The answer is their number. -/
def destroyElements (b : Bindings ν) : List ElementId → Bindings ν × Nat
  | [] => (b, 0)
  | el :: rest =>
    let (b, n) := b.destroyElement el
    let (b, count) := b.destroyElements rest
    (b, n + count)

/-- Destroys the observers of elements that are not attached. The answer is their number. -/
def actualizeObservers (b : Bindings ν) (doc : Document) : Bindings ν × Nat :=
  let detached := (b.declared.map (·.element)).filter fun el => !doc.isAttached el
  let (b, count) := b.destroyElements detached
  (if count = 0 then b else b.log (.observersDestroyed count b.observers.length), count)

/-! ## Creation -/

/-- The selector of the elements that the actions of an element are applied to, if it declares
one. -/
def targetOf (doc : Document) (el : ElementId) (config : Config) :
    Except DependencyError (Option Selector) :=
  let source := Text.trim (doc.attributeOrEmpty el config.targetAttribute)
  if source.isEmpty then .ok none
  else match Selector.parse source with
    | .ok selector => .ok (some selector)
    | .error cause => .error (.invalidSelector (.actionTarget el) cause)

def prepare (actions : ActionTable ν) (d : Declaration) :
    Except DependencyError (Declaration × Query × Action ν) := do
  let query ← Query.parse d.query
  let action ← actions.get d.action
  return (d, query, action)

/-- Prepares declarations; the first one that fails decides. -/
def prepareEach (actions : ActionTable ν) :
    List Declaration → Except DependencyError (List (Declaration × Query × Action ν))
  | [] => .ok []
  | d :: rest => do
    let prepared ← prepare actions d
    return prepared :: (← prepareEach actions rest)

def observerOf (doc : Document) (el : ElementId) (config : Config) (target : Option Selector)
    (id : ObserverId) (prepared : Declaration × Query × Action ν) : Observer ν where
  id
  element := el
  query := prepared.2.1
  actionName := prepared.1.action
  action := prepared.2.2
  negated := doc.hasAttribute el config.negateAttribute
  skipsInitial := doc.hasAttribute el config.skipInitialAttribute
  parameters := prepared.1.parameters
  target

/-- The observers of prepared declarations, numbered from `next` on. -/
def observersFrom (doc : Document) (el : ElementId) (config : Config) (target : Option Selector) :
    Nat → List (Declaration × Query × Action ν) → List (Observer ν)
  | _, [] => []
  | next, prepared :: rest =>
    observerOf doc el config target ⟨next⟩ prepared ::
      observersFrom doc el config target (next + 1) rest

def addObservers (b : Bindings ν) (el : ElementId) (signature : String) (replaced : Nat)
    (added : List (Observer ν)) : Bindings ν :=
  let b := b.log (.observersCreated el added.length replaced)
  { b with
    observers := b.observers ++ added
    declared := placeDeclared ⟨el, signature, added.map (·.id)⟩ b.declared
    nextObserver := b.nextObserver + added.length }

/-- Creates the observers that an element declares, in place of those that it had. Declarations that
are as they were keep their observers, and nothing new is created. When one of them is wrong the
element is left without observers. -/
def init (b : Bindings ν) (doc : Document) (el : ElementId) (actions : ActionTable ν)
    (config : Config) : Bindings ν × Except DependencyError (List ObserverId) :=
  let signature := doc.declarationSignature el config
  if (b.declared? el).any fun entry => entry.signature == signature then (b, .ok [])
  else
    let (b, replaced) := b.destroyElement el
    match targetOf doc el config with
    | .error e => (b, .error e)
    | .ok target =>
      match prepareEach actions (doc.declarations el config) with
      | .error e => (b, .error e)
      | .ok prepared =>
        let added := observersFrom doc el config target b.nextObserver prepared
        (b.addObservers el signature replaced added, .ok (added.map (·.id)))

/-! ## Queueing -/

/-- Queues an observer, if it is there. -/
def queue (b : Bindings ν) (id : ObserverId) : Bindings ν :=
  if (b.observer? id).isSome then b.push id else b

/-- Queues the observers that `chosen` picks. The answer is their number. -/
def queueWhere (b : Bindings ν) (chosen : Observer ν → Bool) : Bindings ν × Nat :=
  let found := b.observers.filter chosen
  (found.foldl (fun b o => b.push o.id) b, found.length)

def queueWithin (b : Bindings ν) (doc : Document) (container : ElementId) : Bindings ν × Nat :=
  b.queueWhere fun o => doc.isWithin o.element container

/-- Queues the observers that read the value of their own element, where the element is `target` or
around it. -/
def queueSelfReaders (b : Bindings ν) (doc : Document) (target : ElementId) : Bindings ν × Nat :=
  b.queueWhere fun o => o.query.readsSelf && doc.isWithin target o.element

end FormDependencies.Bindings
