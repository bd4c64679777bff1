import FormDependencies.Engine.Pass

/-!
Turns of the engine. In a turn the events of the document are processed, each completely, with all
that it causes to be evaluated, before the next is taken. When no event is left one ready pass runs,
and events come first again. The turn ends when there is neither.
-/

namespace FormDependencies.Engine
variable {ν : Type}

/-- Brings the bindings up to date with a change at an element: the references of it and of its
ancestors are read again, the groups around it are computed anew, and the observers that read their
own element are queued. -/
def elementChanged (e : Engine ν) (doc : Document) (target : ElementId) : Engine ν :=
  let (bindings, names) := e.bindings.referencesChanged doc e.accessors target
  let bindings := if names.isEmpty then bindings else (bindings.groupsChanged doc target names).1
  { e with bindings := (bindings.queueSelfReaders doc target).1 }

/-- Processes a change of the members of a collection. New members are registered by a pass. -/
def collectionChanged (e : Engine ν) (doc : Document) (target : ElementId) : Engine ν × Document :=
  let e := e.elementChanged doc target
  let bindings := (e.bindings.actualizeReferences doc).1
  let bindings := (bindings.actualizeGroups doc).1
  let bindings := (bindings.queueWithin doc target).1
  let (e, doc) := { e with bindings }.flush doc
  (e.request doc target none, doc)

def dispatch (e : Engine ν) (doc : Document) (event : Event) : Engine ν × Document :=
  let e := e.log (.event event)
  match event.kind with
  | .contentLoaded => (e.request doc event.target none, doc)
  | .componentReady => (e.unpark doc, doc)
  | .change | .selected => (e.elementChanged doc event.target).flush doc
  | .collectionAdd | .collectionRemove =>
    if e.collection.holds doc event.target then e.collectionChanged doc event.target else (e, doc)

/-- The oldest event, or when there is none the oldest ready pass, is processed; none when there is
neither. -/
def step? (e : Engine ν) (doc : Document) : Option (Engine ν × Document) :=
  match doc.nextEvent with
  | (doc, some event) => some (e.dispatch doc event)
  | (doc, none) =>
    match e.ready with
    | pass :: ready => some ({ e with ready }.runPass doc pass)
    | [] => none

/-- Processes events and passes until none is left and counts them; none when there are more than
`fuel`. -/
def settle? : Nat → Engine ν → Document → Option (Engine ν × Document × Nat)
  | 0, e, doc => if (e.step? doc).isNone then some (e, doc, 0) else none
  | fuel + 1, e, doc =>
    match e.step? doc with
    | none => some (e, doc, 0)
    | some (e, doc) => (settle? fuel e doc).map fun (e, doc, count) => (e, doc, count + 1)

/-- What a turn begins with: no evaluation is counted yet, and passes over detached containers are
dropped. -/
def beginTurn (e : Engine ν) (doc : Document) : Engine ν :=
  { e with bindings := e.bindings.beginTurn }.dropDetached doc

/-- Runs one turn and counts the events and passes that were processed; none when there are more
than `fuel`. -/
def pump? (fuel : Nat) (e : Engine ν) (doc : Document) : Option (Engine ν × Document × Nat) :=
  (settle? fuel (e.beginTurn doc) doc).map fun (e, doc, count) =>
    (if count = 0 then e else e.log (.pumped count), doc, count)

end FormDependencies.Engine
