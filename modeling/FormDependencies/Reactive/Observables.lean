import FormDependencies.Reactive.Observable
import FormDependencies.Reactive.Program

/-!
Running programs over observables. A change calls the subscribers that are alive at that moment, in
order of registration, and each call runs to its end, with all that it causes, before the next. Only
then the program that made the change goes on.

A subscriber is alive as long as its guard is kept or a change that has begun has yet to finish its
call. What is still to be done is a list of tasks; the first one is carried out and replaced by the
tasks that it causes. What happens is told in a history.
-/

namespace FormDependencies

/-- A subscriber: the name that its guard is kept under at first, and what it does when it is
called. -/
structure Subscriber (α σ : Type) where
  name : String
  callback : α → Program α σ

/-- A change of the observable at an index to a value, which is its version from then on. -/
structure Change (α : Type) where
  index : Nat
  version : Nat
  value : α

namespace Observables

/-- What happens to observables and their subscribers. -/
inductive Event (α : Type) where
  | created (index : Nat) (value : α)
  | read (index : Nat) (view : Observable.View α)
  | set (index : Nat) (value : α) (answer : Bool)
  | subscribed (number : Nat) (index : Nat)
  | dropped (number : Nat)
  | called (number : Nat) (name : String) (change : Change α)

/-- All that happened, the latest first. -/
abbrev History (α : Type) := List (Event α)

end Observables

open Observables (History)

structure Observables (α σ : Type) where
  cells : Array (Observable α (Subscriber α σ)) := #[]
  /-- The indices that handles stand for. -/
  handles : Array Nat := #[]
  guards : List (String × Nat) := []
  /-- The numbers of the subscribers that a change in progress still holds, once for each call. -/
  held : List Nat := []
  next : Nat := 0
  memory : σ
  history : History α := []

namespace Observables

/-- What is still to be done. -/
inductive Task (α σ : Type) where
  | call (number : Nat) (subscriber : Subscriber α σ) (change : Change α)
  | perform (program : Program α σ)
  | release (number : Nat)

variable {α σ : Type}

def record (s : Observables α σ) (event : Event α) : Observables α σ :=
  { s with history := event :: s.history }

/-- The observable that a handle stands for, with its index. -/
def locate? (s : Observables α σ) (handle : Nat) : Option (Nat × Observable α (Subscriber α σ)) :=
  s.handles[handle]?.bind fun index => s.cells[index]?.map (index, ·)

def isAlive (s : Observables α σ) (number : Nat) : Bool :=
  s.guards.any (fun guard => guard.2 == number) || s.held.contains number

/-- The subscribers of an observable that are alive, in order of registration. -/
def living (s : Observables α σ) (o : Observable α (Subscriber α σ)) :
    List (Nat × Subscriber α σ) :=
  o.subscribers.filter fun entry => s.isAlive entry.1

def view (s : Observables α σ) (o : Observable α (Subscriber α σ)) : Observable.View α where
  value := o.value
  version := o.version
  subscriberCount := (s.living o).length

def create (s : Observables α σ) (value : α) : Observables α σ :=
  { s with
    cells := s.cells.push { value }
    handles := s.handles.push s.cells.size }.record (.created s.cells.size value)

def clone (s : Observables α σ) (handle : Nat) : Observables α σ :=
  match s.locate? handle with
  | some (index, _) => { s with handles := s.handles.push index }
  | none => s

/-- Stores a value behind a handle. On a change the living subscribers are held, and their calls are
what is to be done. -/
def set [BEq α] (s : Observables α σ) (handle : Nat) (value : α) :
    Observables α σ × Bool × List (Task α σ) :=
  match s.locate? handle with
  | some (index, o) =>
    let (o, changed) := o.set value
    if changed then
      let alive := s.living o
      let stored : Observables α σ :=
        { s with
          cells := s.cells.setIfInBounds index { o with subscribers := alive }
          held := alive.map (·.1) ++ s.held }
      (stored.record (.set index value true), true,
        alive.map fun entry => .call entry.1 entry.2 ⟨index, o.version, value⟩)
    else (s.record (.set index value false), false, [])
  | none => (s, false, [])

/-- Drops the guard that is kept under a name. The answer says whether there was one. -/
def drop (s : Observables α σ) (name : String) : Observables α σ × Bool :=
  let dropped := (s.guards.filter fun guard => guard.1 == name).map (·.2)
  ({ s with
    guards := s.guards.filter fun guard => guard.1 != name
    history := dropped.map .dropped ++ s.history },
    !dropped.isEmpty)

/-- Subscribes behind a handle and keeps the guard under a name; the guard that was kept under it is
dropped. -/
def subscribe (s : Observables α σ) (name : String) (handle : Nat) (callback : α → Program α σ) :
    Observables α σ :=
  match s.locate? handle with
  | some (index, _) =>
    let added : Observables α σ :=
      { s with
        cells := s.cells.modify index (·.subscribe s.next ⟨name, callback⟩)
        next := s.next + 1 }
    let (cleared, _) := (added.record (.subscribed s.next index)).drop name
    { cleared with guards := (name, s.next) :: cleared.guards }
  | none => s

/-- Carries out what a program does next. -/
def advance [BEq α] (s : Observables α σ) : Program α σ → Observables α σ × List (Task α σ)
  | .done => (s, [])
  | .create value next => (s.create value, [.perform (next s.handles.size)])
  | .clone handle next => (s.clone handle, [.perform (next s.handles.size)])
  | .read handle next =>
    match s.locate? handle with
    | some (index, o) =>
      (s.record (.read index (s.view o)), [.perform (next (some (s.view o)))])
    | none => (s, [.perform (next none)])
  | .set handle value next =>
    let (s, changed, calls) := s.set handle value
    (s, calls ++ [.perform (next changed)])
  | .subscribe name handle callback next =>
    (s.subscribe name handle callback, [.perform next])
  | .drop name next =>
    let (s, had) := s.drop name
    (s, [.perform (next had)])
  | .remember change next =>
    ({ s with memory := change s.memory }, [.perform (next (change s.memory))])

/-- Carries out one task; gives the tasks that it causes. -/
def perform [BEq α] (s : Observables α σ) : Task α σ → Observables α σ × List (Task α σ)
  | .call number subscriber change =>
    (s.record (.called number subscriber.name change),
      [.perform (subscriber.callback change.value), .release number])
  | .perform program => s.advance program
  | .release number => ({ s with held := s.held.erase number }, [])

/-- Carries out tasks until none is left; none when `fuel` tasks do not suffice. -/
def run [BEq α] : Nat → Observables α σ → List (Task α σ) → Option (Observables α σ)
  | _, s, [] => some s
  | 0, _, _ :: _ => none
  | fuel + 1, s, task :: rest =>
    let (s, tasks) := s.perform task
    run fuel s (tasks ++ rest)

end Observables

end FormDependencies
