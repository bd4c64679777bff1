import FormDependencies.Reactive.Observables
import FormDependencies.Value.Basic

/-!
Observables of form values whose subscribers react: a subscriber that is called may set observables,
subscribe and drop guards, while the calls of the change that it was called for are still going on.
-/

namespace FormDependencies

/-- What a subscriber does when it is called, each deed only while the number of the notified value
is below a bound. Observables are named by their handles. -/
inductive Reaction where
  | add (bound : Int) (handle : Nat) (amount : Int)
  | drop (bound : Int) (name : String)
  | subscribe (bound : Int) (name : String) (handle : Nat) (reactions : List Reaction)

instance : Inhabited Reaction := ⟨.drop 0 ""⟩

/-- A call of a subscriber with the notified value. -/
structure Call where
  name : String
  value : Value

structure Network extends Observables Value Unit where
  memory := ()
  calls : List Call := []

namespace Network

def sum (value : Value) (amount : Int) : Value :=
  .number (value.toNumber.add (.ofInt amount))

end Network

/-- A deed that is left out unless the number of the notified value is below the bound. -/
def Reaction.guarded (value : Value) (bound : Int) (deed next : Program Value Unit) :
    Program Value Unit :=
  if value.toNumber.below (.ofInt bound) then deed else next

mutual

/-- What a reaction to a value does before the rest of the reactions. -/
def Reaction.program : Reaction → Value → Program Value Unit → Program Value Unit
  | .add bound handle amount, value, next =>
    Reaction.guarded value bound (.set handle (Network.sum value amount) fun _ => next) next
  | .drop bound name, value, next => Reaction.guarded value bound (.drop name fun _ => next) next
  | .subscribe bound name handle reactions, value, next =>
    Reaction.guarded value bound (.subscribe name handle (programOf reactions) next) next

def Reaction.programOf : List Reaction → Value → Program Value Unit
  | [], _ => .done
  | reaction :: rest, value => reaction.program value (programOf rest value)

end

namespace Network

open Observables (History Task)

def observable (net : Network) (handle : Nat) : Observable Value (Subscriber Value Unit) :=
  ((net.locate? handle).map (·.2)).getD { value := .undefined }

def value (net : Network) (handle : Nat) : Value := (net.observable handle).value

def subscriberCount (net : Network) (handle : Nat) : Nat :=
  (net.view (net.observable handle)).subscriberCount

def create (net : Network) (value : Value) : Network :=
  { net with toObservables := net.toObservables.create value }

def clone (net : Network) (handle : Nat) : Network :=
  { net with toObservables := net.toObservables.clone handle }

def set (net : Network) (handle : Nat) (value : Value) : Network × Bool × List (Task Value Unit) :=
  let (s, changed, calls) := net.toObservables.set handle value
  ({ net with toObservables := s }, changed, calls)

def subscribe (net : Network) (name : String) (handle : Nat) (reactions : List Reaction) :
    Network :=
  { net with
    toObservables := net.toObservables.subscribe name handle (Reaction.programOf reactions) }

def drop (net : Network) (name : String) : Network × Bool :=
  let (s, had) := net.toObservables.drop name
  ({ net with toObservables := s }, had)

/-- The calls of a history, the latest first. -/
def callsOf (history : History Value) : List Call :=
  history.filterMap fun
    | .called _ name change => some ⟨name, change.value⟩
    | _ => none

/-- Carries out tasks until none is left and adds the calls among them to the record. -/
def run (fuel : Nat) (net : Network) (tasks : List (Task Value Unit)) : Option Network :=
  (Observables.run fuel { net.toObservables with history := [] } tasks).map fun s =>
    { net with toObservables := s, calls := callsOf s.history ++ net.calls }

end Network

end FormDependencies
