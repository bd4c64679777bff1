/-!
Programs over observables. A program is what it does next and how it goes on with the answer. Its
subscribers are programs too, one for each value that they may be called with, and all of them share
one memory.

Observables are named by handles, and a guard is kept under a name until it is dropped or another
one takes its place.
-/

namespace FormDependencies

/-- What can be learned of an observable. -/
structure Observable.View (α : Type) where
  value : α
  version : Nat
  subscriberCount : Nat

/-- A program over observables with values of type `α` and a memory of type `σ`. -/
inductive Program (α σ : Type) where
  | done
  | create (value : α) (next : Nat → Program α σ)
  | clone (handle : Nat) (next : Nat → Program α σ)
  | read (handle : Nat) (next : Option (Observable.View α) → Program α σ)
  | set (handle : Nat) (value : α) (next : Bool → Program α σ)
  | subscribe (name : String) (handle : Nat) (callback : α → Program α σ) (next : Program α σ)
  | drop (name : String) (next : Bool → Program α σ)
  | remember (change : σ → σ) (next : σ → Program α σ)

/-- Stores what becomes of the value. -/
def Program.update {α σ : Type} (handle : Nat) (change : α → α) (next : Bool → Program α σ) :
    Program α σ :=
  .read handle fun
    | some view => .set handle (change view.value) next
    | none => next false

end FormDependencies
