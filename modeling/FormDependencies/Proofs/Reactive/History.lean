import Mathlib.Data.List.Basic
import FormDependencies.Reactive.Observables

/-!
What the history of observables says: their values and versions, which subscribers are registered
and alive, and who has been called for which change.
-/

namespace FormDependencies.Observables

variable {α σ : Type}

namespace History

def stored? (h : History α) (index : Nat) : Option α :=
  h.findSome? fun
    | .created i value | .set i value true => if i = index then some value else none
    | _ => none

def changes (h : History α) (index : Nat) : Nat :=
  h.countP fun
    | .set i _ true => i == index
    | _ => false

def registered (h : History α) (index : Nat) : List Nat :=
  (h.filterMap fun
    | .subscribed number i => if i = index then some number else none
    | _ => none).reverse

/-- The subscribers that were called for a version of an observable, each with the value, in the
order of the calls. -/
def calls (h : History α) (index version : Nat) : List (Nat × α) :=
  (h.filterMap fun
    | .called number _ change =>
      if change.index = index ∧ change.version = version then some (number, change.value) else none
    | _ => none).reverse

def Alive (h : History α) (number : Nat) : Prop :=
  (∃ index, number ∈ registered h index) ∧ .dropped number ∉ h

def Changed (h : History α) (change : Change α) : Prop :=
  ∃ after before, h = after ++ .set change.index change.value true :: before ∧
    change.version = changes before change.index + 1

variable {h : History α}

theorem Changed.cons {change : Change α} (happened : Changed h change) (event : Event α) :
    Changed (event :: h) change := by
  obtain ⟨after, before, rfl, version⟩ := happened
  exact ⟨event :: after, before, rfl, version⟩

theorem changes_le_append (after : History α) (index : Nat) :
    changes h index ≤ changes (after ++ h) index := by
  rw [changes, changes, List.countP_append]
  exact Nat.le_add_left _ _

theorem registered_append (after : History α) (index : Nat) :
    registered (after ++ h) index = registered h index ++ registered after index := by
  rw [registered, List.filterMap_append, List.reverse_append, registered, registered]

/-- Versions count upwards, so that a change that happened is not a later one. -/
theorem Changed.version_le {change : Change α} (happened : Changed h change) :
    change.version ≤ changes h change.index := by
  obtain ⟨after, before, rfl, version⟩ := happened
  have counted := changes_le_append (h := .set change.index change.value true :: before) after
    change.index
  rw [version]
  refine Nat.le_trans (Nat.le_of_eq ?_) counted
  simp [changes]

end History

def Event.Idle : Event α → Prop
  | .read .. | .set _ _ false | .called .. => True
  | _ => False

def Event.Calm : Event α → Prop
  | .set _ _ true | .called .. => False
  | _ => True

namespace History

variable {h : History α} {event : Event α}

/-- Idle events leave what is said of values, versions and subscribers. -/
theorem cons_of_idle (idle : event.Idle) :
    stored? (event :: h) = stored? h ∧ changes (event :: h) = changes h ∧
      registered (event :: h) = registered h := by
  cases event with
  | set i value answer =>
    cases answer with
    | false => exact ⟨rfl, rfl, rfl⟩
    | true => cases idle
  | read => exact ⟨rfl, rfl, rfl⟩
  | called => exact ⟨rfl, rfl, rfl⟩
  | created => cases idle
  | subscribed => cases idle
  | dropped => cases idle

theorem ne_dropped_of_idle (idle : event.Idle) (number : Nat) : event ≠ .dropped number := by
  rintro rfl
  cases idle

theorem alive_cons (same : registered (event :: h) = registered h)
    (other : ∀ number, event ≠ .dropped number) (number : Nat) :
    Alive (event :: h) number ↔ Alive h number := by
  simp [Alive, same, (other number).symm]

/-- Calm events leave what is said of changes and calls. -/
theorem cons_of_calm (calm : event.Calm) :
    changes (event :: h) = changes h ∧ calls (event :: h) = calls h := by
  cases event with
  | set i value answer =>
    cases answer with
    | false => exact ⟨rfl, rfl⟩
    | true => cases calm
  | called => cases calm
  | created => exact ⟨rfl, rfl⟩
  | read => exact ⟨rfl, rfl⟩
  | subscribed => exact ⟨rfl, rfl⟩
  | dropped => exact ⟨rfl, rfl⟩

theorem stored?_created (index i : Nat) (value : α) :
    stored? (.created index value :: h) i = if index = i then some value else stored? h i := by
  simp only [stored?, List.findSome?_cons]
  split <;> simp_all

theorem stored?_set (index i : Nat) (value : α) :
    stored? (.set index value true :: h) i = if index = i then some value else stored? h i := by
  simp only [stored?, List.findSome?_cons]
  split <;> simp_all

theorem changes_set (index i : Nat) (value : α) :
    changes (.set index value true :: h) i = changes h i + if index = i then 1 else 0 := by
  simp [changes, List.countP_cons]

theorem registered_subscribed (number index i : Nat) :
    registered (.subscribed number index :: h) i =
      registered h i ++ if index = i then [number] else [] := by
  by_cases same : index = i <;> simp [registered, same]

theorem calls_called (number : Nat) (name : String) (change : Change α) (index version : Nat) :
    calls (.called number name change :: h) index version =
      calls h index version ++
        if change.index = index ∧ change.version = version then [(number, change.value)]
        else [] := by
  by_cases same : change.index = index ∧ change.version = version <;> simp [calls, same]

theorem append_dropped (numbers : List Nat) :
    stored? (numbers.map .dropped ++ h) = stored? h ∧
      changes (numbers.map .dropped ++ h) = changes h ∧
      registered (numbers.map .dropped ++ h) = registered h := by
  induction numbers with
  | nil => exact ⟨rfl, rfl, rfl⟩
  | cons first rest ih => exact ih

/-- Dropping guards takes away from the living what is dropped and nothing else. -/
theorem alive_dropped (numbers : List Nat) (number : Nat) :
    Alive (numbers.map .dropped ++ h) number ↔ Alive h number ∧ number ∉ numbers := by
  simp [Alive, (append_dropped (h := h) numbers).2.2]
  tauto

end History

end FormDependencies.Observables
