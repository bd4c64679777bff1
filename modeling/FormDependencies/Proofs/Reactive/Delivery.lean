import FormDependencies.Proofs.Reactive.Recorded

/-!
Every change calls each subscriber that is alive at that moment once, with its value and in order of
registration, whatever else changes while the calls are going on: what the history has yet to tell
of a change stands among the tasks.
-/

namespace FormDependencies.Observables

open History

variable {α σ : Type}

/-- Whether an event may come after what has happened before it. -/
def Justified [BEq α] (before : History α) : Event α → Prop
  | .set index value answer =>
    ∃ stored, stored? before index = some stored ∧ answer = !(stored == value)
  | .read index view =>
    stored? before index = some view.value ∧ view.version = changes before index
  | .subscribed number _ => ∀ index, number ∉ registered before index
  | .called _ _ change => Changed before change
  | _ => True

def Faithful [BEq α] (h : History α) : Prop :=
  ∀ after event before, h = after ++ event :: before → Justified before event

/-- Whether these are the calls that a change asks for: each with its value, of subscribers that
were registered before, in their order and at most once, and of all that were alive. -/
structure Delivered (before : History α) (index : Nat) (value : α) (calls : List (Nat × α)) :
    Prop where
  values : ∀ call ∈ calls, call.2 = value
  order : (calls.map (·.1)).Sublist (registered before index)
  once : (calls.map (·.1)).Nodup
  living : ∀ number ∈ registered before index, Alive before number → number ∈ calls.map (·.1)

def pending (tasks : List (Task α σ)) (index version : Nat) : List (Nat × α) :=
  tasks.filterMap fun
    | .call number _ change =>
      if change.index = index ∧ change.version = version then some (number, change.value) else none
    | _ => none

def callsFor (alive : List (Nat × Subscriber α σ)) (change : Change α) : List (Task α σ) :=
  alive.map fun entry => .call entry.1 entry.2 change

theorem pending_append (tasks tasks' : List (Task α σ)) (index version : Nat) :
    pending (tasks ++ tasks') index version =
      pending tasks index version ++ pending tasks' index version :=
  List.filterMap_append

theorem pending_callsFor (alive : List (Nat × Subscriber α σ)) (change : Change α)
    (index version : Nat) :
    pending (callsFor alive change) index version =
      if change.index = index ∧ change.version = version then
        alive.map fun entry => (entry.1, change.value)
      else [] := by
  rw [pending, callsFor, List.filterMap_map]
  by_cases this : change.index = index ∧ change.version = version
  · simp [this]
  · simp [this]

/-- Whether the calls that are done and those that are to be done are together what the changes ask
for. -/
structure Owed (h : History α) (tasks : List (Task α σ)) : Prop where
  origin : ∀ number subscriber change, .call number subscriber change ∈ tasks → Changed h change
  delivered : ∀ after before index value, h = after ++ .set index value true :: before →
    Delivered before index value
      (calls h index (changes before index + 1) ++ pending tasks index (changes before index + 1))

section
variable [BEq α] {h : History α} {event : Event α}

theorem Faithful.cons (f : Faithful h) (justified : Justified h event) : Faithful (event :: h) := by
  intro after event' before same
  cases after with
  | nil =>
    cases same
    exact justified
  | cons first after =>
    cases same
    exact f after event' before rfl

theorem Faithful.append_dropped (f : Faithful h) (numbers : List Nat) :
    Faithful (numbers.map .dropped ++ h) := by
  induction numbers with
  | nil => exact f
  | cons first rest ih => exact ih.cons trivial

/-- Nobody has been called for a change that is still to come. -/
theorem Faithful.calls_eq_nil (f : Faithful h) {index version : Nat}
    (later : changes h index < version) : calls h index version = [] := by
  rw [calls, List.reverse_eq_nil_iff, List.filterMap_eq_nil_iff]
  intro event mem
  obtain ⟨after, before, rfl⟩ := List.append_of_mem mem
  cases event with
  | called number name change =>
    have happened : Changed before change := f after _ before rfl
    refine if_neg ?_
    rintro ⟨rfl, rfl⟩
    have counted : changes before change.index ≤
        changes (after ++ .called number name change :: before) change.index :=
      changes_le_append (h := .called number name change :: before) after change.index
    exact Nat.lt_irrefl _ (Nat.lt_of_le_of_lt (Nat.le_trans happened.version_le counted) later)
  | created => rfl
  | read => rfl
  | set => rfl
  | subscribed => rfl
  | dropped => rfl

end

/-! ## Calls that are owed -/

namespace Owed

variable {h : History α} {event : Event α} {tasks tasks' : List (Task α σ)}

theorem calm (o : Owed h tasks) (calm : event.Calm) : Owed (event :: h) tasks where
  origin number subscriber change mem := (o.origin number subscriber change mem).cons event
  delivered after before index value same := by
    cases after with
    | nil =>
      cases same
      cases calm
    | cons first after =>
      cases same
      rw [(cons_of_calm calm).2]
      exact o.delivered after before index value rfl

theorem append_dropped (o : Owed h tasks) (numbers : List Nat) :
    Owed (numbers.map .dropped ++ h) tasks := by
  induction numbers with
  | nil => exact o
  | cons first rest ih => exact ih.calm trivial

/-- Only the calls among the tasks matter. -/
theorem congr (o : Owed h tasks) (among : ∀ number subscriber change,
      .call number subscriber change ∈ tasks' → .call number subscriber change ∈ tasks)
    (same : pending tasks' = pending tasks) : Owed h tasks' where
  origin number subscriber change mem :=
    o.origin number subscriber change (among number subscriber change mem)
  delivered := same ▸ o.delivered

theorem call {number : Nat} {subscriber : Subscriber α σ} {change : Change α}
    (o : Owed h (.call number subscriber change :: tasks)) :
    Owed (.called number subscriber.name change :: h) tasks where
  origin number' subscriber' change' mem :=
    (o.origin number' subscriber' change' (List.mem_cons_of_mem _ mem)).cons _
  delivered after before index value same := by
    cases after with
    | nil => cases same
    | cons first after =>
      cases same
      have delivered := o.delivered after before index value rfl
      rw [calls_called, List.append_assoc]
      have moved (version : Nat) : pending (.call number subscriber change :: tasks) index version =
          (if change.index = index ∧ change.version = version then [(number, change.value)]
            else []) ++ pending tasks index version := by
        by_cases this : change.index = index ∧ change.version = version <;>
          simp [pending, this]
      rwa [moved] at delivered

theorem pending_eq_nil (o : Owed h tasks) {index version : Nat} (later : changes h index < version) :
    pending tasks index version = [] := by
  rw [pending, List.filterMap_eq_nil_iff]
  intro task mem
  cases task with
  | call number subscriber change =>
    refine if_neg ?_
    rintro ⟨rfl, rfl⟩
    have happened := o.origin number subscriber change mem
    exact Nat.lt_irrefl _ (Nat.lt_of_le_of_lt happened.version_le later)
  | perform => rfl
  | release => rfl

/-- A change owes its calls to the subscribers that are given, and the calls of others are owed as
before. -/
theorem change [BEq α] (o : Owed h tasks) (faithful : Faithful h) {index : Nat} {value : α}
    {alive : List (Nat × Subscriber α σ)}
    (order : (alive.map (·.1)).Sublist (registered h index)) (once : (registered h index).Nodup)
    (living : ∀ number ∈ registered h index, Alive h number → number ∈ alive.map (·.1)) :
    Owed (.set index value true :: h) (callsFor alive ⟨index, changes h index + 1, value⟩ ++ tasks)
    where
  origin number subscriber change mem := by
    rcases List.mem_append.mp mem with new | old
    · obtain ⟨entry, _, same⟩ := List.mem_map.mp new
      cases same
      exact ⟨[], h, rfl, rfl⟩
    · exact (o.origin number subscriber change old).cons _
  delivered after before i v same := by
    cases after with
    | nil =>
      cases same
      have done : calls (.set index value true :: h) index (changes h index + 1) = [] :=
        faithful.calls_eq_nil (Nat.lt_succ_self _)
      rw [done, pending_append, pending_callsFor, if_pos ⟨rfl, rfl⟩,
        o.pending_eq_nil (Nat.lt_succ_self _), List.append_nil, List.nil_append]
      have numbers : (alive.map fun entry => (entry.1, value)).map (·.1) = alive.map (·.1) := by
        rw [List.map_map]
        rfl
      refine ⟨fun call mem => ?_, numbers ▸ order, ?_, numbers ▸ living⟩
      · obtain ⟨entry, _, rfl⟩ := List.mem_map.mp mem
        rfl
      · rw [numbers]
        exact order.nodup once
    | cons first after =>
      simp only [List.cons_append, List.cons.injEq] at same
      obtain ⟨rfl, rfl⟩ := same
      have earlier : changes before i + 1 ≤ changes (after ++ .set i v true :: before) i := by
        have counted := changes_le_append (h := .set i v true :: before) after i
        rwa [changes_set, if_pos rfl] at counted
      have other : ¬(index = i ∧
          changes (after ++ .set i v true :: before) index + 1 = changes before i + 1) := by
        rintro ⟨rfl, same⟩
        rw [← same] at earlier
        exact Nat.not_succ_le_self _ earlier
      rw [pending_append, pending_callsFor, if_neg other, List.nil_append]
      exact o.delivered after before i v rfl

end Owed

end FormDependencies.Observables
