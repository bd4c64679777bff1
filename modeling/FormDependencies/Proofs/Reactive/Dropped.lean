import FormDependencies.Proofs.Reactive.Run

/-!
Subscribers whose guards are dropped. A change in progress holds the subscribers that it calls until
their calls are done. What is dropped while nothing holds it is never called again. What is dropped
while it is held is still called for that change, if its call is to come, and for all changes that
are made before its last call is done.
-/

namespace FormDependencies.Observables

open History

variable {α σ : Type}

def History.called (h : History α) : List Nat :=
  h.filterMap fun
    | .called number _ _ => some number
    | _ => none

def owed (tasks : List (Task α σ)) : List Nat :=
  tasks.filterMap fun
    | .call number _ _ => some number
    | _ => none

/-- The subscribers that are still to be called or whose calls are going on, once for each call. -/
def holders (tasks : List (Task α σ)) : List Nat :=
  tasks.filterMap fun
    | .call number _ _ | .release number => some number
    | .perform _ => none

section
variable {tasks tasks' : List (Task α σ)} {number : Nat}

theorem owed_append : owed (tasks ++ tasks') = owed tasks ++ owed tasks' :=
  List.filterMap_append

theorem holders_append : holders (tasks ++ tasks') = holders tasks ++ holders tasks' :=
  List.filterMap_append

theorem owed_callsFor (alive : List (Nat × Subscriber α σ)) (change : Change α) :
    owed (callsFor alive change) = alive.map (·.1) := by
  simp [owed, callsFor, List.filterMap_map]

theorem holders_callsFor (alive : List (Nat × Subscriber α σ)) (change : Change α) :
    holders (callsFor alive change) = alive.map (·.1) := by
  simp [holders, callsFor, List.filterMap_map]

theorem mem_owed : number ∈ owed tasks ↔
    ∃ subscriber change, .call number subscriber change ∈ tasks := by
  constructor
  · intro mem
    obtain ⟨task, there, same⟩ := List.mem_filterMap.mp mem
    cases task with
    | call n subscriber change =>
      cases same
      exact ⟨subscriber, change, there⟩
    | perform => cases same
    | release => cases same
  · rintro ⟨subscriber, change, there⟩
    exact List.mem_filterMap.mpr ⟨_, there, rfl⟩

theorem mem_holders :
    number ∈ holders tasks ↔ number ∈ owed tasks ∨ .release number ∈ tasks := by
  constructor
  · intro mem
    obtain ⟨task, there, same⟩ := List.mem_filterMap.mp mem
    cases task with
    | call n subscriber change =>
      cases same
      exact .inl (mem_owed.mpr ⟨subscriber, change, there⟩)
    | perform => cases same
    | release n =>
      cases same
      exact .inr there
  · rintro (mem | there)
    · obtain ⟨subscriber, change, there⟩ := mem_owed.mp mem
      exact List.mem_filterMap.mpr ⟨_, there, rfl⟩
    · exact List.mem_filterMap.mpr ⟨_, there, rfl⟩

theorem called_append (h h' : History α) : called (h ++ h') = called h ++ called h' :=
  List.filterMap_append

theorem called_dropped (numbers : List Nat) :
    called (numbers.map .dropped : History α) = [] := by
  simp [called, List.filterMap_map]

end

theorem isAlive_iff {s : Observables α σ} {number : Nat} :
    s.isAlive number ↔ number ∈ s.guards.map (·.2) ∨ number ∈ s.held := by
  simp [isAlive]

theorem mem_living_iff {s : Observables α σ} {o : Observable α (Subscriber α σ)} {number : Nat} :
    number ∈ (s.living o).map (·.1) ↔ number ∈ o.subscribers.map (·.1) ∧ s.isAlive number := by
  constructor
  · intro mem
    obtain ⟨entry, there, rfl⟩ := List.mem_map.mp mem
    obtain ⟨subscribed, alive⟩ := List.mem_filter.mp there
    exact ⟨List.mem_map_of_mem subscribed, alive⟩
  · rintro ⟨mem, alive⟩
    obtain ⟨entry, there, rfl⟩ := List.mem_map.mp mem
    exact List.mem_map_of_mem (List.mem_filter.mpr ⟨there, alive⟩)

/-! ## What one task does -/

structure Notifies (s : Observables α σ) (index : Nat) (value : α) (t : Observables α σ)
    (tasks : List (Task α σ)) : Prop where
  history : t.history = .set index value true :: s.history
  living : ∃ o, s.cells[index]? = some o ∧ t.held = (s.living o).map (·.1) ++ s.held ∧
    owed tasks = (s.living o).map (·.1) ∧ holders tasks = (s.living o).map (·.1)

structure Calmly (s t : Observables α σ) (tasks : List (Task α σ)) : Prop where
  history : ∃ events, t.history = events ++ s.history ∧ called events = [] ∧
    ∀ index value, .set index value true ∉ events
  held : t.held = s.held
  idle : holders tasks = []

section
variable {s t : Observables α σ} {tasks : List (Task α σ)}

theorem Calmly.owed_eq_nil (h : Calmly s t tasks) : owed tasks = [] := by
  have idle := h.idle
  rw [List.eq_nil_iff_forall_not_mem] at idle ⊢
  exact fun number mem => idle number (mem_holders.mpr (.inl mem))

theorem Calmly.of_same (history : t.history = s.history) (held : t.held = s.held)
    (idle : holders tasks = []) : Calmly s t tasks :=
  ⟨⟨[], history, rfl, fun _ _ => List.not_mem_nil⟩, held, idle⟩

end

theorem calmly_subscribe (s : Observables α σ) (name : String) (handle : Nat)
    (callback : α → Program α σ) {tasks : List (Task α σ)} (idle : holders tasks = []) :
    Calmly s (s.subscribe name handle callback) tasks := by
  cases found : s.locate? handle with
  | none =>
    simp only [Observables.subscribe, found]
    exact .of_same rfl rfl idle
  | some located =>
    obtain ⟨index, o⟩ := located
    rw [subscribe_of_locate? found]
    let dropped := (s.guards.filter fun guard => guard.1 == name).map (·.2)
    have silent : called (dropped.map .dropped ++ [.subscribed s.next index] : History α) = [] := by
      rw [called_append, called_dropped]
      rfl
    have history := List.append_assoc (dropped.map .dropped) [.subscribed s.next index] s.history
    exact ⟨⟨_, history.symm, silent, by simp⟩, rfl, idle⟩

variable [BEq α]

theorem notifies_or_calmly_set (s : Observables α σ) (handle : Nat) (value : α)
    (next : Bool → Program α σ) :
    (∃ index value', Notifies s index value' (s.advance (.set handle value next)).1
      (s.advance (.set handle value next)).2) ∨
      Calmly s (s.advance (.set handle value next)).1 (s.advance (.set handle value next)).2 := by
  simp only [advance]
  cases found : s.locate? handle with
  | none =>
    right
    simp only [Observables.set, found]
    exact .of_same (by rfl) (by rfl) (by rfl)
  | some located =>
    obtain ⟨index, o⟩ := located
    cases same : o.value == value with
    | true =>
      right
      rw [set_of_same found same]
      exact ⟨⟨[.set index value false], rfl, rfl, by simp⟩, rfl, rfl⟩
    | false =>
      left
      rw [set_of_differs found same]
      refine ⟨index, value, rfl, o, cell_of_locate? found, rfl, ?_, ?_⟩
      · rw [owed_append, owed_callsFor]
        exact List.append_nil _
      · rw [holders_append, holders_callsFor]
        exact List.append_nil _

/-- What a program does next is a change of an observable, or it calls nobody. -/
theorem advance_cases (s : Observables α σ) (program : Program α σ) :
    (∃ index value, Notifies s index value (s.advance program).1 (s.advance program).2) ∨
      Calmly s (s.advance program).1 (s.advance program).2 := by
  cases program with
  | set handle value next => exact s.notifies_or_calmly_set handle value next
  | done => exact .inr (.of_same (by rfl) (by rfl) (by rfl))
  | create value next => exact .inr ⟨⟨[.created s.cells.size value], rfl, rfl, by simp⟩, rfl, rfl⟩
  | clone handle next =>
    right
    simp only [advance, Observables.clone]
    split
    · exact .of_same (by rfl) (by rfl) (by rfl)
    · exact .of_same (by rfl) (by rfl) (by rfl)
  | read handle next =>
    right
    simp only [advance]
    split
    · next index o _ => exact ⟨⟨[.read index (s.view o)], rfl, rfl, by simp⟩, rfl, rfl⟩
    · exact .of_same (by rfl) (by rfl) (by rfl)
  | subscribe name handle callback next =>
    exact .inr (s.calmly_subscribe name handle callback rfl)
  | drop name next =>
    right
    let dropped := (s.guards.filter fun guard => guard.1 == name).map (·.2)
    exact ⟨⟨dropped.map .dropped, rfl, called_dropped dropped, by simp⟩, rfl, rfl⟩
  | remember change next => exact .inr (.of_same (by rfl) (by rfl) (by rfl))

/-! ## Who is held -/

/-- The subscribers that are held are those that are still to be called or whose calls are going on,
and observables keep them on their lists. -/
structure Holding (s : Observables α σ) (tasks : List (Task α σ)) : Prop
    extends Invariant s tasks where
  held : s.held.Perm (holders tasks)
  listed : ∀ index o, s.cells[index]? = some o → ∀ number ∈ registered s.history index,
    number ∈ s.held → number ∈ o.subscribers.map (·.1)

namespace Holding
variable {s t : Observables α σ} {tasks : List (Task α σ)}

theorem start (memory : σ) (program : Program α σ) :
    Holding ({ memory } : Observables α σ) [.perform program] where
  toInvariant := .start memory program
  held := .nil
  listed index o found := by simp at found

/-- All subscribers that are alive are on the list of the observable that they are registered
with. -/
theorem mem_subscribers (h : Holding s tasks) {index : Nat} {o : Observable α (Subscriber α σ)}
    (found : s.cells[index]? = some o) {number : Nat} (mem : number ∈ registered s.history index)
    (alive : s.isAlive number) : number ∈ o.subscribers.map (·.1) := by
  rcases isAlive_iff.mp alive with guarded | held
  · exact (h.recorded.cell index o found).kept number mem guarded
  · exact h.listed index o found number mem held

/-- A subscriber whose guard is dropped is alive only as long as it is held. -/
theorem held_of_dropped (h : Holding s tasks) {number : Nat} (dropped : .dropped number ∈ s.history)
    (alive : s.isAlive number) : number ∈ s.held := by
  refine (isAlive_iff.mp alive).resolve_left fun guarded => ?_
  exact ((h.recorded.numbered.live_iff number).mp guarded).2 dropped

theorem listed_set (h : Holding s tasks) (handle : Nat) (value : α) :
    ∀ index o, (s.set handle value).1.cells[index]? = some o →
      ∀ number ∈ registered (s.set handle value).1.history index,
        number ∈ (s.set handle value).1.held → number ∈ o.subscribers.map (·.1) := by
  cases found : s.locate? handle with
  | none => simpa [Observables.set, found] using h.listed
  | some located =>
    obtain ⟨changed, old⟩ := located
    cases same : old.value == value with
    | true =>
      rw [set_of_same found same]
      exact h.listed
    | false =>
      rw [set_of_differs found same]
      intro index o there number mem held
      have alive : s.isAlive number := by
        rcases List.mem_append.mp held with living | held
        · exact (mem_living_iff.mp living).2
        · exact isAlive_iff.mpr (.inr held)
      by_cases own : changed = index
      · subst own
        have inside := (Array.getElem?_eq_some_iff.mp (cell_of_locate? found)).1
        simp only [Array.getElem?_setIfInBounds, inside, if_true, Option.some.injEq] at there
        subst there
        exact mem_living_iff.mpr ⟨h.mem_subscribers (cell_of_locate? found) mem alive, alive⟩
      · rw [Array.getElem?_setIfInBounds, if_neg own] at there
        exact h.mem_subscribers there mem alive

theorem listed_subscribe (h : Holding s tasks) (name : String) (handle : Nat)
    (callback : α → Program α σ) :
    ∀ index o, (s.subscribe name handle callback).cells[index]? = some o →
      ∀ number ∈ registered (s.subscribe name handle callback).history index,
        number ∈ (s.subscribe name handle callback).held → number ∈ o.subscribers.map (·.1) := by
  cases found : s.locate? handle with
  | none => simpa [Observables.subscribe, found] using h.listed
  | some located =>
    obtain ⟨subscribed, old⟩ := located
    rw [subscribe_of_locate? found]
    intro index o there number mem held
    rw [(append_dropped _).2.2, registered_subscribed] at mem
    by_cases own : subscribed = index
    · subst own
      simp only [Array.getElem?_modify, cell_of_locate? found, if_true, Option.map_some,
        Option.some.injEq] at there
      subst there
      rw [Observable.subscribe, List.map_append, List.mem_append]
      rw [if_pos rfl, List.mem_append] at mem
      exact mem.imp_left fun mem => h.listed _ _ (cell_of_locate? found) number mem held
    · rw [Array.getElem?_modify, if_neg own] at there
      rw [if_neg own, List.append_nil] at mem
      exact h.listed index o there number mem held

theorem listed_advance {rest : List (Task α σ)} {program : Program α σ}
    (h : Holding s (.perform program :: rest)) :
    ∀ index o, (s.advance program).1.cells[index]? = some o →
      ∀ number ∈ registered (s.advance program).1.history index,
        number ∈ (s.advance program).1.held → number ∈ o.subscribers.map (·.1) := by
  cases program with
  | done => exact h.listed
  | create value next =>
    intro index o there number mem held
    have mem : number ∈ registered s.history index := mem
    have there : (s.cells.push { value })[index]? = some o := there
    rw [Array.getElem?_push] at there
    split at there
    · next new =>
      rw [(h.recorded.fresh index (by simp [new])).2] at mem
      exact absurd mem List.not_mem_nil
    · exact h.listed index o there number mem held
  | clone handle next =>
    simp only [advance, Observables.clone]
    split
    · exact h.listed
    · exact h.listed
  | read handle next =>
    simp only [advance]
    split
    · exact h.listed
    · exact h.listed
  | set handle value next => exact h.listed_set handle value
  | subscribe name handle callback next => exact h.listed_subscribe name handle callback
  | drop name next =>
    intro index o there number mem held
    have mem : number ∈ registered (s.drop name).1.history index := mem
    simp only [Observables.drop, (append_dropped _).2.2] at mem
    exact h.listed index o there number mem held
  | remember change next => exact h.listed

/-- Carrying out a task keeps the account of who is held. -/
theorem perform {task : Task α σ} {rest : List (Task α σ)} (h : Holding s (task :: rest)) :
    Holding (s.perform task).1 ((s.perform task).2 ++ rest) where
  toInvariant := h.toInvariant.perform
  held := by
    rw [holders_append]
    cases task with
    | call number subscriber change => exact h.held
    | release number =>
      have before : s.held.Perm (number :: holders rest) := h.held
      have erased := before.erase number
      rwa [List.erase_cons_head] at erased
    | perform program =>
      have before : s.held.Perm (holders rest) := h.held
      simp only [Observables.perform]
      rcases s.advance_cases program with ⟨index, value, notifies⟩ | calm
      · obtain ⟨o, -, held, -, holding⟩ := notifies.living
        rw [held, holding]
        exact before.append_left _
      · rw [calm.held, calm.idle]
        exact before
  listed := by
    cases task with
    | call number subscriber change => exact h.listed
    | release number =>
      intro index o there other mem held
      exact h.listed index o there other mem (List.mem_of_mem_erase held)
    | perform program => exact h.listed_advance

end Holding

/-! ## Moments of a run -/

/-- From a state and what is still to be done there, a run comes to another moment. -/
inductive Leads : Observables α σ → List (Task α σ) → Observables α σ → List (Task α σ) → Prop where
  | here (s : Observables α σ) (tasks : List (Task α σ)) : Leads s tasks s tasks
  | perform {s t : Observables α σ} {task : Task α σ} {rest tasks : List (Task α σ)} :
    Leads (s.perform task).1 ((s.perform task).2 ++ rest) t tasks → Leads s (task :: rest) t tasks

namespace Leads
variable {s t final : Observables α σ} {tasks rest : List (Task α σ)}

theorem holding (moment : Leads s tasks t rest) (h : Holding s tasks) : Holding t rest := by
  induction moment with
  | here => exact h
  | perform _ ih => exact ih h.perform

theorem of_run {fuel : Nat} (ends : run fuel s tasks = some final) : Leads s tasks final [] := by
  induction fuel generalizing s tasks with
  | zero =>
    cases tasks with
    | nil =>
      cases ends
      exact .here _ []
    | cons => cases ends
  | succ fuel ih =>
    cases tasks with
    | nil =>
      cases ends
      exact .here _ []
    | cons task rest => exact .perform (ih ends)

/-- A run has one course, in which its end comes after all moments. -/
theorem before_end (moment : Leads s tasks t rest) (ends : Leads s tasks final []) :
    Leads t rest final [] := by
  induction moment with
  | here => exact ends
  | perform _ ih =>
    cases ends with
    | perform ends => exact ih ends

end Leads

/-- What a task tells of calls is its own. -/
theorem called_perform (s : Observables α σ) (task : Task α σ) :
    ∃ events, (s.perform task).1.history = events ++ s.history ∧ ∀ number,
      number ∈ called events ↔ ∃ subscriber change, task = .call number subscriber change := by
  cases task with
  | call n subscriber change =>
    refine ⟨[.called n subscriber.name change], rfl, fun number => ?_⟩
    simp [called, eq_comm]
  | release n => exact ⟨[], rfl, by simp [called]⟩
  | perform program =>
    rcases s.advance_cases program with ⟨index, value, notifies⟩ | calm
    · exact ⟨[.set index value true], notifies.history, by simp [called]⟩
    · obtain ⟨events, history, silent, -⟩ := calm.history
      exact ⟨events, history, by simp [silent]⟩

theorem Leads.history {s t : Observables α σ} {tasks rest : List (Task α σ)}
    (moment : Leads s tasks t rest) : ∃ events, t.history = events ++ s.history := by
  induction moment with
  | here => exact ⟨[], rfl⟩
  | @perform s t task _ _ _ ih =>
    obtain ⟨later, history⟩ := ih
    obtain ⟨events, performed, -⟩ := s.called_perform task
    exact ⟨later ++ events, by rw [history, performed, List.append_assoc]⟩

/-- Whether one more change calls a subscriber: one of an observable that it is registered with, at
a moment at which something still holds it. -/
def CalledAnew (s : Observables α σ) (tasks : List (Task α σ)) (number : Nat) : Prop :=
  ∃ t task rest index value, Leads s tasks t (task :: rest) ∧
    (t.perform task).1.history = .set index value true :: t.history ∧
    number ∈ registered t.history index ∧ number ∈ t.held

section
variable {s : Observables α σ} {task : Task α σ} {rest : List (Task α σ)} {number : Nat}

/-- Who is to be called after a task was to be called before, or is called by a change. -/
theorem owed_perform (h : Holding s (task :: rest)) (dropped : .dropped number ∈ s.history)
    (mem : number ∈ owed ((s.perform task).2 ++ rest)) :
    number ∈ owed rest ∨ CalledAnew s (task :: rest) number := by
  rw [owed_append, List.mem_append] at mem
  rcases mem with new | old
  · right
    cases task with
    | call => exact absurd new List.not_mem_nil
    | release => exact absurd new List.not_mem_nil
    | perform program =>
      simp only [Observables.perform] at new
      rcases s.advance_cases program with ⟨index, value, notifies⟩ | calm
      · obtain ⟨o, found, -, calls, -⟩ := notifies.living
        rw [calls] at new
        obtain ⟨subscribed, alive⟩ := mem_living_iff.mp new
        exact ⟨s, _, rest, index, value, .here s _, notifies.history,
          (h.recorded.cell index o found).order.mem subscribed, h.held_of_dropped dropped alive⟩
      · rw [calm.owed_eq_nil] at new
        exact absurd new List.not_mem_nil
  · exact .inl old

/-- A change at which a subscriber is held makes its call one of those that are to come. -/
theorem owed_of_change (h : Holding s (task :: rest)) {index : Nat} {value : α}
    (change : (s.perform task).1.history = .set index value true :: s.history)
    (mem : number ∈ registered s.history index) (held : number ∈ s.held) :
    number ∈ owed ((s.perform task).2 ++ rest) := by
  rw [owed_append, List.mem_append]
  left
  cases task with
  | call n subscriber change' => simp [Observables.perform, Observables.record] at change
  | release n => simp [Observables.perform] at change
  | perform program =>
    simp only [Observables.perform] at change ⊢
    rcases s.advance_cases program with ⟨i, v, notifies⟩ | calm
    · obtain ⟨o, found, -, calls, -⟩ := notifies.living
      have same := notifies.history.symm.trans change
      simp only [List.cons.injEq, Event.set.injEq, and_true] at same
      obtain ⟨rfl, rfl⟩ := same
      have alive : s.isAlive number := isAlive_iff.mpr (.inr held)
      rw [calls]
      exact mem_living_iff.mpr ⟨h.mem_subscribers found mem alive, alive⟩
    · obtain ⟨events, history, -, unchanged⟩ := calm.history
      have only : events = [.set index value true] := by
        rw [change] at history
        exact (List.append_cancel_right (history.symm : events ++ s.history = [_] ++ s.history))
      exact absurd (only ▸ List.mem_singleton_self _) (unchanged index value)

theorem dropped_perform (dropped : .dropped number ∈ s.history) :
    .dropped number ∈ (s.perform task).1.history := by
  obtain ⟨events, history, -⟩ := s.called_perform task
  rw [history]
  exact List.mem_append_right _ dropped

theorem held_of_perform (h : Holding s (task :: rest)) (dropped : .dropped number ∈ s.history)
    (held : number ∈ (s.perform task).1.held) : number ∈ s.held := by
  cases task with
  | call => exact held
  | release => exact List.mem_of_mem_erase held
  | perform program =>
    simp only [Observables.perform] at held
    rcases s.advance_cases program with ⟨index, value, notifies⟩ | calm
    · obtain ⟨o, -, kept, -⟩ := notifies.living
      rw [kept, List.mem_append] at held
      rcases held with living | held
      · exact h.held_of_dropped dropped (mem_living_iff.mp living).2
      · exact held
    · exact calm.held ▸ held

end

section
variable {s t : Observables α σ} {tasks rest : List (Task α σ)} {number : Nat}

/-- Nothing takes hold again of a subscriber that is dropped and let go. -/
theorem Leads.held_before (moment : Leads s tasks t rest) (h : Holding s tasks)
    (dropped : .dropped number ∈ s.history) (held : number ∈ t.held) : number ∈ s.held := by
  induction moment with
  | here => exact held
  | perform _ ih => exact held_of_perform h dropped (ih h.perform (dropped_perform dropped) held)

/-- A dropped subscriber is called later only if its call is to come, or if it is called anew. -/
theorem Leads.owed_before (moment : Leads s tasks t rest) (h : Holding s tasks)
    (dropped : .dropped number ∈ s.history) :
    ∃ after, t.history = after ++ s.history ∧
      (number ∈ called after → number ∈ owed tasks ∨ CalledAnew s tasks number) := by
  induction moment with
  | here s tasks => exact ⟨[], rfl, fun mem => absurd mem List.not_mem_nil⟩
  | @perform s t task rest tasks _ ih =>
    obtain ⟨later, history, only⟩ := ih h.perform (dropped_perform dropped)
    obtain ⟨events, performed, calls⟩ := s.called_perform task
    refine ⟨later ++ events, by rw [history, performed, List.append_assoc], fun mem => ?_⟩
    rw [called_append, List.mem_append] at mem
    rcases mem with mem | mem
    · rcases only mem with mem | ⟨t, next, rest', index, value, moment, anew⟩
      · refine (owed_perform h dropped mem).imp_left fun mem => ?_
        obtain ⟨subscriber, change, there⟩ := mem_owed.mp mem
        exact mem_owed.mpr ⟨subscriber, change, List.mem_cons_of_mem _ there⟩
      · exact .inr ⟨t, next, rest', index, value, .perform moment, anew⟩
    · obtain ⟨subscriber, change, rfl⟩ := (calls number).mp mem
      exact .inl List.mem_cons_self

/-- A call that is to come has been made at a later moment, or is still to come. -/
theorem Leads.called_or_owed (moment : Leads s tasks t rest) (mem : number ∈ owed tasks) :
    ∃ after, t.history = after ++ s.history ∧ (number ∈ called after ∨ number ∈ owed rest) := by
  induction moment with
  | here s tasks => exact ⟨[], rfl, .inr mem⟩
  | @perform s t task rest tasks moment ih =>
    obtain ⟨events, performed, calls⟩ := s.called_perform task
    obtain ⟨subscriber, change, there⟩ := mem_owed.mp mem
    rcases List.mem_cons.mp there with rfl | there
    · obtain ⟨later, history⟩ := moment.history
      refine ⟨later ++ events, by rw [history, performed, List.append_assoc], .inl ?_⟩
      rw [called_append]
      exact List.mem_append_right _ ((calls number).mpr ⟨subscriber, change, rfl⟩)
    · have mem : number ∈ owed ((s.perform task).2 ++ rest) :=
        owed_append ▸ List.mem_append_right _ (mem_owed.mpr ⟨subscriber, change, there⟩)
      obtain ⟨later, history, either⟩ := ih mem
      refine ⟨later ++ events, by rw [history, performed, List.append_assoc], ?_⟩
      rw [called_append]
      exact either.imp_left (List.mem_append_left _)

/-- All calls that are to come are made until a run ends. -/
theorem called_of_owed (moment : Leads s tasks t []) (mem : number ∈ owed tasks) :
    ∃ after, t.history = after ++ s.history ∧ number ∈ called after := by
  obtain ⟨after, history, either⟩ := moment.called_or_owed mem
  exact ⟨after, history, either.resolve_right List.not_mem_nil⟩

/-- So are those of a change that is to come. -/
theorem called_of_calledAnew {final : Observables α σ} (ends : Leads s tasks final [])
    (h : Holding s tasks) (anew : CalledAnew s tasks number) :
    ∃ after, final.history = after ++ s.history ∧ number ∈ called after := by
  obtain ⟨t, task, rest, index, value, moment, change, registered, held⟩ := anew
  obtain ⟨earlier, history⟩ := moment.history
  cases moment.before_end ends with
  | perform ends =>
    have owed := owed_of_change (moment.holding h) change registered held
    obtain ⟨later, history', called⟩ := called_of_owed ends owed
    refine ⟨later ++ .set index value true :: earlier, ?_, ?_⟩
    · rw [history', change, history]
      simp
    · rw [called_append]
      exact List.mem_append_left _ called

end

/-- Whatever is dropped while nothing holds it is never called again, in a run that ends or not.
What is dropped while it is held is called again before the end exactly if its call for a change
that was made is still to come, or if it is called anew by a change that is made while it is still
held. It is held by its calls that are to come and by those that are going on. -/
theorem called_after_drop {memory : σ} {program : Program α σ} {s : Observables α σ}
    {tasks : List (Task α σ)} {number : Nat}
    (moment : Leads { memory } [.perform program] s tasks) (dropped : .dropped number ∈ s.history) :
    (number ∈ s.held ↔ number ∈ owed tasks ∨ .release number ∈ tasks) ∧
    (∀ t rest, Leads s tasks t rest → ∃ after, t.history = after ++ s.history ∧
      (number ∈ called after → number ∈ s.held)) ∧
    ∀ fuel final, run fuel { memory } [.perform program] = some final →
      ∃ after, final.history = after ++ s.history ∧
        (number ∈ called after ↔ number ∈ owed tasks ∨ CalledAnew s tasks number) := by
  have holding := moment.holding (.start memory program)
  have held : number ∈ s.held ↔ number ∈ owed tasks ∨ .release number ∈ tasks :=
    holding.held.mem_iff.trans mem_holders
  refine ⟨held, fun t rest later => ?_, fun fuel final ends => ?_⟩
  · obtain ⟨after, history, only⟩ := later.owed_before holding dropped
    refine ⟨after, history, fun mem => ?_⟩
    rcases only mem with mem | ⟨t, task, rest, index, value, later, -, -, holds⟩
    · exact held.mpr (.inl mem)
    · exact later.held_before holding dropped holds
  · have rest := moment.before_end (.of_run ends)
    obtain ⟨after, history, only⟩ := rest.owed_before holding dropped
    refine ⟨after, history, only, fun either => ?_⟩
    have again : ∃ after, final.history = after ++ s.history ∧ number ∈ called after := by
      rcases either with mem | anew
      · exact called_of_owed rest mem
      · exact called_of_calledAnew rest holding anew
    obtain ⟨after', history', called⟩ := again
    exact List.append_cancel_right (history.symm.trans history') ▸ called

/-- A subscriber that drops the next one, which is to be called as well, and then makes a change. -/
def dropping : Program Nat Unit :=
  .create 0 fun handle =>
    .subscribe "first" handle
      (fun value => .drop "second" fun _ =>
        if value < 2 then .set handle 2 fun _ => .done else .done) <|
    .subscribe "second" handle (fun _ => .done) <|
    .set handle 1 fun _ => .done

/-- The second subscriber is called twice after its guard is dropped: for the change that was made
before, and for the one that was made after it was dropped. -/
theorem called_after_drop_dropping :
    ∃ s tasks, Leads { memory := () } [.perform dropping] s tasks ∧
      s.history = [.dropped 1, .called 0 "first" ⟨0, 1, 1⟩, .set 0 1 true, .subscribed 1 0,
        .subscribed 0 0, .created 0 0] ∧
      owed tasks = [1] ∧ 1 ∈ s.held ∧
      ∃ final after, run 30 { memory := () } [.perform dropping] = some final ∧
        final.history = after ++ s.history ∧ 1 ∈ called after ∧
        calls final.history 0 1 = [(0, 1), (1, 1)] ∧
        calls final.history 0 2 = [(0, 2), (1, 2)] := by
  have moment : ∃ s tasks, Leads { memory := () } [.perform dropping] s tasks ∧
      s.history = [.dropped 1, .called 0 "first" ⟨0, 1, 1⟩, .set 0 1 true, .subscribed 1 0,
        .subscribed 0 0, .created 0 0] ∧ owed tasks = [1] :=
    ⟨_, _, .perform (.perform (.perform (.perform (.perform (.perform (.here _ _)))))), rfl, rfl⟩
  have ending : ∃ final, run 30 { memory := () } [.perform dropping] = some final ∧
      calls final.history 0 1 = [(0, 1), (1, 1)] ∧ calls final.history 0 2 = [(0, 2), (1, 2)] :=
    ⟨_, rfl, rfl, rfl⟩
  obtain ⟨s, tasks, moment, history, owes⟩ := moment
  obtain ⟨final, ends, calls⟩ := ending
  obtain ⟨held, -, exactly⟩ := called_after_drop moment (history ▸ List.mem_cons_self)
  have mem : 1 ∈ owed tasks := owes ▸ List.mem_singleton_self 1
  obtain ⟨after, split, called⟩ := exactly 30 final ends
  exact ⟨s, tasks, moment, history, owes, held.mpr (.inl mem), final, after, ends, split,
    called.mpr (.inl mem), calls⟩

end FormDependencies.Observables
