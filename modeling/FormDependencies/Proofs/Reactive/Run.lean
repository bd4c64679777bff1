import Mathlib.Data.List.Nodup
import FormDependencies.Proofs.Reactive.Delivery

/-!
Runs of programs over observables. What a program is told is true, and all calls of a change are
made until the program ends, whatever its subscribers set, subscribe and drop while they are called.
-/

namespace FormDependencies.Observables

open History

variable {α σ : Type}

theorem cell_of_locate? {s : Observables α σ} {handle index : Nat}
    {o : Observable α (Subscriber α σ)} (found : s.locate? handle = some (index, o)) :
    s.cells[index]? = some o := by
  obtain ⟨i, _, found⟩ := Option.bind_eq_some_iff.mp found
  obtain ⟨_, cell, same⟩ := Option.map_eq_some_iff.mp found
  cases same
  exact cell

/-- The guards that are kept are those that are not dropped. -/
theorem mem_kept_iff {guards : List (String × Nat)} (distinct : (guards.map (·.2)).Nodup)
    (name : String) (number : Nat) :
    number ∈ (guards.filter fun guard => guard.1 != name).map (·.2) ↔
      number ∈ guards.map (·.2) ∧
        number ∉ (guards.filter fun guard => guard.1 == name).map (·.2) := by
  constructor
  · intro kept
    obtain ⟨guard, there, rfl⟩ := List.mem_map.mp kept
    obtain ⟨mem, other⟩ := List.mem_filter.mp there
    refine ⟨List.mem_map_of_mem mem, fun dropped => ?_⟩
    obtain ⟨guard', there', same⟩ := List.mem_map.mp dropped
    obtain ⟨mem', named⟩ := List.mem_filter.mp there'
    rw [List.inj_on_of_nodup_map distinct mem' mem same] at named
    simp [beq_iff_eq.mp named] at other
  · rintro ⟨mem, kept⟩
    obtain ⟨guard, there, rfl⟩ := List.mem_map.mp mem
    refine List.mem_map_of_mem (List.mem_filter.mpr ⟨there, ?_⟩)
    rw [bne_iff_ne]
    intro named
    exact kept (List.mem_map_of_mem (List.mem_filter.mpr ⟨there, beq_iff_eq.mpr named⟩))

theorem mem_of_mem_dropped {guards : List (String × Nat)} {name : String} {number : Nat}
    (mem : number ∈ (guards.filter fun guard => guard.1 == name).map (·.2)) :
    number ∈ guards.map (·.2) :=
  (List.filter_sublist.map _).mem mem

theorem subscribe_of_locate? {s : Observables α σ} {handle index : Nat}
    {o : Observable α (Subscriber α σ)} (found : s.locate? handle = some (index, o)) (name : String)
    (callback : α → Program α σ) :
    s.subscribe name handle callback =
      { s with
        cells := s.cells.modify index (·.subscribe s.next ⟨name, callback⟩)
        guards := (name, s.next) :: s.guards.filter fun guard => guard.1 != name
        next := s.next + 1
        history := ((s.guards.filter fun guard => guard.1 == name).map (·.2)).map .dropped ++
          .subscribed s.next index :: s.history } := by
  simp only [subscribe, found]
  rfl

theorem set_of_same [BEq α] {s : Observables α σ} {handle index : Nat}
    {o : Observable α (Subscriber α σ)} (found : s.locate? handle = some (index, o)) {value : α}
    (same : (o.value == value) = true) :
    s.set handle value = (s.record (.set index value false), false, []) := by
  simp [set, found, Observable.set, same]

theorem set_of_differs [BEq α] {s : Observables α σ} {handle index : Nat}
    {o : Observable α (Subscriber α σ)} (found : s.locate? handle = some (index, o)) {value : α}
    (differs : (o.value == value) = false) :
    s.set handle value =
      ({ s with
        cells := s.cells.setIfInBounds index ⟨value, o.version + 1, s.living o⟩
        held := (s.living o).map (·.1) ++ s.held
        history := .set index value true :: s.history }, true,
        callsFor (s.living o) ⟨index, o.version + 1, value⟩) := by
  simp only [set, found, Observable.set, differs]
  rfl

/-- A subscriber whose guard is kept is alive. -/
theorem mem_living {s : Observables α σ} {o : Observable α (Subscriber α σ)} {number : Nat}
    (guarded : number ∈ s.guards.map (·.2)) (mem : number ∈ o.subscribers.map (·.1)) :
    number ∈ (s.living o).map (·.1) := by
  obtain ⟨entry, there, rfl⟩ := List.mem_map.mp mem
  obtain ⟨guard, kept, same⟩ := List.mem_map.mp guarded
  refine List.mem_map_of_mem (List.mem_filter.mpr ⟨there, ?_⟩)
  simp only [isAlive, Bool.or_eq_true, List.any_eq_true, beq_iff_eq]
  exact .inl ⟨guard, kept, same⟩

variable [BEq α]

structure Invariant (s : Observables α σ) (tasks : List (Task α σ)) : Prop where
  recorded : Recorded s.cells s.next s.history (s.guards.map (·.2))
  faithful : Faithful s.history
  owed : Owed s.history tasks

namespace Invariant

variable {s : Observables α σ} {tasks : List (Task α σ)}

theorem start (memory : σ) (program : Program α σ) :
    Invariant ({ memory } : Observables α σ) [.perform program] where
  recorded := Recorded.start
  faithful after event before same := by simp at same
  owed := ⟨fun _ _ _ mem => by simp at mem, fun after before _ _ same => by simp at same⟩

theorem perform_next (i : Invariant s tasks) (program : Program α σ) :
    Invariant s (.perform program :: tasks) where
  recorded := i.recorded
  faithful := i.faithful
  owed := i.owed.congr (fun _ _ _ mem => by simpa using mem) rfl

theorem rest {program : Program α σ} (i : Invariant s (.perform program :: tasks)) :
    Invariant s tasks where
  recorded := i.recorded
  faithful := i.faithful
  owed := i.owed.congr (fun _ _ _ mem => List.mem_cons_of_mem _ mem) rfl

theorem create (i : Invariant s tasks) (value : α) : Invariant (s.create value) tasks where
  recorded := i.recorded.create value
  faithful := i.faithful.cons trivial
  owed := i.owed.calm trivial

theorem clone (i : Invariant s tasks) (handle : Nat) : Invariant (s.clone handle) tasks := by
  unfold Observables.clone
  split
  · exact ⟨i.recorded, i.faithful, i.owed⟩
  · exact i

theorem read (i : Invariant s tasks) {handle index : Nat} {o : Observable α (Subscriber α σ)}
    (found : s.locate? handle = some (index, o)) :
    Invariant (s.record (.read index (s.view o))) tasks where
  recorded := i.recorded.idle trivial
  faithful := by
    have cell := i.recorded.cell index o (cell_of_locate? found)
    exact i.faithful.cons ⟨cell.value, cell.version⟩
  owed := i.owed.calm trivial

theorem drop (i : Invariant s tasks) (name : String) : Invariant (s.drop name).1 tasks where
  recorded := by
    have distinct := i.recorded.numbered.distinct
    exact i.recorded.drop (fun _ mem => mem_of_mem_dropped mem) (mem_kept_iff distinct name)
      (distinct.sublist (List.filter_sublist.map _))
  faithful := i.faithful.append_dropped _
  owed := i.owed.append_dropped _

theorem subscribe (i : Invariant s tasks) (name : String) (handle : Nat)
    (callback : α → Program α σ) : Invariant (s.subscribe name handle callback) tasks := by
  cases found : s.locate? handle with
  | none => simpa [Observables.subscribe, found] using i
  | some located =>
    obtain ⟨index, o⟩ := located
    have distinct := i.recorded.numbered.distinct
    have new := i.recorded.numbered.new_not_live
    have added := i.recorded.subscribe (cell_of_locate? found) ⟨name, callback⟩
    have faithful : Faithful (.subscribed s.next index :: s.history) :=
      i.faithful.cons i.recorded.numbered.new_not_mem
    have owed : Owed (.subscribed s.next index :: s.history) tasks := i.owed.calm trivial
    rw [subscribe_of_locate? found]
    refine ⟨added.drop (fun _ mem => List.mem_cons_of_mem _ (mem_of_mem_dropped mem))
      (fun number => ?_) ?_, faithful.append_dropped _, owed.append_dropped _⟩
    · have kept := mem_kept_iff distinct name number
      have apart : number = s.next →
          number ∉ (s.guards.filter fun guard => guard.1 == name).map (·.2) := by
        rintro rfl mem
        exact new (mem_of_mem_dropped mem)
      rw [List.map_cons, List.mem_cons, List.mem_cons, kept]
      tauto
    · refine List.nodup_cons.mpr ⟨fun mem => ?_, distinct.sublist (List.filter_sublist.map _)⟩
      exact new ((mem_kept_iff distinct name s.next).mp mem).1

theorem set (i : Invariant s tasks) (handle : Nat) (value : α) :
    Invariant (s.set handle value).1 ((s.set handle value).2.2 ++ tasks) := by
  cases found : s.locate? handle with
  | none => simpa [Observables.set, found] using i
  | some located =>
    obtain ⟨index, o⟩ := located
    have cell := i.recorded.cell index o (cell_of_locate? found)
    cases same : o.value == value with
    | true =>
      rw [set_of_same found same]
      exact ⟨i.recorded.idle trivial, i.faithful.cons ⟨o.value, cell.value, by simp [same]⟩,
        i.owed.calm trivial⟩
    | false =>
      rw [set_of_differs found same]
      have order : ((s.living o).map (·.1)).Sublist (o.subscribers.map (·.1)) :=
        List.filter_sublist.map _
      refine ⟨i.recorded.change (cell_of_locate? found) rfl order fun _ => mem_living,
        i.faithful.cons ⟨o.value, cell.value, by simp [same]⟩, ?_⟩
      rw [cell.version]
      refine i.owed.change i.faithful (order.trans cell.order)
        (i.recorded.numbered.registered_nodup index) fun number mem alive => ?_
      have guarded := (i.recorded.numbered.live_iff number).mpr alive
      exact mem_living guarded (cell.kept number mem guarded)

/-- Carrying out a task keeps what holds between tasks. -/
theorem perform {task : Task α σ} (i : Invariant s (task :: tasks)) :
    Invariant (s.perform task).1 ((s.perform task).2 ++ tasks) := by
  cases task with
  | call number subscriber change =>
    have happened : Changed s.history change :=
      i.owed.origin number subscriber change List.mem_cons_self
    refine ⟨i.recorded.idle trivial, i.faithful.cons happened, ?_⟩
    exact i.owed.call.congr (fun _ _ _ mem => by simpa [Observables.perform] using mem) rfl
  | release number =>
    exact ⟨i.recorded, i.faithful,
      i.owed.congr (fun _ _ _ mem => List.mem_cons_of_mem _ mem) rfl⟩
  | perform program =>
    have others := i.rest
    cases program with
    | done => exact others
    | create value next => exact (others.create value).perform_next _
    | clone handle next => exact (others.clone handle).perform_next _
    | read handle next =>
      simp only [Observables.perform, advance]
      split
      · next index o found => exact (others.read found).perform_next _
      · exact others.perform_next _
    | set handle value next =>
      have after := (others.perform_next (next (s.set handle value).2.1)).set handle value
      simpa [Observables.perform, advance] using after
    | subscribe name handle callback next =>
      exact (others.subscribe name handle callback).perform_next _
    | drop name next => exact (others.drop name).perform_next _
    | remember change next =>
      have remembered : Invariant { s with memory := change s.memory } tasks :=
        ⟨others.recorded, others.faithful, others.owed⟩
      exact remembered.perform_next _

/-- What holds between tasks holds when none is left. -/
theorem run {fuel : Nat} {final : Observables α σ} (i : Invariant s tasks)
    (ends : Observables.run fuel s tasks = some final) : Invariant final [] := by
  induction fuel generalizing s tasks with
  | zero =>
    cases tasks with
    | nil =>
      cases ends
      exact i
    | cons => cases ends
  | succ fuel ih =>
    cases tasks with
    | nil =>
      cases ends
      exact i
    | cons task rest => exact ih i.perform ends

end Invariant

/-- Until a program ends, every set and every reading answers by what was stored, nobody is called
but for a change that was made, and each change has called, in order of registration, each with its
value and once, only subscribers that were registered before and all that were alive. -/
theorem run_delivers {fuel : Nat} {memory : σ} {program : Program α σ} {final : Observables α σ}
    (ends : run fuel { memory } [.perform program] = some final) :
    Faithful final.history ∧
    (∀ index o, final.cells[index]? = some o →
      stored? final.history index = some o.value ∧ o.version = changes final.history index) ∧
    ∀ after before index value, final.history = after ++ .set index value true :: before →
      Delivered before index value (calls final.history index (changes before index + 1)) ∧
      ∀ number i, .subscribed number i ∈ after →
        number ∉ (calls final.history index (changes before index + 1)).map (·.1) := by
  have invariant := (Invariant.start memory program).run ends
  refine ⟨invariant.faithful, fun index o found => ?_, fun after before index value same => ?_⟩
  · have cell := invariant.recorded.cell index o found
    exact ⟨cell.value, cell.version⟩
  · have delivered := invariant.owed.delivered after before index value same
    rw [pending, List.filterMap_nil, List.append_nil] at delivered
    refine ⟨delivered, fun number i late mem => ?_⟩
    obtain ⟨later, earlier, rfl⟩ := List.append_of_mem late
    have new : number ∉ registered (earlier ++ .set index value true :: before) index :=
      invariant.faithful later (.subscribed number i) _ (by rw [same]; simp) index
    rw [registered_append] at new
    exact new (List.mem_append_left _ (delivered.order.mem mem))

/-- A subscriber that subscribes another one and makes the next change while it is called, and one
that drops itself while it is still to be called for the change before. -/
def reentrant : Program Nat Unit :=
  .create 0 fun handle =>
    .subscribe "first" handle
      (fun value =>
        if value < 2 then
          .subscribe "late" handle (fun _ => .done) (.update handle (· + 1) fun _ => .done)
        else .done) <|
    .subscribe "second" handle (fun _ => .drop "second" fun _ => .done) <|
    .set handle 1 fun _ => .set handle 2 fun _ => .done

theorem run_delivers_reentrant :
    ∃ final after, run 30 { memory := () } [.perform reentrant] = some final ∧
      final.history = after ++
        .set 0 1 true :: [.subscribed 1 0, .subscribed 0 0, .created 0 0] ∧
      calls final.history 0 2 = [(0, 2), (1, 2), (2, 2)] ∧
      Delivered [.subscribed 1 0, .subscribed 0 0, .created 0 0] 0 1 [(0, 1), (1, 1)] := by
  have split : ∃ final, run 30 { memory := () } [.perform reentrant] = some final ∧
      calls final.history 0 1 = [(0, 1), (1, 1)] ∧
      calls final.history 0 2 = [(0, 2), (1, 2), (2, 2)] ∧
      final.history = [.set 0 2 false, .called 1 "second" ⟨0, 1, 1⟩, .called 2 "late" ⟨0, 2, 2⟩,
        .dropped 1, .called 1 "second" ⟨0, 2, 2⟩, .called 0 "first" ⟨0, 2, 2⟩, .set 0 2 true,
        .read 0 ⟨1, 1, 3⟩, .subscribed 2 0, .called 0 "first" ⟨0, 1, 1⟩] ++
          .set 0 1 true :: [.subscribed 1 0, .subscribed 0 0, .created 0 0] :=
    ⟨_, rfl, rfl, rfl, rfl⟩
  obtain ⟨final, ends, first, second, same⟩ := split
  refine ⟨final, _, ends, same, second, ?_⟩
  rw [← first]
  exact ((run_delivers ends).2.2 _ _ 0 1 same).1

end FormDependencies.Observables
