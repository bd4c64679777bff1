import FormDependencies.Proofs.Engine.Step
import Mathlib.Data.List.Basic

/-!
Which passes are scheduled. Events of structure schedule one pass at most, which has no callback;
changes of values and passes schedule none.
-/

namespace FormDependencies.Engine
variable {ν : Type}

structure Schedules (e e' : Engine ν) : Prop where
  count : e'.ready.length + e'.parked.length ≤ e.ready.length + e.parked.length + 1
  known : ∀ pass ∈ e'.ready ++ e'.parked, pass ∈ e.ready ++ e.parked ∨ pass.callback = none

theorem Steady.schedules {e e' : Engine ν} (h : Steady e e') : Schedules e e' := by
  refine ⟨?_, fun pass mem => .inl ?_⟩
  · rw [h.ready, h.parked]
    exact Nat.le_succ _
  · rwa [h.ready, h.parked] at mem

theorem Schedules.after {e e' e'' : Engine ν} (h : Schedules e' e'') (steady : Steady e e') :
    Schedules e e'' := by
  refine ⟨?_, fun pass mem => ?_⟩
  · rw [← steady.ready, ← steady.parked]
    exact h.count
  · rw [← steady.ready, ← steady.parked]
    exact h.known pass mem

theorem passes_request (e : Engine ν) (doc : Document) (container : ElementId)
    (callback : Option (Document → Document × List ν)) :
    let e' := e.request doc container callback
    e'.ready.length + e'.parked.length ≤ e.ready.length + e.parked.length + 1 ∧
      ∀ pass ∈ e'.ready ++ e'.parked, pass ∈ e.ready ++ e.parked ∨ pass.callback = callback := by
  unfold request schedule
  split
  · refine ⟨?_, fun pass mem => ?_⟩
    · simp only [List.length_append, List.length_singleton, log]
      omega
    · simp only [log, List.mem_append, List.mem_singleton] at mem ⊢
      rcases mem with (ready | rfl) | parked
      · exact .inl (.inl ready)
      · exact .inr rfl
      · exact .inl (.inr parked)
  · refine ⟨?_, fun pass mem => ?_⟩
    · simp only [List.length_append, List.length_singleton, log]
      omega
    · simp only [log, List.mem_append, List.mem_singleton] at mem ⊢
      rcases mem with ready | parked | rfl
      · exact .inl (.inl ready)
      · exact .inl (.inr parked)
      · exact .inr rfl

theorem schedules_request (e : Engine ν) (doc : Document) (container : ElementId) :
    Schedules e (e.request doc container none) := by
  obtain ⟨count, known⟩ := e.passes_request doc container none
  exact ⟨count, known⟩

theorem schedules_unpark (e : Engine ν) (doc : Document) : Schedules e (e.unpark doc) := by
  let attached := e.parked.filter fun pass => doc.isAttached pass.container
  have ready : (e.unpark doc).ready =
      e.ready ++ attached.filter fun pass => doc.isReady pass.container := by
    simp [unpark, dropDetached, attached, List.partition_eq_filter_filter]
  have parked : (e.unpark doc).parked =
      attached.filter fun pass => !doc.isReady pass.container := by
    simp [unpark, dropDetached, attached, List.partition_eq_filter_filter, Function.comp_def]
  have fewer : attached.length ≤ e.parked.length := List.length_filter_le ..
  have parts := attached.length_eq_length_filter_add fun pass => doc.isReady pass.container
  refine ⟨?_, fun pass mem => .inl ?_⟩
  · rw [ready, parked, List.length_append]
    omega
  · rw [ready, parked] at mem
    simp only [attached, List.mem_append, List.mem_filter] at mem ⊢
    rcases mem with (ready | ⟨⟨there, -⟩, -⟩) | ⟨⟨there, -⟩, -⟩
    · exact .inl ready
    · exact .inr there
    · exact .inr there

theorem schedules_dispatch (e : Engine ν) (doc : Document) (event : Event) :
    Schedules e (e.dispatch doc event).1 := by
  have logged : Steady e (e.log (.event event)) := .log e _
  let e₀ := e.log (.event event)
  have changed := logged.trans (e₀.announces_elementChanged doc event.target).1
  have flushed := changed.trans ((e₀.elementChanged doc event.target).flushes_flush doc).1
  have collection : Schedules e (if e₀.collection.holds doc event.target then
      e₀.collectionChanged doc event.target else (e₀, doc)).1 := by
    split
    · obtain ⟨e₁, steady, -, same⟩ := e₀.collectionChanged_shape doc event.target
      rw [same]
      have settled := logged.trans (steady.trans (e₁.flushes_flush doc).1)
      exact (schedules_request (e₁.flush doc).1 (e₁.flush doc).2 event.target).after settled
    · exact logged.schedules
  unfold dispatch
  cases event.kind with
  | contentLoaded => exact (e₀.schedules_request doc event.target).after logged
  | componentReady => exact (e₀.schedules_unpark doc).after logged
  | change => exact flushed.schedules
  | selected => exact flushed.schedules
  | collectionAdd => exact collection
  | collectionRemove => exact collection

/-- A change of a value schedules nothing. -/
theorem steady_dispatch (e : Engine ν) (doc : Document) {event : Event}
    (change : event.kind.isValueChange) : Steady e (e.dispatch doc event).1 := by
  have logged : Steady e (e.log (.event event)) := .log e _
  let e₀ := e.log (.event event)
  have changed := logged.trans (e₀.announces_elementChanged doc event.target).1
  have flushed := changed.trans ((e₀.elementChanged doc event.target).flushes_flush doc).1
  unfold dispatch
  cases kind : event.kind with
  | change => exact flushed
  | selected => exact flushed
  | _ => simp [kind, EventKind.isValueChange] at change

/-- The beginning of a turn only drops passes. -/
theorem sublist_beginTurn (e : Engine ν) (doc : Document) :
    ((e.beginTurn doc).ready ++ (e.beginTurn doc).parked).Sublist (e.ready ++ e.parked) :=
  List.filter_sublist.append_left e.ready

end FormDependencies.Engine
