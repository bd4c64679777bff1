import FormDependencies.Proofs.Reactive.History

/-!
Observables are as their history says: the values, the versions and the subscribers, of which those
whose guards are dropped may be left out.
-/

namespace FormDependencies.Observables

open History

variable {α σ : Type}

/-- Whether subscribers have numbers of their own, all below `next`, and `live` are those with a
guard. -/
structure Numbered (next : Nat) (h : History α) (live : List Nat) : Prop where
  live_iff : ∀ number, number ∈ live ↔ Alive h number
  distinct : live.Nodup
  registered_nodup : ∀ index, (registered h index).Nodup
  registered_lt : ∀ index, ∀ number ∈ registered h index, number < next
  dropped_lt : ∀ number, .dropped number ∈ h → number < next

structure CellRecorded (h : History α) (live : List Nat) (index : Nat)
    (o : Observable α (Subscriber α σ)) : Prop where
  value : stored? h index = some o.value
  version : o.version = changes h index
  order : (o.subscribers.map (·.1)).Sublist (registered h index)
  kept : ∀ number ∈ registered h index, number ∈ live → number ∈ o.subscribers.map (·.1)

structure Recorded (cells : Array (Observable α (Subscriber α σ))) (next : Nat) (h : History α)
    (live : List Nat) : Prop where
  numbered : Numbered next h live
  cell : ∀ index o, cells[index]? = some o → CellRecorded h live index o
  fresh : ∀ index, cells[index]? = none → changes h index = 0 ∧ registered h index = []

section
variable {next : Nat} {h : History α} {live : List Nat}

theorem Numbered.keep (n : Numbered next h live) {event : Event α}
    (same : registered (event :: h) = registered h) (other : ∀ number, event ≠ .dropped number) :
    Numbered next (event :: h) live where
  live_iff number := (n.live_iff number).trans (alive_cons same other number).symm
  distinct := n.distinct
  registered_nodup := same ▸ n.registered_nodup
  registered_lt := same ▸ n.registered_lt
  dropped_lt number mem := by
    rcases List.mem_cons.mp mem with first | mem
    · exact absurd first.symm (other number)
    · exact n.dropped_lt number mem

theorem Numbered.new_not_mem (n : Numbered next h live) (index : Nat) :
    next ∉ registered h index :=
  fun mem => Nat.lt_irrefl _ (n.registered_lt index next mem)

theorem Numbered.new_not_live (n : Numbered next h live) : next ∉ live := by
  intro mem
  obtain ⟨⟨index, registered⟩, _⟩ := (n.live_iff next).mp mem
  exact n.new_not_mem index registered

theorem Numbered.subscribe (n : Numbered next h live) (index : Nat) :
    Numbered (next + 1) (.subscribed next index :: h) (next :: live) where
  live_iff number := by
    have apart : Event.dropped number ∈ .subscribed next index :: h ↔ .dropped number ∈ h := by
      simp
    rw [List.mem_cons, n.live_iff, Alive, Alive, apart]
    constructor
    · rintro (rfl | ⟨⟨i, mem⟩, guarded⟩)
      · refine ⟨⟨index, by simp [registered_subscribed]⟩, fun mem => ?_⟩
        exact Nat.lt_irrefl _ (n.dropped_lt _ mem)
      · exact ⟨⟨i, by simp [registered_subscribed, mem]⟩, guarded⟩
    · rintro ⟨⟨i, mem⟩, guarded⟩
      rw [registered_subscribed] at mem
      rcases List.mem_append.mp mem with old | new
      · exact .inr ⟨⟨i, old⟩, guarded⟩
      · left
        split at new
        · exact List.mem_singleton.mp new
        · cases new
  distinct := List.nodup_cons.mpr ⟨n.new_not_live, n.distinct⟩
  registered_nodup i := by
    rw [registered_subscribed]
    split
    · refine List.nodup_append.mpr ⟨n.registered_nodup i, List.pairwise_singleton .., ?_⟩
      intro number mem number' mem' same
      rw [same, List.mem_singleton.mp mem'] at mem
      exact n.new_not_mem i mem
    · simpa using n.registered_nodup i
  registered_lt i number mem := by
    rw [registered_subscribed] at mem
    rcases List.mem_append.mp mem with old | new
    · exact Nat.lt_succ_of_lt (n.registered_lt i number old)
    · split at new
      · rw [List.mem_singleton.mp new]
        exact Nat.lt_succ_self _
      · cases new
  dropped_lt number mem := by
    rcases List.mem_cons.mp mem with none | mem
    · cases none
    · exact Nat.lt_succ_of_lt (n.dropped_lt number mem)

theorem Numbered.drop (n : Numbered next h live) {numbers live' : List Nat}
    (had : ∀ number ∈ numbers, number ∈ live)
    (left : ∀ number, number ∈ live' ↔ number ∈ live ∧ number ∉ numbers) (distinct : live'.Nodup) :
    Numbered next (numbers.map .dropped ++ h) live' where
  live_iff number := by rw [left, n.live_iff, alive_dropped]
  distinct := distinct
  registered_nodup := by
    rw [(append_dropped numbers).2.2]
    exact n.registered_nodup
  registered_lt := by
    rw [(append_dropped numbers).2.2]
    exact n.registered_lt
  dropped_lt number mem := by
    rcases List.mem_append.mp mem with new | old
    · obtain ⟨_, mem, same⟩ := List.mem_map.mp new
      cases same
      obtain ⟨⟨index, registered⟩, _⟩ := (n.live_iff number).mp (had number mem)
      exact n.registered_lt index number registered
    · exact n.dropped_lt number old

end

/-- What the history says of values, versions and registrations is all that matters of it, and fewer
subscribers may have guards. -/
theorem CellRecorded.congr {h h' : History α} {live live' : List Nat} {index : Nat}
    {o : Observable α (Subscriber α σ)} (c : CellRecorded h live index o)
    (stored : stored? h' = stored? h) (changes : changes h' = changes h)
    (registered : registered h' = registered h) (fewer : ∀ number ∈ live', number ∈ live) :
    CellRecorded h' live' index o where
  value := by rw [stored, c.value]
  version := by rw [changes, c.version]
  order := by rw [registered]; exact c.order
  kept number mem alive := by
    rw [registered] at mem
    exact c.kept number mem (fewer number alive)

namespace Recorded

variable {cells : Array (Observable α (Subscriber α σ))} {next : Nat} {h : History α}
  {live : List Nat} {index : Nat} {o : Observable α (Subscriber α σ)}

theorem start : Recorded (#[] : Array (Observable α (Subscriber α σ))) 0 [] [] where
  numbered := by constructor <;> simp [Alive, registered]
  cell := by simp
  fresh := by simp [changes, registered]

theorem idle (r : Recorded cells next h live) {event : Event α} (idle : event.Idle) :
    Recorded cells next (event :: h) live := by
  obtain ⟨stored, changes, registered⟩ := cons_of_idle (h := h) idle
  refine ⟨r.numbered.keep registered (ne_dropped_of_idle idle), fun index o found => ?_, ?_⟩
  · exact (r.cell index o found).congr stored changes registered fun _ mem => mem
  · rw [changes, registered]
    exact r.fresh

theorem create (r : Recorded cells next h live) (value : α) :
    Recorded (cells.push { value }) next (.created cells.size value :: h) live := by
  refine ⟨r.numbered.keep rfl (by simp), fun index o found => ?_, fun index none => ?_⟩
  · rw [Array.getElem?_push] at found
    split at found
    · next new =>
      cases found
      obtain ⟨unchanged, unregistered⟩ := r.fresh index (by simp [new])
      refine ⟨by simp [stored?_created, new], unchanged.symm, List.nil_sublist _, ?_⟩
      intro number mem
      have mem' : number ∈ registered h index := mem
      rw [unregistered] at mem'
      cases mem'
    · next old =>
      obtain ⟨stored, version, order, kept⟩ := r.cell index o found
      exact ⟨by rwa [stored?_created, if_neg (Ne.symm old)], version, order, kept⟩
  · rw [Array.getElem?_push] at none
    split at none
    · cases none
    · exact r.fresh index none

/-- A change keeps the order of the subscribers and leaves out none with a guard. -/
theorem change (r : Recorded cells next h live) (found : cells[index]? = some o)
    {o' : Observable α (Subscriber α σ)} (version : o'.version = o.version + 1)
    (order : (o'.subscribers.map (·.1)).Sublist (o.subscribers.map (·.1)))
    (kept : ∀ number ∈ live, number ∈ o.subscribers.map (·.1) →
      number ∈ o'.subscribers.map (·.1)) :
    Recorded (cells.setIfInBounds index o') next (.set index o'.value true :: h) live := by
  refine ⟨r.numbered.keep rfl (by simp), fun i other found' => ?_, fun i none => ?_⟩
  · rw [Array.getElem?_setIfInBounds] at found'
    split at found'
    · next this =>
      subst this
      split at found'
      · cases found'
        have old := r.cell index o found
        refine ⟨by simp [stored?_set], by simp [version, old.version, changes_set],
          order.trans old.order, fun number mem alive => ?_⟩
        exact kept number alive (old.kept number mem alive)
      · cases found'
    · next other =>
      have old := r.cell i _ found'
      refine ⟨by rw [stored?_set, if_neg other]; exact old.value, ?_, old.order, old.kept⟩
      rw [changes_set, if_neg other]
      exact old.version
  · rw [Array.getElem?_setIfInBounds] at none
    split at none
    · next this =>
      subst this
      simp [(Array.getElem?_eq_some_iff.mp found).1] at none
    · next other =>
      obtain ⟨unchanged, unregistered⟩ := r.fresh i none
      exact ⟨by rw [changes_set, if_neg other, unchanged], unregistered⟩

theorem subscribe (r : Recorded cells next h live) (found : cells[index]? = some o)
    (subscriber : Subscriber α σ) :
    Recorded (cells.modify index (·.subscribe next subscriber)) (next + 1)
      (.subscribed next index :: h) (next :: live) := by
  refine ⟨r.numbered.subscribe index, fun i other found' => ?_, fun i none => ?_⟩
  · rw [Array.getElem?_modify] at found'
    split at found'
    · next this =>
      subst this
      rw [found] at found'
      cases found'
      obtain ⟨value, version, order, kept⟩ := r.cell index o found
      refine ⟨value, version, ?_, fun number mem alive => ?_⟩
      · simpa [registered_subscribed, Observable.subscribe] using order
      · simp only [Observable.subscribe, List.map_append, List.map_cons, List.map_nil,
          List.mem_append, List.mem_singleton]
        rcases List.mem_cons.mp alive with new | alive
        · exact .inr new
        · rw [registered_subscribed, if_pos rfl] at mem
          rcases List.mem_append.mp mem with old | new
          · exact .inl (kept number old alive)
          · exact .inr (List.mem_singleton.mp new)
    · next other =>
      obtain ⟨value, version, order, kept⟩ := r.cell i _ found'
      refine ⟨value, version, ?_, fun number mem alive => ?_⟩
      · simpa [registered_subscribed, other] using order
      · rw [registered_subscribed, if_neg other, List.append_nil] at mem
        rcases List.mem_cons.mp alive with rfl | alive
        · exact absurd mem (r.numbered.new_not_mem i)
        · exact kept number mem alive
  · rw [Array.getElem?_modify] at none
    split at none
    · next this =>
      subst this
      rw [found] at none
      cases none
    · next other =>
      obtain ⟨unchanged, unregistered⟩ := r.fresh i none
      exact ⟨unchanged, by rw [registered_subscribed, if_neg other, unregistered]; rfl⟩

theorem drop (r : Recorded cells next h live) {numbers live' : List Nat}
    (had : ∀ number ∈ numbers, number ∈ live)
    (left : ∀ number, number ∈ live' ↔ number ∈ live ∧ number ∉ numbers) (distinct : live'.Nodup) :
    Recorded cells next (numbers.map .dropped ++ h) live' := by
  obtain ⟨stored, changes, registered⟩ := append_dropped (h := h) numbers
  refine ⟨r.numbered.drop had left distinct, fun index o found => ?_, ?_⟩
  · exact (r.cell index o found).congr stored changes registered fun number alive =>
      ((left number).mp alive).1
  · rw [changes, registered]
    exact r.fresh

end Recorded

end FormDependencies.Observables
