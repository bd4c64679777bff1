import FormDependencies.Proofs.Binding.Announcement

/-!
What holds of the bindings at all times, and what it means that they are up to date. Announcements
keep both: an observer that is no longer current after a change waits for evaluation.
-/

namespace FormDependencies.Bindings
variable {ν : Type}

structure WellFormed (b : Bindings ν) : Prop where
  placed : b.Placed
  /-- Observers stand in the order of their creation. -/
  ascending : b.observers.Pairwise fun o o' => o.id.number < o'.id.number
  created : ∀ o ∈ b.observers, o.id.number < b.nextObserver
  listed : ∀ o ∈ b.observers, o.id ∈ b.observersOf o.element
  owned : ∀ el, ∀ id ∈ b.observersOf el,
    id.number < b.nextObserver ∧ ∀ o ∈ b.observers, o.id = id → o.element = el
  nodup : b.pending.Nodup
  waiting : ∀ id ∈ b.pending, id.number < b.nextObserver
  watching : ∀ source, ∀ entry ∈ b.watchers source,
    entry.1 < b.nextSubscription ∧ entry.2.number < b.nextObserver
  /-- Subscriptions of different observers have different numbers. -/
  separate : ∀ source source', ∀ entry ∈ b.watchers source, ∀ entry' ∈ b.watchers source',
    entry.1 = entry'.1 → entry.2 = entry'.2
  wired : ∀ o ∈ b.observers, ∀ s ∈ o.subscriptions,
    b.Has s.source ∧ (s.number, o.id) ∈ b.watchers s.source
  attempts : ∀ o ∈ b.observers, ∀ readings, b.lastAttempt? o.id = some (.looked readings) →
    readings.map (·.source) = o.subscriptions.map (·.source)
  unattempted : ∀ id : ObserverId, b.nextObserver ≤ id.number → b.lastAttempt? id = none

/-- Subscriptions have numbers that were given out, and what watches a source under the number of a
subscription is the observer that is subscribed. This is so even when hosts end subscriptions that
are not theirs. -/
structure Wiring (b : Bindings ν) : Prop where
  placed : b.Placed
  watching : ∀ source, ∀ entry ∈ b.watchers source, entry.1 < b.nextSubscription
  numbered : ∀ o ∈ b.observers, ∀ s ∈ o.subscriptions, s.number < b.nextSubscription
  own : ∀ o ∈ b.observers, ∀ s ∈ o.subscriptions, ∀ entry ∈ b.watchers s.source,
    entry.1 = s.number → entry.2 = o.id

theorem WellFormed.wiring {b : Bindings ν} (h : b.WellFormed) : b.Wiring where
  placed := h.placed
  watching source entry watches := (h.watching source entry watches).1
  numbered o mem s subscribed := (h.watching _ _ (h.wired o mem s subscribed).2).1
  own o mem s subscribed entry watches number :=
    h.separate _ _ entry watches _ (h.wired o mem s subscribed).2 number

/-- Whether the last attempt to evaluate an observer was refused by the limit, or all that it read
is as it was read. -/
def Current (b : Bindings ν) (id : ObserverId) : Prop :=
  b.lastAttempt? id = some .refused ∨
    ∃ readings, b.lastAttempt? id = some (.looked readings) ∧
      ∀ r ∈ readings, b.version r.source = r.version

/-- Every observer is current, except for those that wait and those that are `owed` an
evaluation. -/
def UpToDate (b : Bindings ν) (owed : List ObserverId) : Prop :=
  ∀ o ∈ b.observers, o.id ∈ b.pending ∨ o.id ∈ owed ∨ b.Current o.id

theorem mem_of_observer? {b : Bindings ν} {id : ObserverId} {o : Observer ν}
    (h : b.observer? id = some o) : o ∈ b.observers ∧ o.id = id :=
  ⟨List.mem_of_find?_eq_some h, by simpa using List.find?_some h⟩

theorem observer?_eq_none {b : Bindings ν} {id : ObserverId} :
    b.observer? id = none ↔ ∀ o ∈ b.observers, o.id ≠ id := by
  simp [observer?]

theorem WellFormed.start : (Bindings.empty : Bindings ν).WellFormed where
  placed := ⟨.nil, fun _ none => absurd none List.not_mem_nil,
    fun _ none => absurd none List.not_mem_nil⟩
  ascending := List.Pairwise.nil
  created _ none := absurd none List.not_mem_nil
  listed _ none := absurd none List.not_mem_nil
  owned _ _ none := absurd none List.not_mem_nil
  nodup := List.nodup_nil
  waiting _ none := absurd none List.not_mem_nil
  watching source entry mem := by
    cases source <;> simp [watchers, empty, epoch?, slot] at mem
  separate source _ entry mem := by
    cases source <;> simp [watchers, empty, epoch?, slot] at mem
  wired _ none := absurd none List.not_mem_nil
  attempts _ none := absurd none List.not_mem_nil
  unattempted _ _ := rfl

section
variable {b c : Bindings ν}

theorem WellFormed.announce (h : b.WellFormed) (announces : Announces b c) : c.WellFormed where
  placed := announces.placed h.placed
  ascending := announces.observers ▸ h.ascending
  created := announces.observers ▸ announces.nextObserver ▸ h.created
  listed o mem := by
    rw [observersOf_congr announces.declared]
    exact h.listed o (announces.observers ▸ mem)
  owned el id mem := by
    rw [observersOf_congr announces.declared] at mem
    rw [announces.observers, announces.nextObserver]
    exact h.owned el id mem
  nodup := announces.nodup h.nodup
  waiting id mem := by
    rw [announces.nextObserver]
    rcases announces.known id mem with waits | ⟨o, there, rfl⟩ | ⟨source, entry, watches, rfl⟩
    · exact h.waiting id waits
    · exact h.created o there
    · exact (h.watching source entry watches).2
  watching source entry mem := by
    rw [announces.nextObserver, announces.nextSubscription]
    exact h.watching source entry (announces.watchers source ▸ mem)
  separate source source' entry mem entry' mem' :=
    h.separate source source' entry (announces.watchers source ▸ mem) entry'
      (announces.watchers source' ▸ mem')
  wired o mem s mem' := by
    obtain ⟨there, watches⟩ := h.wired o (announces.observers ▸ mem) s mem'
    exact ⟨there.mono announces.size, announces.watchers s.source ▸ watches⟩
  attempts o mem readings attempt :=
    h.attempts o (announces.observers ▸ mem) readings
      (announces.history.lastAttempt? o.id ▸ attempt)
  unattempted id new :=
    (announces.history.lastAttempt? id).trans (h.unattempted id (announces.nextObserver ▸ new))

/-- The counts of the turn, the queue and the journal may change, as long as queue and journal stay
in order. -/
theorem WellFormed.of_fields (h : b.WellFormed) (slots : c.slots = b.slots)
    (epochs : c.epochs = b.epochs) (references : c.references = b.references)
    (groups : c.groups = b.groups) (observers : c.observers = b.observers)
    (declared : c.declared = b.declared) (nextObserver : c.nextObserver = b.nextObserver)
    (nextSubscription : c.nextSubscription = b.nextSubscription) (nodup : c.pending.Nodup)
    (waiting : ∀ id ∈ c.pending, id.number < b.nextObserver)
    (attempts : ∀ id readings, c.lastAttempt? id = some (.looked readings) →
      b.lastAttempt? id = some (.looked readings))
    (unattempted : ∀ id : ObserverId, b.nextObserver ≤ id.number → c.lastAttempt? id = none) :
    c.WellFormed where
  placed := h.placed.of_eq (Nat.le_of_eq (congrArg Array.size slots.symm)) references groups
  ascending := observers ▸ h.ascending
  created := observers ▸ nextObserver ▸ h.created
  listed o mem := by
    rw [observersOf_congr declared]
    exact h.listed o (observers ▸ mem)
  owned el id mem := by
    rw [observersOf_congr declared] at mem
    rw [observers, nextObserver]
    exact h.owned el id mem
  nodup := nodup
  waiting := nextObserver ▸ waiting
  watching source entry mem := by
    rw [nextObserver, nextSubscription]
    exact h.watching source entry (watchers_congr slots epochs source ▸ mem)
  separate source source' entry mem entry' mem' :=
    h.separate source source' entry (watchers_congr slots epochs source ▸ mem) entry'
      (watchers_congr slots epochs source' ▸ mem')
  wired o mem s subscribed := by
    obtain ⟨there, watches⟩ := h.wired o (observers ▸ mem) s subscribed
    exact ⟨there.mono (Nat.le_of_eq (congrArg Array.size slots.symm)),
      watchers_congr slots epochs s.source ▸ watches⟩
  attempts o mem readings attempt :=
    h.attempts o (observers ▸ mem) readings (attempts o.id readings attempt)
  unattempted id new := unattempted id (nextObserver ▸ new)

/-- What an observer read last is watched by it. -/
theorem WellFormed.watches_of_read (h : b.WellFormed) {o : Observer ν} (mem : o ∈ b.observers)
    {readings : List Reading} (attempt : b.lastAttempt? o.id = some (.looked readings))
    {r : Reading} (read : r ∈ readings) :
    b.Has r.source ∧ ∃ entry ∈ b.watchers r.source, entry.2 = o.id := by
  have listed : r.source ∈ o.subscriptions.map (·.source) :=
    h.attempts o mem readings attempt ▸ List.mem_map_of_mem read
  obtain ⟨s, subscribed, same⟩ := List.mem_map.mp listed
  obtain ⟨there, watches⟩ := h.wired o mem s subscribed
  exact same ▸ ⟨there, _, watches, rfl⟩

/-- An observer stays current as long as none of the sources that it read gets a new version. -/
theorem Current.mono {id : ObserverId} (current : b.Current id)
    (attempt : c.lastAttempt? id = b.lastAttempt? id)
    (versions : ∀ readings, b.lastAttempt? id = some (.looked readings) →
      ∀ r ∈ readings, c.version r.source = b.version r.source) : c.Current id := by
  rcases current with refused | ⟨readings, looked, same⟩
  · exact .inl (attempt.trans refused)
  · refine .inr ⟨readings, attempt.trans looked, fun r mem => ?_⟩
    exact (versions readings looked r mem).trans (same r mem)

theorem UpToDate.announce {owed : List ObserverId} (upToDate : b.UpToDate owed) (h : b.WellFormed)
    (announces : Announces b c) : c.UpToDate owed := by
  intro o mem
  rw [announces.observers] at mem
  rcases upToDate o mem with waits | owed | current
  · exact .inl (announces.waiting.subset waits)
  · exact .inr (.inl owed)
  · by_cases waits : o.id ∈ c.pending
    · exact .inl waits
    · refine .inr (.inr (current.mono (announces.history.lastAttempt? o.id) ?_))
      intro readings looked r read
      obtain ⟨there, entry, watches, same⟩ := h.watches_of_read mem looked read
      -- who watches a source with a new version would wait
      exact (announces.versions r.source there).resolve_right fun called =>
        waits (same ▸ called entry watches)

end

end FormDependencies.Bindings
