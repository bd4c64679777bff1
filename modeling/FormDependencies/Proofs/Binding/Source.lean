import FormDependencies.Binding.History

/-!
Sources: what the elementary changes of the bindings do to the version of a source and to the
observers that watch it. Only `write` and `bump` give a source a new version, and only the
subscriptions change who watches it.
-/

namespace FormDependencies

variable {ν : Type}

def Listener.observer? : Listener ν → Option ObserverId
  | .observer id => some id
  | .host _ => none

namespace Bindings

/-- Whether a source is there. An epoch counts as there before it is opened, with version zero. -/
def Has (b : Bindings ν) : Source → Prop
  | .epoch _ => True
  | .slot id => id.index < b.slots.size

def watchers (b : Bindings ν) : Source → List (Nat × ObserverId)
  | .epoch name => ((b.epoch? name).map (·.subscribers)).getD []
  | .slot id =>
    (b.slot id).subscribers.filterMap fun entry => entry.2.observer?.map (entry.1, ·)

/-! ## Slots -/

theorem slot_newSlot (b : Bindings ν) (value : Value) (id : SlotId) :
    (b.newSlot value).1.slot id =
      if id.index = b.slots.size then { value } else b.slot id := by
  simp only [newSlot, slot, Array.getD_eq_getD_getElem?, Array.getElem?_push]
  split <;> rfl

theorem slot_of_size_le (b : Bindings ν) {id : SlotId} (h : b.slots.size ≤ id.index) :
    b.slot id = { value := .undefined } := by
  simp [slot, Array.getD, Nat.not_lt.mpr h]

/-- The slots after the observable of one slot is replaced. -/
theorem slot_setIfInBounds (b : Bindings ν) (id other : SlotId)
    (o : Observable Value (Listener ν)) :
    ({ b with slots := b.slots.setIfInBounds id.index o }).slot other =
      if id = other ∧ id.index < b.slots.size then o else b.slot other := by
  cases id with
  | mk i =>
    cases other with
    | mk j =>
      simp only [slot, Array.getD_eq_getD_getElem?, Array.getElem?_setIfInBounds,
        SlotId.mk.injEq]
      by_cases same : i = j
      · subst same
        by_cases inside : i < b.slots.size
        · simp [inside]
        · simp [inside]
      · simp [same]

/-- The slots after the observable of one slot is changed. -/
theorem slot_modifySlot (b : Bindings ν) (id other : SlotId)
    (change : Observable Value (Listener ν) → Observable Value (Listener ν)) :
    ({ b with slots := b.slots.modify id.index change }).slot other =
      if id = other ∧ id.index < b.slots.size then change (b.slot other) else b.slot other := by
  cases id with
  | mk i =>
    cases other with
    | mk j =>
      simp only [slot, Array.getD_eq_getD_getElem?, Array.getElem?_modify, SlotId.mk.injEq]
      by_cases same : i = j
      · subst same
        by_cases inside : i < b.slots.size
        · simp [inside]
        · simp [inside]
      · simp [same]

/-! ## Epochs -/

theorem epoch?_modifyEpoch (b : Bindings ν) (name other : String)
    (change : Observable Nat ObserverId → Observable Nat ObserverId) :
    (b.modifyEpoch name change).epoch? other =
      if name = other then (b.epoch? other).map change else b.epoch? other := by
  let changed := fun entry : String × Observable Nat ObserverId =>
    if entry.1 == name then (entry.1, change entry.2) else entry
  have keepsName : ∀ entry, (changed entry).1 = entry.1 := by
    intro entry
    simp only [changed]
    split <;> rfl
  change ((b.epochs.map changed).find? fun entry => entry.1 == other).map (·.2) = _
  rw [List.find?_map, show (fun entry : String × Observable Nat ObserverId => entry.1 == other) ∘
    changed = fun entry => entry.1 == other from funext fun entry => by simp [keepsName]]
  unfold epoch?
  cases found : b.epochs.find? fun entry => entry.1 == other with
  | none => simp
  | some entry =>
    have named : entry.1 = other := by simpa using List.find?_some found
    by_cases same : name = other
    · simp [changed, named, same]
    · simp [changed, named, same, Ne.symm same]

theorem epoch?_openEpoch (b : Bindings ν) (name other : String) :
    (b.openEpoch name).epoch? other =
      if name = other ∧ b.epoch? other = none then some { value := 0 } else b.epoch? other := by
  unfold openEpoch
  by_cases known : (b.epoch? name).isSome
  · rw [if_pos known]
    by_cases same : name = other
    · subst same
      simp [Option.isSome_iff_ne_none.mp known]
    · simp [same]
  · rw [if_neg known]
    have absent : b.epoch? name = none := Option.not_isSome_iff_eq_none.mp known
    by_cases same : name = other
    · subst same
      simp only [epoch?, Option.map_eq_none_iff] at absent
      simp [epoch?, List.find?_append, absent]
    · simp [epoch?, List.find?_append, same]

/-! ## Versions and watchers -/

theorem version_congr {b b' : Bindings ν} (slots : b'.slots = b.slots)
    (epochs : b'.epochs = b.epochs) (source : Source) : b'.version source = b.version source := by
  cases source <;> simp only [version, epoch?, slot, slots, epochs]

theorem watchers_congr {b b' : Bindings ν} (slots : b'.slots = b.slots)
    (epochs : b'.epochs = b.epochs) (source : Source) :
    b'.watchers source = b.watchers source := by
  cases source <;> simp only [watchers, epoch?, slot, slots, epochs]

theorem version_newSlot (b : Bindings ν) (value : Value) (source : Source) :
    (b.newSlot value).1.version source = b.version source := by
  cases source with
  | epoch name => rfl
  | slot id =>
    simp only [version, slot_newSlot]
    split
    · next added => rw [b.slot_of_size_le (Nat.le_of_eq added.symm)]
    · rfl

theorem watchers_newSlot (b : Bindings ν) (value : Value) (source : Source) :
    (b.newSlot value).1.watchers source = b.watchers source := by
  cases source with
  | epoch name => rfl
  | slot id =>
    simp only [watchers, slot_newSlot]
    split
    · next added => rw [b.slot_of_size_le (Nat.le_of_eq added.symm)]
    · rfl

/-- A slot that is stored anew keeps its watchers. -/
theorem watchers_setSlot (b : Bindings ν) (id : SlotId) (value : Value) (source : Source) :
    ({ b with slots := b.slots.setIfInBounds id.index ((b.slot id).set value).1 }).watchers source =
      b.watchers source := by
  cases source with
  | epoch name => rfl
  | slot other =>
    simp only [watchers, slot_setIfInBounds]
    split
    · next same => rw [Observable.subscribers_set, same.1]
    · rfl

theorem version_setSlot (b : Bindings ν) (id : SlotId) (value : Value) {source : Source}
    (other : source ≠ .slot id) :
    ({ b with slots := b.slots.setIfInBounds id.index ((b.slot id).set value).1 }).version source =
      b.version source := by
  cases source with
  | epoch name => rfl
  | slot id' =>
    simp only [version, slot_setIfInBounds]
    split
    · next same => exact absurd (congrArg Source.slot same.1.symm) other
    · rfl

/-- An epoch that is stored anew keeps its watchers. -/
theorem watchers_setEpoch (b : Bindings ν) (name : String) (source : Source) :
    (b.modifyEpoch name fun o => (o.set (o.value + 1)).1).watchers source =
      b.watchers source := by
  cases source with
  | epoch other =>
    simp only [watchers, epoch?_modifyEpoch]
    split
    · cases b.epoch? other <;> simp
    · rfl
  | slot id => rfl

theorem version_modifyEpoch (b : Bindings ν) (name : String)
    (change : Observable Nat ObserverId → Observable Nat ObserverId) {source : Source}
    (other : source ≠ .epoch name) :
    (b.modifyEpoch name change).version source = b.version source := by
  cases source with
  | epoch name' =>
    simp only [version, epoch?_modifyEpoch]
    split
    · next same => exact absurd (congrArg Source.epoch same.symm) other
    · rfl
  | slot id => rfl

/-- A slot that nobody watches is written without a call. -/
theorem write_of_unwatched (b : Bindings ν) (id : SlotId) (value : Value)
    (unwatched : (b.slot id).subscribers = []) :
    (b.write id value).1 = b ∨
      (b.write id value).1 =
        { b with slots := b.slots.setIfInBounds id.index ((b.slot id).set value).1 } := by
  unfold write
  cases changed : (b.slot id).set value with
  | mk o differs =>
    have subscribers : o.subscribers = [] := by
      rw [← unwatched, ← Observable.subscribers_set (b.slot id) value, changed]
    cases differs with
    | false => exact .inl rfl
    | true => exact .inr (by simp [subscribers])

/-! ## Subscriptions -/

theorem epoch?_subscribeEpoch (b : Bindings ν) (name other : String) (id : ObserverId) :
    (b.subscribeEpoch name id).1.epoch? other =
      if name = other then
        some (((b.epoch? other).getD { value := 0 }).subscribe b.nextSubscription id)
      else b.epoch? other := by
  have stored : (b.subscribeEpoch name id).1.epoch? other =
      ((b.openEpoch name).modifyEpoch name (·.subscribe b.nextSubscription id)).epoch? other := rfl
  rw [stored, epoch?_modifyEpoch, epoch?_openEpoch]
  by_cases same : name = other
  · subst same
    cases opened : b.epoch? name <;> simp
  · simp [same]

theorem slot_subscribeEpoch (b : Bindings ν) (name : String) (id : ObserverId) (slot : SlotId) :
    (b.subscribeEpoch name id).1.slot slot = b.slot slot := by
  change (b.openEpoch name).slot slot = b.slot slot
  unfold openEpoch
  split <;> rfl

theorem watchers_subscribeEpoch (b : Bindings ν) (name : String) (id : ObserverId)
    (source : Source) :
    (b.subscribeEpoch name id).1.watchers source =
      b.watchers source ++ if source = .epoch name then [(b.nextSubscription, id)] else [] := by
  cases source with
  | epoch other =>
    simp only [watchers, epoch?_subscribeEpoch]
    by_cases same : name = other
    · cases b.epoch? other <;> simp [same, Observable.subscribe]
    · simp [same, Ne.symm same]
  | slot slot => simp [watchers, slot_subscribeEpoch]

theorem version_subscribeEpoch (b : Bindings ν) (name : String) (id : ObserverId)
    (source : Source) : (b.subscribeEpoch name id).1.version source = b.version source := by
  cases source with
  | epoch other =>
    simp only [version, epoch?_subscribeEpoch]
    by_cases same : name = other
    · cases b.epoch? other <;> simp [same, Observable.subscribe]
    · simp [same]
  | slot slot => simp [version, slot_subscribeEpoch]

theorem slot_subscribeSlot (b : Bindings ν) (slot other : SlotId) (listener : Listener ν) :
    (b.subscribeSlot slot listener).1.slot other =
      if slot = other ∧ slot.index < b.slots.size then
        (b.slot other).subscribe b.nextSubscription listener
      else b.slot other :=
  b.slot_modifySlot slot other (·.subscribe b.nextSubscription listener)

theorem watchers_subscribeSlot (b : Bindings ν) (slot : SlotId) (id : ObserverId)
    (there : b.Has (.slot slot)) (source : Source) :
    (b.subscribeSlot slot (.observer id)).1.watchers source =
      b.watchers source ++ if source = .slot slot then [(b.nextSubscription, id)] else [] := by
  cases source with
  | epoch name => simp [subscribeSlot, watchers, epoch?]
  | slot other =>
    simp only [watchers, slot_subscribeSlot]
    by_cases same : slot = other
    · subst same
      have inside : slot.index < b.slots.size := there
      simp [inside, Observable.subscribe, Listener.observer?]
    · simp [same, Ne.symm same]

theorem version_subscribeSlot (b : Bindings ν) (slot : SlotId) (listener : Listener ν)
    (source : Source) :
    (b.subscribeSlot slot listener).1.version source = b.version source := by
  cases source with
  | epoch name => rfl
  | slot other =>
    simp only [version, slot_subscribeSlot]
    split <;> rfl

theorem watchers_unsubscribe (b : Bindings ν) (s : Subscription) (source : Source) :
    (b.unsubscribe s).watchers source =
      if source = s.source then (b.watchers source).filter fun entry => entry.1 != s.number
      else b.watchers source := by
  obtain ⟨ended, number⟩ := s
  cases ended with
  | epoch name =>
    cases source with
    | epoch other =>
      simp only [unsubscribe, watchers, epoch?_modifyEpoch, Source.epoch.injEq]
      by_cases same : name = other
      · subst same
        cases b.epoch? name <;> simp [Observable.unsubscribe]
      · simp [same, Ne.symm same]
    | slot id => rfl
  | slot id =>
    cases source with
    | epoch other => rfl
    | slot other =>
      simp only [unsubscribe, watchers, slot_modifySlot, Source.slot.injEq]
      by_cases same : id = other
      · subst same
        by_cases inside : id.index < b.slots.size
        · simp only [inside, and_self, if_true, Observable.unsubscribe, List.filterMap_filter,
            List.filter_filterMap]
          congr 1
          funext entry
          cases entry.2.observer? <;> simp [Option.filter]
        · simp [inside, b.slot_of_size_le (Nat.not_lt.mp inside)]
      · simp [same, Ne.symm same]

theorem version_unsubscribe (b : Bindings ν) (s : Subscription) (source : Source) :
    (b.unsubscribe s).version source = b.version source := by
  obtain ⟨ended, number⟩ := s
  cases ended with
  | epoch name =>
    cases source with
    | epoch other =>
      simp only [unsubscribe, version, epoch?_modifyEpoch]
      split
      · cases b.epoch? other <;> simp [Observable.unsubscribe]
      · rfl
    | slot id => rfl
  | slot id =>
    cases source with
    | epoch other => rfl
    | slot other =>
      simp only [unsubscribe, version, slot_modifySlot]
      split <;> rfl

end Bindings

end FormDependencies
