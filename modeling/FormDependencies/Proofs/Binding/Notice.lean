import FormDependencies.Proofs.Binding.Slots

/-!
Notice of changes. What is written into a slot that differs from what it holds, and an epoch that
advances, is a new version that all who subscribed are told of: observers wait afterwards, and the
host has made its notes.
-/

namespace FormDependencies

namespace Observable
variable {β : Type}

def advanced (o : Observable Nat β) (n : Nat) : Observable Nat β :=
  { o with value := o.value + n, version := o.version + n }

@[simp] theorem advanced_zero (o : Observable Nat β) : o.advanced 0 = o := rfl

@[simp] theorem advanced_advanced (o : Observable Nat β) (n m : Nat) :
    (o.advanced n).advanced m = o.advanced (n + m) := by
  simp [advanced, Nat.add_assoc]

theorem map_advanced (o : Option (Observable Nat β)) (n m : Nat) :
    (o.map (·.advanced n)).map (·.advanced m) = o.map (·.advanced (n + m)) := by
  cases o <;> simp

theorem set_succ (o : Observable Nat β) : (o.set (o.value + 1)).1 = o.advanced 1 := by
  simp [set, advanced]

end Observable

namespace Bindings
variable {ν : Type}

/-! ## Slots and epochs -/

theorem slot_write (b : Bindings ν) (id other : SlotId) (value : Value) :
    (b.write id value).1.slot other =
      if id = other ∧ id.index < b.slots.size then ((b.slot other).set value).1
      else b.slot other := by
  have stored : (b.write id value).1.slot other =
      ({ b with slots := (b.write id value).1.slots } : Bindings ν).slot other := rfl
  rw [stored, slots_write]
  by_cases agrees : b.read id == value
  · rw [if_pos agrees]
    split
    · next here =>
      have same : ((b.slot other).value == value) = true := here.1 ▸ agrees
      simp [Observable.set, same]
    · rfl
  · rw [if_neg agrees, slot_setIfInBounds]
    split
    · next here => rw [here.1]
    · rfl

theorem epochs_write (b : Bindings ν) (id : SlotId) (value : Value) :
    (b.write id value).1.epochs = b.epochs :=
  write_keeps (·.epochs) (fun _ _ => rfl) (fun _ _ => rfl) (fun _ _ => rfl) b id value

theorem epoch?_congr {b c : Bindings ν} (epochs : c.epochs = b.epochs) (name : String) :
    c.epoch? name = b.epoch? name := by
  unfold epoch?
  rw [epochs]

theorem slot_congr {b c : Bindings ν} (slots : c.slots = b.slots) (id : SlotId) :
    c.slot id = b.slot id := by
  unfold slot
  rw [slots]

theorem slots_bump (b : Bindings ν) (name : String) : (b.bump name).slots = b.slots :=
  bump_keeps (·.slots) (fun _ _ => rfl) (fun _ _ => rfl) b name

theorem epochs_push (b : Bindings ν) (id : ObserverId) : (b.push id).epochs = b.epochs :=
  push_keeps (·.epochs) (fun _ _ => rfl) b id

theorem epoch?_bump (b : Bindings ν) (name other : String) :
    (b.bump name).epoch? other =
      if name = other then (b.epoch? other).map (·.advanced 1) else b.epoch? other := by
  cases opened : b.epoch? name with
  | none =>
    have same : b.bump name = b := by
      unfold bump
      rw [opened]
    rw [same]
    by_cases own : name = other
    · rw [if_pos own, ← own, opened, Option.map_none]
    · rw [if_neg own]
  | some o =>
    have pushed := foldl_keeps (·.epochs)
      (fun (b : Bindings ν) (entry : Nat × ObserverId) => b.push entry.2)
      (fun b entry => b.epochs_push entry.2) o.subscribers
      (b.modifyEpoch name fun o => (o.set (o.value + 1)).1)
    unfold bump
    rw [opened]
    refine (epoch?_congr pushed other).trans ?_
    simp only [epoch?_modifyEpoch, Observable.set_succ]

/-! ## Calls -/

def listeners (b : Bindings ν) : Source → List (Listener ν)
  | .epoch name => ((b.epoch? name).map (·.subscribers)).getD [] |>.map fun entry =>
      .observer entry.2
  | .slot id => (b.slot id).subscribers.map (·.2)

/-- Whether a listener has been called in between: an observer waits, and the host has made a note
of some value. -/
def Called (b c : Bindings ν) : Listener ν → Prop
  | .observer id => id ∈ c.pending
  | .host note => ∃ added value, c.journal = added ++ b.journal ∧ .note (note value) ∈ added

/-- Epochs have advanced, slots have been written and listeners have been called, if anything. -/
structure Grows (b c : Bindings ν) : Prop where
  epochs : ∀ name, ∃ n, c.epoch? name = (b.epoch? name).map (·.advanced n)
  size : b.slots.size ≤ c.slots.size
  versions : ∀ id, b.Has (.slot id) → (b.slot id).version ≤ (c.slot id).version
  subscribers : ∀ id, b.Has (.slot id) → (c.slot id).subscribers = (b.slot id).subscribers
  waiting : b.pending ⊆ c.pending
  journal : b.journal <:+ c.journal

namespace Grows
variable {b c d : Bindings ν}

theorem of_eq (slots : c.slots = b.slots) (epochs : c.epochs = b.epochs)
    (waiting : b.pending ⊆ c.pending) (journal : b.journal <:+ c.journal) : Grows b c where
  epochs name := ⟨0, by simp [epoch?_congr epochs]⟩
  size := Nat.le_of_eq (congrArg Array.size slots.symm)
  versions id _ := Nat.le_of_eq (congrArg _ (slot_congr slots id).symm)
  subscribers id _ := by rw [slot_congr slots]
  waiting := waiting
  journal := journal

theorem refl (b : Bindings ν) : Grows b b := of_eq rfl rfl (List.Subset.refl _) List.suffix_rfl

theorem trans (first : Grows b c) (second : Grows c d) : Grows b d where
  epochs name := by
    rcases first.epochs name with ⟨n, earlier⟩
    rcases second.epochs name with ⟨m, later⟩
    refine ⟨n + m, ?_⟩
    rw [later, earlier, Observable.map_advanced]
  size := Nat.le_trans first.size second.size
  versions id there :=
    Nat.le_trans (first.versions id there) (second.versions id (there.mono first.size))
  subscribers id there :=
    (second.subscribers id (there.mono first.size)).trans (first.subscribers id there)
  waiting := List.Subset.trans first.waiting second.waiting
  journal := first.journal.trans second.journal

theorem notes (h : Notes b c) : Grows b c := by
  rcases h with ⟨added, rfl, -⟩
  exact of_eq rfl rfl (List.Subset.refl _) (List.suffix_append ..)

theorem listeners (h : Grows b c) {source : Source} (there : b.Has source) :
    c.listeners source = b.listeners source := by
  cases source with
  | epoch name =>
    rcases h.epochs name with ⟨n, same⟩
    unfold Bindings.listeners
    dsimp only
    rw [same, Option.map_map]
    rfl
  | slot id => simp only [Bindings.listeners, h.subscribers id there]

theorem version (h : Grows b c) {source : Source} (there : b.Has source) :
    b.version source ≤ c.version source := by
  cases source with
  | epoch name =>
    rcases h.epochs name with ⟨n, same⟩
    cases opened : b.epoch? name with
    | none => simp [Bindings.version, same, opened]
    | some o => simp [Bindings.version, same, opened, Observable.advanced]
  | slot id => exact h.versions id there

end Grows

section
variable {b c d : Bindings ν} {listener : Listener ν}

theorem Called.before (first : Grows b c) (called : Called c d listener) :
    Called b d listener := by
  cases listener with
  | observer id => exact called
  | host note =>
    rcases called with ⟨added, value, journal, noted⟩
    rcases first.journal with ⟨earlier, same⟩
    refine ⟨added ++ earlier, value, ?_, List.mem_append_left _ noted⟩
    rw [journal, ← same, List.append_assoc]

theorem Called.after (called : Called b c listener) (second : Grows c d) :
    Called b d listener := by
  cases listener with
  | observer id => exact second.waiting called
  | host note =>
    rcases called with ⟨added, value, journal, noted⟩
    rcases second.journal with ⟨later, same⟩
    refine ⟨later ++ added, value, ?_, List.mem_append_right _ noted⟩
    rw [← same, journal, List.append_assoc]

end

theorem grows_call (b : Bindings ν) (value : Value) (listener : Listener ν) :
    Grows b (b.call value listener) ∧ Called b (b.call value listener) listener := by
  cases listener with
  | observer id =>
    have waiting : b.pending ⊆ (b.push id).pending := by
      unfold push
      split
      · exact List.Subset.refl _
      · exact List.subset_append_left ..
    have journal : (b.push id).journal = b.journal := push_keeps (·.journal) (fun _ _ => rfl) b id
    refine ⟨.of_eq (b.slots_push id) (b.epochs_push id) waiting ?_, b.mem_pending_push id⟩
    exact ⟨[], journal.symm⟩
  | host note =>
    refine ⟨.of_eq rfl rfl (List.Subset.refl _) (List.suffix_cons ..), [.note (note value)], value,
      rfl, List.mem_cons_self⟩

/-- All listeners of a list are called. -/
theorem grows_calls {α : Type} (value : Value) (listener : α → Listener ν) (entries : List α)
    (b : Bindings ν) :
    Grows b (entries.foldl (fun b entry => b.call value (listener entry)) b) ∧
      ∀ entry ∈ entries, Called b
        (entries.foldl (fun b entry => b.call value (listener entry)) b) (listener entry) := by
  induction entries generalizing b with
  | nil => exact ⟨.refl b, fun _ none => absurd none List.not_mem_nil⟩
  | cons first rest ih =>
    rcases b.grows_call value (listener first) with ⟨grows, called⟩
    rcases ih (b.call value (listener first)) with ⟨later, others⟩
    refine ⟨grows.trans later, fun entry mem => ?_⟩
    rcases List.mem_cons.mp mem with rfl | mem
    · exact called.after later
    · exact (others entry mem).before grows

/-! ## Notice -/

structure Notified (b c : Bindings ν) (source : Source) : Prop where
  version : b.version source < c.version source
  called : ∀ listener ∈ b.listeners source, Called b c listener

structure Bumped (b c : Bindings ν) (name : String) : Prop where
  advanced : ∃ n, 0 < n ∧ c.epoch? name = (b.epoch? name).map (·.advanced n)
  called : ∀ listener ∈ b.listeners (.epoch name), Called b c listener

section
variable {b c d : Bindings ν} {source : Source} {name : String}

theorem Notified.before (first : Grows b c) (there : b.Has source) (h : Notified c d source) :
    Notified b d source where
  version := Nat.lt_of_le_of_lt (first.version there) h.version
  called listener mem := by
    rw [← first.listeners there] at mem
    exact (h.called listener mem).before first

theorem Notified.after (h : Notified b c source) (second : Grows c d) (there : c.Has source) :
    Notified b d source where
  version := Nat.lt_of_lt_of_le h.version (second.version there)
  called listener mem := (h.called listener mem).after second

theorem Bumped.before (first : Grows b c) (h : Bumped c d name) : Bumped b d name where
  advanced := by
    rcases first.epochs name with ⟨n, earlier⟩
    rcases h.advanced with ⟨m, positive, later⟩
    refine ⟨n + m, Nat.add_pos_right n positive, ?_⟩
    rw [later, earlier, Observable.map_advanced]
  called listener mem := by
    have same : c.listeners (.epoch name) = b.listeners (.epoch name) := first.listeners trivial
    rw [← same] at mem
    exact (h.called listener mem).before first

theorem Bumped.after (h : Bumped b c name) (second : Grows c d) : Bumped b d name where
  advanced := by
    rcases h.advanced with ⟨n, positive, earlier⟩
    rcases second.epochs name with ⟨m, later⟩
    refine ⟨n + m, Nat.add_pos_left positive m, ?_⟩
    rw [later, earlier, Observable.map_advanced]
  called listener mem := (h.called listener mem).after second

/-- An open epoch that has advanced has a new version. -/
theorem Bumped.notified (h : Bumped b c name) (opened : (b.epoch? name).isSome) :
    Notified b c (.epoch name) where
  version := by
    rcases h.advanced with ⟨n, positive, same⟩
    rcases Option.isSome_iff_exists.mp opened with ⟨o, found⟩
    simp [version, same, found, Observable.advanced, positive]
  called := h.called

end

/-- What writing does: nothing, or a new value that all who subscribed are called about. -/
theorem write_eq (b : Bindings ν) (id : SlotId) (value : Value) :
    (b.write id value).1 =
      if b.read id == value then b
      else (b.slot id).subscribers.foldl (fun b entry => b.call value entry.2)
        { b with slots := b.slots.setIfInBounds id.index ((b.slot id).set value).1 } := by
  have differs : ((b.slot id).set value).2 = !(b.read id == value) :=
    (b.slot id).set_snd value
  have subscribers := (b.slot id).subscribers_set value
  unfold write
  dsimp only
  rw [differs, subscribers]
  cases b.read id == value with
  | true => rfl
  | false => rfl

/-- A slot that is stored anew keeps its subscribers. -/
theorem grows_setSlot (b : Bindings ν) (id : SlotId) (value : Value) :
    Grows b { b with slots := b.slots.setIfInBounds id.index ((b.slot id).set value).1 } where
  epochs name := ⟨0, (epoch?_congr (b := b) rfl name).trans (by simp)⟩
  size := by simp
  versions other _ := by
    rw [slot_setIfInBounds]
    split
    · next same => simp [same.1, Observable.version_set]
    · exact Nat.le_refl _
  subscribers other _ := by
    rw [slot_setIfInBounds]
    split
    · next same => rw [Observable.subscribers_set, same.1]
    · rfl
  waiting := List.Subset.refl _
  journal := List.suffix_rfl

theorem grows_write (b : Bindings ν) (id : SlotId) (value : Value) :
    Grows b (b.write id value).1 := by
  rw [write_eq]
  split
  · exact .refl b
  · exact (b.grows_setSlot id value).trans (grows_calls value (·.2) (b.slot id).subscribers _).1

/-- To write into a slot what differs from what it holds notifies. -/
theorem notified_write {b : Bindings ν} {id : SlotId} (there : b.Has (.slot id)) {value : Value}
    (differs : (b.read id == value) = false) :
    Notified b (b.write id value).1 (.slot id) where
  version := by
    have inside : id.index < b.slots.size := there
    have changes : ((b.slot id).set value).2 = true := by
      rw [Observable.set_snd]
      exact congrArg not differs
    simp [version, slot_write, inside, Observable.version_set, changes]
  called listener mem := by
    rcases List.mem_map.mp mem with ⟨entry, listed, rfl⟩
    have called := (grows_calls value (·.2) (b.slot id).subscribers
      { b with slots := b.slots.setIfInBounds id.index ((b.slot id).set value).1 }).2 entry listed
    rw [write_eq, if_neg (by simp [differs])]
    exact called.before (b.grows_setSlot id value)

theorem grows_newSlot (b : Bindings ν) (value : Value) : Grows b (b.newSlot value).1 where
  epochs name := ⟨0, (epoch?_congr (b := b) rfl name).trans (by simp)⟩
  size := by simp [newSlot]
  versions id _ := Nat.le_of_eq (b.version_newSlot value (.slot id)).symm
  subscribers id there := by
    have inside : id.index < b.slots.size := there
    rw [slot_newSlot, if_neg (Nat.ne_of_lt inside)]
  waiting := List.Subset.refl _
  journal := List.suffix_rfl

theorem grows_setEpoch (b : Bindings ν) (name : String) :
    Grows b (b.modifyEpoch name fun o => (o.set (o.value + 1)).1) where
  epochs other := by
    simp only [epoch?_modifyEpoch, Observable.set_succ]
    split
    · exact ⟨1, rfl⟩
    · exact ⟨0, by simp⟩
  size := Nat.le_refl _
  versions _ _ := Nat.le_refl _
  subscribers _ _ := rfl
  waiting := List.Subset.refl _
  journal := List.suffix_rfl

theorem grows_bump (b : Bindings ν) (name : String) : Grows b (b.bump name) := by
  unfold bump
  cases b.epoch? name with
  | none => exact .refl b
  | some o =>
    exact (b.grows_setEpoch name).trans (grows_calls .undefined (.observer ·.2) o.subscribers _).1

theorem bumped_bump (b : Bindings ν) (name : String) : Bumped b (b.bump name) name where
  advanced := ⟨1, Nat.zero_lt_one, by simp [epoch?_bump]⟩
  called listener mem := by
    dsimp only [listeners] at mem
    unfold bump
    cases opened : b.epoch? name with
    | none => simp [opened] at mem
    | some o =>
      rw [opened] at mem
      rcases List.mem_map.mp mem with ⟨entry, listed, rfl⟩
      have called := (grows_calls .undefined (.observer ·.2) o.subscribers
        (b.modifyEpoch name fun o => (o.set (o.value + 1)).1)).2 entry listed
      exact called.before (b.grows_setEpoch name)

end Bindings

end FormDependencies
