import FormDependencies.Binding.Observer
import FormDependencies.Binding.History
import FormDependencies.Proofs.Binding.Source

/-!
What changes of the bindings do outside of evaluation. All that happens to references and groups
goes through `write` and `bump`, which call whoever watches: afterwards every observer that watches
a source with a new version waits for evaluation.
-/

namespace FormDependencies.Bindings
variable {ν : Type}

def SameHistory (b b' : Bindings ν) : Prop :=
  ∃ added, b'.journal = added ++ b.journal ∧ ∀ entry ∈ added, entry.isPlain

namespace SameHistory
variable {b c d : Bindings ν}

theorem of_eq (h : c.journal = b.journal) : SameHistory b c :=
  ⟨[], h, fun _ none => absurd none List.not_mem_nil⟩

theorem trans (first : SameHistory b c) (second : SameHistory c d) : SameHistory b d := by
  obtain ⟨earlier, h, plain⟩ := first
  obtain ⟨later, h', plain'⟩ := second
  refine ⟨later ++ earlier, by rw [h', h, List.append_assoc], fun entry mem => ?_⟩
  rcases List.mem_append.mp mem with mem | mem
  · exact plain' entry mem
  · exact plain entry mem

theorem record {entry : Entry ν} (plain : entry.isPlain) : SameHistory b (b.record entry) :=
  ⟨[entry], rfl, fun _ mem => List.mem_singleton.mp mem ▸ plain⟩

theorem lastAttempt? (h : SameHistory b c) (id : ObserverId) :
    c.lastAttempt? id = b.lastAttempt? id := by
  obtain ⟨added, journal, plain⟩ := h
  have nothing : added.findSome? (Entry.attempt? id) = none :=
    List.findSome?_eq_none_iff.mpr fun entry mem => Entry.attempt?_of_isPlain (plain entry mem) id
  simp [Bindings.lastAttempt?, journal, List.findSome?_append, nothing]

theorem evaluated (h : SameHistory b c) : c.evaluated = b.evaluated := by
  obtain ⟨added, journal, plain⟩ := h
  have nothing : added.filterMap Entry.evaluated? = [] :=
    List.filterMap_eq_nil_iff.mpr fun entry mem => Entry.evaluated?_of_isPlain (plain entry mem)
  simp [Bindings.evaluated, journal, nothing]

theorem completions (h : SameHistory b c) (id : ObserverId) :
    c.completions id = b.completions id := by
  obtain ⟨added, journal, plain⟩ := h
  have nothing : added.countP (Entry.completes id) = 0 :=
    List.countP_eq_zero.mpr fun entry mem => by
      simp [Entry.completes_of_isPlain (plain entry mem) id]
  simp [Bindings.completions, journal, nothing]

end SameHistory

def Notes (b b' : Bindings ν) : Prop :=
  ∃ added, b' = { b with journal := added ++ b.journal } ∧ ∀ entry ∈ added, entry.isPlain

namespace Notes
variable {b c d : Bindings ν}

theorem refl (b : Bindings ν) : Notes b b := ⟨[], rfl, fun _ none => absurd none List.not_mem_nil⟩

theorem trans (first : Notes b c) (second : Notes c d) : Notes b d := by
  obtain ⟨earlier, rfl, plain⟩ := first
  obtain ⟨later, rfl, plain'⟩ := second
  refine ⟨later ++ earlier, by simp, fun entry mem => ?_⟩
  rcases List.mem_append.mp mem with mem | mem
  · exact plain' entry mem
  · exact plain entry mem

theorem record (b : Bindings ν) {entry : Entry ν} (plain : entry.isPlain) :
    Notes b (b.record entry) :=
  ⟨[entry], rfl, fun _ mem => List.mem_singleton.mp mem ▸ plain⟩

theorem foldl {α : Type} (step : Bindings ν → α → Bindings ν) (each : ∀ b a, Notes b (step b a))
    (entries : List α) (b : Bindings ν) : Notes b (entries.foldl step b) := by
  induction entries generalizing b with
  | nil => exact refl b
  | cons entry rest ih => exact (each b entry).trans (ih _)

theorem recordNotes (b : Bindings ν) (notes : List ν) : Notes b (b.recordNotes notes) :=
  foldl _ (fun b _ => record b rfl) notes b

theorem logs (b : Bindings ν) (events : List LogEvent)
    (plain : ∀ event ∈ events, (Entry.log (ν := ν) event).isPlain) :
    Notes b (events.foldl Bindings.log b) := by
  induction events generalizing b with
  | nil => exact refl b
  | cons event rest ih =>
    exact (record b (plain event List.mem_cons_self)).trans
      (ih _ fun event mem => plain event (List.mem_cons_of_mem _ mem))

theorem history (h : Notes b c) : SameHistory b c := by
  obtain ⟨added, rfl, plain⟩ := h
  exact ⟨added, rfl, plain⟩

theorem pending (h : Notes b c) : c.pending = b.pending := by
  obtain ⟨added, rfl, -⟩ := h
  rfl

theorem references (h : Notes b c) : c.references = b.references := by
  obtain ⟨added, rfl, -⟩ := h
  rfl

end Notes

section
variable {b c : Bindings ν}

theorem declared?_congr (declared : c.declared = b.declared) (el : ElementId) :
    c.declared? el = b.declared? el := by
  unfold declared?
  rw [declared]

theorem observersOf_congr (declared : c.declared = b.declared) (el : ElementId) :
    c.observersOf el = b.observersOf el := by
  unfold observersOf
  rw [declared?_congr declared]

end

def Knows (b : Bindings ν) (id : ObserverId) : Prop :=
  (∃ o ∈ b.observers, o.id = id) ∨ ∃ source, ∃ entry ∈ b.watchers source, entry.2 = id

structure Placed (b : Bindings ν) : Prop where
  ascending : b.references.Pairwise fun r r' => r.element.number < r'.element.number
  references : ∀ r ∈ b.references, b.Has (.slot r.slot)
  groups : ∀ g ∈ b.groups, b.Has (.slot g.slot)

theorem Has.mono {b b' : Bindings ν} (size : b.slots.size ≤ b'.slots.size) {source : Source}
    (h : b.Has source) : b'.Has source := by
  cases source with
  | epoch name => trivial
  | slot id => exact Nat.lt_of_lt_of_le h size

theorem Placed.of_eq {b b' : Bindings ν} (h : b.Placed) (size : b.slots.size ≤ b'.slots.size)
    (references : b'.references = b.references) (groups : b'.groups = b.groups) : b'.Placed :=
  ⟨references ▸ h.ascending, fun r mem => (h.references r (references ▸ mem)).mono size,
    fun g mem => (h.groups g (groups ▸ mem)).mono size⟩

/-- Observers and subscriptions stay as they are, and who watches a source that gets a new version
waits afterwards. -/
structure Announces (b b' : Bindings ν) : Prop where
  observers : b'.observers = b.observers
  declared : b'.declared = b.declared
  turn : b'.turn = b.turn
  nextObserver : b'.nextObserver = b.nextObserver
  nextSubscription : b'.nextSubscription = b.nextSubscription
  history : SameHistory b b'
  size : b.slots.size ≤ b'.slots.size
  watchers : ∀ source, b'.watchers source = b.watchers source
  versions : ∀ source, b.Has source →
    b'.version source = b.version source ∨ ∀ entry ∈ b.watchers source, entry.2 ∈ b'.pending
  waiting : b.pending <+: b'.pending
  nodup : b.pending.Nodup → b'.pending.Nodup
  known : ∀ id ∈ b'.pending, id ∈ b.pending ∨ b.Knows id
  placed : b.Placed → b'.Placed

namespace Announces
variable {b c d : Bindings ν}

/-- Nothing but references, groups and the journal changes. -/
theorem of_eq (observers : c.observers = b.observers) (declared : c.declared = b.declared)
    (turn : c.turn = b.turn) (nextObserver : c.nextObserver = b.nextObserver)
    (nextSubscription : c.nextSubscription = b.nextSubscription) (slots : c.slots = b.slots)
    (epochs : c.epochs = b.epochs) (pending : c.pending = b.pending) (history : SameHistory b c)
    (placed : b.Placed → c.Placed) : Announces b c where
  observers := observers
  declared := declared
  turn := turn
  nextObserver := nextObserver
  nextSubscription := nextSubscription
  history := history
  size := Nat.le_of_eq (congrArg Array.size slots.symm)
  watchers := watchers_congr slots epochs
  versions source _ := .inl (version_congr slots epochs source)
  waiting := pending ▸ List.prefix_rfl
  nodup h := pending ▸ h
  known _ mem := .inl (pending ▸ mem)
  placed := placed

theorem refl (b : Bindings ν) : Announces b b :=
  of_eq rfl rfl rfl rfl rfl rfl rfl rfl (.of_eq rfl) id

theorem knows (h : Announces b c) {id : ObserverId} : c.Knows id ↔ b.Knows id := by
  simp only [Knows, h.observers, h.watchers]

theorem trans (first : Announces b c) (second : Announces c d) : Announces b d where
  observers := second.observers.trans first.observers
  declared := second.declared.trans first.declared
  turn := second.turn.trans first.turn
  nextObserver := second.nextObserver.trans first.nextObserver
  nextSubscription := second.nextSubscription.trans first.nextSubscription
  history := first.history.trans second.history
  size := Nat.le_trans first.size second.size
  watchers source := (second.watchers source).trans (first.watchers source)
  versions source there := by
    rcases second.versions source (there.mono first.size) with same | called
    · rcases first.versions source there with same' | called
      · exact .inl (same.trans same')
      · exact .inr fun entry mem => second.waiting.subset (called entry mem)
    · exact .inr fun entry mem => called entry (first.watchers source ▸ mem)
  waiting := first.waiting.trans second.waiting
  nodup h := second.nodup (first.nodup h)
  known id mem := by
    rcases second.known id mem with mem | known
    · exact first.known id mem
    · exact .inr (first.knows.mp known)
  placed h := second.placed (first.placed h)

instance : Trans (Announces (ν := ν)) Announces Announces := ⟨trans⟩

/-- One source may get a new version, as long as the rest of the change calls those that watch
it. -/
theorem of_change (b₁ : Bindings ν) (changed : Source) (observers : b₁.observers = b.observers)
    (declared : b₁.declared = b.declared) (turn : b₁.turn = b.turn)
    (nextObserver : b₁.nextObserver = b.nextObserver)
    (nextSubscription : b₁.nextSubscription = b.nextSubscription)
    (journal : b₁.journal = b.journal) (pending : b₁.pending = b.pending)
    (size : b₁.slots.size = b.slots.size) (references : b₁.references = b.references)
    (groups : b₁.groups = b.groups)
    (watchers : ∀ source, b₁.watchers source = b.watchers source)
    (others : ∀ source, source ≠ changed → b₁.version source = b.version source)
    (rest : Announces b₁ c) (called : ∀ entry ∈ b.watchers changed, entry.2 ∈ c.pending) :
    Announces b c where
  observers := rest.observers.trans observers
  declared := rest.declared.trans declared
  turn := rest.turn.trans turn
  nextObserver := rest.nextObserver.trans nextObserver
  nextSubscription := rest.nextSubscription.trans nextSubscription
  history := (SameHistory.of_eq journal).trans rest.history
  size := size ▸ rest.size
  watchers source := (rest.watchers source).trans (watchers source)
  versions source there := by
    by_cases same : source = changed
    · exact .inr (same ▸ called)
    · rw [← others source same, ← watchers source]
      exact rest.versions source (there.mono (Nat.le_of_eq size.symm))
  waiting := pending ▸ rest.waiting
  nodup h := rest.nodup (pending ▸ h)
  known id mem := by
    have known : b₁.Knows id ↔ b.Knows id := by simp only [Knows, observers, watchers]
    exact pending ▸ (rest.known id mem).imp_right known.mp
  placed h := rest.placed (h.of_eq (Nat.le_of_eq size.symm) references groups)

/-! ## Elementary changes -/

theorem record {entry : Entry ν} (plain : entry.isPlain) : Announces b (b.record entry) :=
  of_eq rfl rfl rfl rfl rfl rfl rfl rfl (.record plain) fun h => h.of_eq (Nat.le_refl _) rfl rfl

theorem log {event : LogEvent} (plain : (Entry.log (ν := ν) event).isPlain) :
    Announces b (b.log event) :=
  record plain

theorem notes (h : Notes b c) : Announces b c := by
  have history := h.history
  obtain ⟨added, rfl, plain⟩ := h
  exact of_eq rfl rfl rfl rfl rfl rfl rfl rfl history fun h => h.of_eq (Nat.le_refl _) rfl rfl

theorem logCast (b : Bindings ν) (failure : Option String) : Announces b (b.logCast failure) := by
  cases failure with
  | none => exact refl b
  | some text => exact log rfl

theorem references (b : Bindings ν) (references : List Reference)
    (ascending : b.Placed →
      references.Pairwise fun r r' => r.element.number < r'.element.number)
    (placed : ∀ r ∈ references, r ∈ b.references ∨ b.Has (.slot r.slot)) :
    Announces b { b with references } :=
  of_eq rfl rfl rfl rfl rfl rfl rfl rfl (.of_eq rfl) fun h =>
    ⟨ascending h, fun r mem => (placed r mem).elim (h.references r) id, h.groups⟩

theorem groups (b : Bindings ν) (groups : List Group)
    (placed : b.Placed → ∀ g ∈ groups, b.Has (.slot g.slot)) : Announces b { b with groups } :=
  of_eq rfl rfl rfl rfl rfl rfl rfl rfl (.of_eq rfl) fun h => ⟨h.ascending, h.references, placed h⟩

theorem push {id : ObserverId} (known : b.Knows id) : Announces b (b.push id) := by
  unfold Bindings.push
  split
  · exact refl b
  · next absent =>
    exact
    { observers := rfl
      declared := rfl
      turn := rfl
      nextObserver := rfl
      nextSubscription := rfl
      history := .of_eq rfl
      size := Nat.le_refl _
      watchers := watchers_congr rfl rfl
      versions source _ := .inl (version_congr rfl rfl source)
      waiting := List.prefix_append ..
      nodup h := by
        refine List.nodup_append.mpr ⟨h, List.pairwise_singleton .., ?_⟩
        intro other mem last mem' same
        rw [List.mem_singleton.mp mem'] at same
        exact absent (by simpa [same] using mem)
      known other mem := by
        rcases List.mem_append.mp mem with mem | mem
        · exact .inl mem
        · exact .inr (List.mem_singleton.mp mem ▸ known)
      placed h := h.of_eq (Nat.le_refl _) rfl rfl }

theorem newSlot (b : Bindings ν) (value : Value) : Announces b (b.newSlot value).1 where
  observers := rfl
  declared := rfl
  turn := rfl
  nextObserver := rfl
  nextSubscription := rfl
  history := .of_eq rfl
  size := by simp [Bindings.newSlot]
  watchers := watchers_newSlot b value
  versions source _ := .inl (version_newSlot b value source)
  waiting := List.prefix_rfl
  nodup := id
  known _ mem := .inl mem
  placed h := h.of_eq (by simp [Bindings.newSlot]) rfl rfl

end Announces

theorem mem_pending_push (b : Bindings ν) (id : ObserverId) : id ∈ (b.push id).pending := by
  unfold push
  split
  · next waits => simpa using waits
  · exact List.mem_append_right _ (List.mem_singleton.mpr rfl)

/-- Calling listeners makes the observers among them wait. -/
theorem announces_foldl_call (value : Value) (entries : List (Nat × Listener ν)) (b : Bindings ν)
    (known : ∀ entry ∈ entries, ∀ id ∈ entry.2.observer?, b.Knows id) :
    Announces b (entries.foldl (fun b entry => b.call value entry.2) b) ∧
      ∀ entry ∈ entries, ∀ id ∈ entry.2.observer?,
        id ∈ (entries.foldl (fun b entry => b.call value entry.2) b).pending := by
  induction entries generalizing b with
  | nil => exact ⟨.refl b, fun _ none => absurd none List.not_mem_nil⟩
  | cons entry rest ih =>
    rw [List.foldl_cons]
    have called : Announces b (b.call value entry.2) ∧
        ∀ id ∈ entry.2.observer?, id ∈ (b.call value entry.2).pending := by
      have known := known entry List.mem_cons_self
      cases listener : entry.2 with
      | observer id =>
        rw [listener] at known
        refine ⟨.push (known id rfl), fun other same => ?_⟩
        obtain rfl : id = other := Option.some.inj same
        exact b.mem_pending_push id
      | host note => exact ⟨.record rfl, fun _ none => nomatch none⟩
    obtain ⟨later, waits⟩ := ih (b.call value entry.2) fun entry mem id listens =>
      called.1.knows.mpr (known entry (List.mem_cons_of_mem _ mem) id listens)
    refine ⟨called.1.trans later, fun other mem id listens => ?_⟩
    rcases List.mem_cons.mp mem with rfl | mem
    · exact later.waiting.subset (called.2 id listens)
    · exact waits other mem id listens

/-- Queueing observers that are known makes them wait. -/
theorem announces_foldl_push {α : Type} (name : α → ObserverId) (entries : List α)
    (b : Bindings ν) (known : ∀ entry ∈ entries, b.Knows (name entry)) :
    Announces b (entries.foldl (fun b entry => b.push (name entry)) b) ∧
      ∀ entry ∈ entries,
        name entry ∈ (entries.foldl (fun b entry => b.push (name entry)) b).pending := by
  induction entries generalizing b with
  | nil => exact ⟨.refl b, fun _ none => absurd none List.not_mem_nil⟩
  | cons entry rest ih =>
    rw [List.foldl_cons]
    have first : Announces b (b.push (name entry)) := .push (known entry List.mem_cons_self)
    obtain ⟨later, waits⟩ := ih (b.push (name entry)) fun entry mem =>
      first.knows.mpr (known entry (List.mem_cons_of_mem _ mem))
    refine ⟨first.trans later, fun other mem => ?_⟩
    rcases List.mem_cons.mp mem with rfl | mem
    · exact later.waiting.subset (b.mem_pending_push _)
    · exact waits other mem

theorem Announces.write (b : Bindings ν) (id : SlotId) (value : Value) :
    Announces b (b.write id value).1 := by
  unfold Bindings.write
  cases changed : (b.slot id).set value with
  | mk o differs =>
    cases differs with
    | false => exact .refl b
    | true =>
      have same : o = ((b.slot id).set value).1 := by rw [changed]
      have subscribers : o.subscribers = (b.slot id).subscribers := by
        rw [same, Observable.subscribers_set]
      let stored : Bindings ν := { b with slots := b.slots.setIfInBounds id.index o }
      have watchers : ∀ source, stored.watchers source = b.watchers source := by
        simpa only [stored, same] using b.watchers_setSlot id value
      have listening : ∀ entry ∈ o.subscribers, ∀ other ∈ entry.2.observer?,
          (entry.1, other) ∈ b.watchers (.slot id) := by
        intro entry mem other listens
        rw [subscribers] at mem
        exact List.mem_filterMap.mpr ⟨entry, mem, by rw [listens]; rfl⟩
      obtain ⟨rest, waits⟩ := announces_foldl_call value o.subscribers stored
        fun entry mem other listens =>
          .inr ⟨.slot id, _, watchers (.slot id) ▸ listening entry mem other listens, rfl⟩
      refine .of_change stored (.slot id) rfl rfl rfl rfl rfl rfl rfl (by simp [stored])
        rfl rfl watchers (fun source other => ?_) rest fun watcher mem => ?_
      · simpa only [stored, same] using b.version_setSlot id value other
      · obtain ⟨entry, listed, listens⟩ := List.mem_filterMap.mp mem
        obtain ⟨other, isOther, rfl⟩ := Option.map_eq_some_iff.mp listens
        exact waits entry (subscribers ▸ listed) other isOther

theorem Announces.bump (b : Bindings ν) (name : String) : Announces b (b.bump name) := by
  unfold Bindings.bump
  cases opened : b.epoch? name with
  | none => exact .refl b
  | some o =>
    let stored := b.modifyEpoch name fun o => (o.set (o.value + 1)).1
    have watchers : ∀ source, stored.watchers source = b.watchers source :=
      b.watchers_setEpoch name
    have listening : b.watchers (.epoch name) = o.subscribers := by
      simp [Bindings.watchers, opened]
    obtain ⟨rest, waits⟩ := announces_foldl_push (·.2) o.subscribers stored fun entry mem =>
      .inr ⟨.epoch name, entry, by rw [watchers, listening]; exact mem, rfl⟩
    refine .of_change stored (.epoch name) rfl rfl rfl rfl rfl rfl rfl rfl rfl rfl
      watchers (fun source other => b.version_modifyEpoch name _ other) rest fun entry mem => ?_
    exact waits entry (listening ▸ mem)

/-! ## What calls leave alone -/

/-- A fold leaves alone what each of its steps does. -/
theorem foldl_keeps {α β : Type} (view : Bindings ν → β) (step : Bindings ν → α → Bindings ν)
    (each : ∀ b a, view (step b a) = view b) (entries : List α) (b : Bindings ν) :
    view (entries.foldl step b) = view b := by
  induction entries generalizing b with
  | nil => rfl
  | cons entry rest ih => exact (ih _).trans (each b entry)

section
variable {β : Type} (view : Bindings ν → β)

theorem push_keeps (pending : ∀ b pending, view { b with pending } = view b) (b : Bindings ν)
    (id : ObserverId) : view (b.push id) = view b := by
  unfold push
  split
  · rfl
  · exact pending b _

theorem write_keeps (pending : ∀ b pending, view { b with pending } = view b)
    (journal : ∀ b journal, view { b with journal } = view b)
    (slots : ∀ b slots, view { b with slots } = view b) (b : Bindings ν) (id : SlotId)
    (value : Value) : view (b.write id value).1 = view b := by
  have called : ∀ (b : Bindings ν) (entry : Nat × Listener ν),
      view (b.call value entry.2) = view b := by
    intro b entry
    cases entry.2 with
    | observer id => exact push_keeps view pending b id
    | host note => exact journal b _
  unfold write
  cases (b.slot id).set value with
  | mk o changed =>
    cases changed with
    | false => rfl
    | true => exact (foldl_keeps view _ called _ _).trans (slots b _)

theorem bump_keeps (pending : ∀ b pending, view { b with pending } = view b)
    (epochs : ∀ b epochs, view { b with epochs } = view b) (b : Bindings ν) (name : String) :
    view (b.bump name) = view b := by
  unfold bump
  cases b.epoch? name with
  | none => rfl
  | some o =>
    have called : ∀ (b : Bindings ν) (entry : Nat × ObserverId),
        view (b.push entry.2) = view b := fun b entry => push_keeps view pending b entry.2
    exact (foldl_keeps view _ called _ _).trans (epochs b _)

end

theorem references_write (b : Bindings ν) (id : SlotId) (value : Value) :
    (b.write id value).1.references = b.references :=
  write_keeps (·.references) (fun _ _ => rfl) (fun _ _ => rfl) (fun _ _ => rfl) b id value

theorem groups_write (b : Bindings ν) (id : SlotId) (value : Value) :
    (b.write id value).1.groups = b.groups :=
  write_keeps (·.groups) (fun _ _ => rfl) (fun _ _ => rfl) (fun _ _ => rfl) b id value

theorem references_bump (b : Bindings ν) (name : String) :
    (b.bump name).references = b.references :=
  bump_keeps (·.references) (fun _ _ => rfl) (fun _ _ => rfl) b name

theorem groups_refreshEach (doc : Document) (chosen : Group → Bool) (groups : List Group)
    (b : Bindings ν) : (b.refreshEach doc chosen groups).1.groups = b.groups := by
  induction groups generalizing b with
  | nil => rfl
  | cons g rest ih =>
    unfold refreshEach
    split
    · exact (ih _).trans (groups_write ..)
    · exact ih b

theorem mem_placeReference {added r : Reference} {references : List Reference}
    (mem : r ∈ placeReference added references) : r = added ∨ r ∈ references := by
  induction references with
  | nil => exact .inl (List.mem_singleton.mp mem)
  | cons first rest ih =>
    unfold placeReference at mem
    split at mem
    · exact (List.mem_cons.mp mem).imp_right (List.mem_cons_of_mem _)
    · split at mem
      · exact List.mem_cons.mp mem
      · rcases List.mem_cons.mp mem with rfl | mem
        · exact .inr List.mem_cons_self
        · exact (ih mem).imp_right (List.mem_cons_of_mem _)

theorem ascending_placeReference (added : Reference) {references : List Reference}
    (h : references.Pairwise fun r r' => r.element.number < r'.element.number) :
    (placeReference added references).Pairwise fun r r' =>
      r.element.number < r'.element.number := by
  induction references with
  | nil => exact List.pairwise_singleton ..
  | cons first rest ih =>
    obtain ⟨below, ascending⟩ := List.pairwise_cons.mp h
    unfold placeReference
    split
    · next same => exact List.pairwise_cons.mpr ⟨fun r mem => same ▸ below r mem, ascending⟩
    · next different =>
      split
      · next less =>
        refine List.pairwise_cons.mpr ⟨fun r mem => ?_, h⟩
        rcases List.mem_cons.mp mem with rfl | mem
        · exact less
        · exact Nat.lt_trans less (below r mem)
      · next notLess =>
        refine List.pairwise_cons.mpr ⟨fun r mem => ?_, ih ascending⟩
        rcases mem_placeReference mem with rfl | mem
        · have apart : first.element.number ≠ r.element.number := fun same =>
            different (congrArg ElementId.mk same)
          exact Nat.lt_of_le_of_ne (Nat.not_lt.mp notLess) apart
        · exact below r mem

namespace Announces

/-- A fold announces when each of its steps does. -/
theorem foldl {α : Type} (step : Bindings ν → α → Bindings ν)
    (each : ∀ b a, Announces b (step b a)) (entries : List α) (b : Bindings ν) :
    Announces b (entries.foldl step b) := by
  induction entries generalizing b with
  | nil => exact refl b
  | cons entry rest ih => exact (each b entry).trans (ih _)

/-! ## References -/

theorem addReference (b : Bindings ν) (el : ElementId) (name : String) (type : RefType)
    (value : Value) : Announces b (b.addReference el name type value) := by
  refine (newSlot b value).trans
    ((references _ _ (fun h => ?_) fun r mem => ?_).trans (bump _ name))
  · exact ascending_placeReference _ h.ascending
  rcases mem_placeReference mem with rfl | mem
  · exact .inr (by simp [Has, Bindings.newSlot])
  · exact .inl mem

theorem dropReference (b : Bindings ν) (r : Reference) : Announces b (b.dropReference r) :=
  (references b _ (fun h => h.ascending.filter _) fun _ mem =>
    .inl (List.mem_filter.mp mem).1).trans
    ((write _ r.slot .undefined).trans (bump _ r.name))

theorem declaredType (b : Bindings ν) (doc : Document) (el : ElementId) (config : Config) :
    Announces b (b.declaredType doc el config).1 := by
  unfold Bindings.declaredType
  cases doc.attribute? el config.refTypeAttribute with
  | none => exact refl b
  | some text =>
    cases read : RefType.parse text with
    | ok type => simpa only [read] using refl b
    | error e => simpa only [read] using log (b := b) rfl

theorem placeDeclaration (b : Bindings ν) (el : ElementId) (name : String) (type : RefType)
    (value : Value) : Announces b (b.placeDeclaration el name type value) := by
  unfold Bindings.placeDeclaration
  split
  · split
    · exact write ..
    · exact (log rfl).trans ((dropReference ..).trans (addReference ..))
  · exact (log rfl).trans (addReference ..)

theorem register (b : Bindings ν) (doc : Document) (accessors : AccessorTable) (config : Config)
    (el : ElementId) : Announces b (b.register doc accessors config el).1 := by
  have typed := declaredType b doc el config
  unfold Bindings.register
  cases declared : b.declaredType doc el config with
  | mk b₁ type =>
    rw [declared] at typed
    have prepared := typed.trans (logCast b₁ (accessors.castFailure? doc el type))
    dsimp only
    split
    · exact log rfl
    · exact prepared.trans (placeDeclaration ..)

theorem actualizeReferences (b : Bindings ν) (doc : Document) :
    Announces b (b.actualizeReferences doc).1 := by
  unfold Bindings.actualizeReferences
  have dropped := foldl Bindings.dropReference dropReference
    (b.references.filter fun r => !doc.isAttached r.element) b
  dsimp only
  split
  · exact dropped
  · exact dropped.trans (log rfl)

theorem reread (b : Bindings ν) (doc : Document) (accessors : AccessorTable) (r : Reference) :
    Announces b (b.reread doc accessors r).1 :=
  (logCast b _).trans ((log rfl).trans (write ..))

theorem rereadEach (doc : Document) (accessors : AccessorTable) (els : List ElementId)
    (b : Bindings ν) : Announces b (b.rereadEach doc accessors els).1 := by
  induction els generalizing b with
  | nil => exact refl b
  | cons el rest ih =>
    unfold Bindings.rereadEach
    cases b.reference? el with
    | none => exact ih b
    | some r => exact (reread b doc accessors r).trans (ih _)

theorem referencesChanged (b : Bindings ν) (doc : Document) (accessors : AccessorTable)
    (target : ElementId) : Announces b (b.referencesChanged doc accessors target).1 :=
  rereadEach doc accessors _ b

/-! ## Groups -/

theorem refresh (b : Bindings ν) (doc : Document) (g : Group) :
    Announces b (b.refresh doc g).1 :=
  write ..

theorem refreshEach (doc : Document) (chosen : Group → Bool) (groups : List Group)
    (b : Bindings ν) : Announces b (b.refreshEach doc chosen groups).1 := by
  induction groups generalizing b with
  | nil => exact refl b
  | cons g rest ih =>
    unfold Bindings.refreshEach
    split
    · exact (refresh b doc g).trans (ih _)
    · exact ih b

/-- A group that is computed anew keeps its slot. -/
theorem slot_mem_refreshEach {doc : Document} {chosen : Group → Bool} {groups : List Group}
    {b : Bindings ν} {g : Group} (mem : g ∈ (b.refreshEach doc chosen groups).2.1) :
    ∃ old ∈ groups, g.slot = old.slot := by
  induction groups generalizing b with
  | nil => exact absurd mem List.not_mem_nil
  | cons first rest ih =>
    unfold Bindings.refreshEach at mem
    split at mem
    · rcases List.mem_cons.mp mem with rfl | mem
      · exact ⟨first, List.mem_cons_self, rfl⟩
      · exact (ih mem).imp fun _ h => h.imp_left (List.mem_cons_of_mem _)
    · rcases List.mem_cons.mp mem with rfl | mem
      · exact ⟨g, List.mem_cons_self, rfl⟩
      · exact (ih mem).imp fun _ h => h.imp_left (List.mem_cons_of_mem _)

theorem resolveGroup (b : Bindings ν) (doc : Document) (name : String) (scope : ElementId) :
    Announces b (b.resolveGroup doc name scope).1 := by
  unfold Bindings.resolveGroup
  cases b.group? name scope with
  | some g => exact refl b
  | none =>
    have refreshed := (newSlot b (.list [])).trans
      (refresh (b.newSlot (.list [])).1 doc ⟨name, scope, [], ⟨b.slots.size⟩⟩)
    refine refreshed.trans ((log rfl).trans (groups _ _ fun h g mem => ?_))
    rcases List.mem_append.mp mem with mem | mem
    · exact h.groups g mem
    · rw [List.mem_singleton.mp mem]
      have grown := (refresh (b.newSlot (.list [])).1 doc ⟨name, scope, [], ⟨b.slots.size⟩⟩).size
      exact Nat.lt_of_lt_of_le (by simp [Bindings.newSlot, Bindings.refresh]) grown

theorem actualizeGroups (b : Bindings ν) (doc : Document) :
    Announces b (b.actualizeGroups doc).1 := by
  unfold Bindings.actualizeGroups
  have dropped := foldl (fun b (g : Group) => (b.write g.slot .undefined).1)
    (fun b g => write b g.slot .undefined) (b.groups.partition fun g => doc.isAttached g.scope).2 b
  refine dropped.trans ((refreshEach ..).trans ((groups _ _ fun h g mem => ?_).trans (log rfl)))
  obtain ⟨old, mem, same⟩ := slot_mem_refreshEach mem
  rw [same]
  apply h.groups old
  have written : ∀ (b : Bindings ν) (g : Group),
      (b.write g.slot .undefined).1.groups = b.groups := fun b g => groups_write ..
  rw [groups_refreshEach, foldl_keeps (·.groups) _ written]
  simp only [List.partition_eq_filter_filter] at mem
  exact (List.mem_filter.mp mem).1

theorem groupsChanged (b : Bindings ν) (doc : Document) (target : ElementId)
    (names : List String) : Announces b (b.groupsChanged doc target names).1 := by
  refine (refreshEach ..).trans (groups _ _ fun h g mem => ?_)
  obtain ⟨old, mem, same⟩ := slot_mem_refreshEach mem
  rw [same]
  exact h.groups old (by rw [groups_refreshEach]; exact mem)

/-! ## Queueing -/

theorem queueWhere (b : Bindings ν) (chosen : Observer ν → Bool) :
    Announces b (b.queueWhere chosen).1 :=
  (announces_foldl_push Observer.id (b.observers.filter chosen) b fun o mem =>
    .inl ⟨o, (List.mem_filter.mp mem).1, rfl⟩).1

theorem queueWithin (b : Bindings ν) (doc : Document) (container : ElementId) :
    Announces b (b.queueWithin doc container).1 :=
  queueWhere ..

theorem queueSelfReaders (b : Bindings ν) (doc : Document) (target : ElementId) :
    Announces b (b.queueSelfReaders doc target).1 :=
  queueWhere ..

end Announces

end FormDependencies.Bindings
