import FormDependencies.Proofs.Binding.Announcement

/-!
Looking up the references of a query changes no source that was there before and queues nobody. What
is read keeps its version until the look-up is over, and the observer watches all of it from then
on.
-/

namespace FormDependencies.Bindings
variable {ν : Type}

theorem mem_of_reference? {b : Bindings ν} {el : ElementId} {r : Reference}
    (h : b.reference? el = some r) : r ∈ b.references :=
  List.mem_of_find?_eq_some h

theorem mem_of_resolve {b : Bindings ν} {doc : Document} {origin : ElementId} {name : String}
    {scope : Option ElementId} {r : Reference} (h : b.resolve doc origin name scope = some r) :
    r ∈ b.references := by
  obtain ⟨el, -, found⟩ := Option.bind_eq_some_iff.mp h
  exact mem_of_reference? found

theorem mem_groups_resolveGroup (b : Bindings ν) (doc : Document) (name : String)
    (scope : ElementId) :
    (b.resolveGroup doc name scope).2 ∈ (b.resolveGroup doc name scope).1.groups := by
  unfold resolveGroup
  cases found : b.group? name scope with
  | some g => exact List.mem_of_find?_eq_some found
  | none => exact List.mem_append_right _ (List.mem_singleton.mpr rfl)

theorem has_resolveGroup {b : Bindings ν} (h : b.Placed) (doc : Document) (name : String)
    (scope : ElementId) :
    (b.resolveGroup doc name scope).1.Has (.slot (b.resolveGroup doc name scope).2.slot) :=
  ((Announces.resolveGroup b doc name scope).placed h).groups _
    (b.mem_groups_resolveGroup doc name scope)

/-- A group that is read for the first time gets a slot of its own, so nothing else changes. -/
theorem resolveGroup_quiet (b : Bindings ν) (doc : Document) (name : String) (scope : ElementId) :
    (b.resolveGroup doc name scope).1.pending = b.pending ∧
      (b.resolveGroup doc name scope).1.references = b.references ∧
      ∀ source, b.Has source →
        (b.resolveGroup doc name scope).1.version source = b.version source := by
  cases found : b.group? name scope with
  | some g =>
    have same : b.resolveGroup doc name scope = (b, g) := by simp only [resolveGroup, found]
    rw [same]
    exact ⟨rfl, rfl, fun _ _ => rfl⟩
  | none =>
    let added := (b.newSlot (.list [])).1
    let slot : SlotId := ⟨b.slots.size⟩
    let value := added.memberValues (added.namedWithin doc scope name)
    have same : ∃ event groups, (b.resolveGroup doc name scope).1 =
        { (added.write slot value).1.log event with groups } :=
      ⟨_, _, by simp only [resolveGroup, found]; rfl⟩
    obtain ⟨event, groups, same⟩ := same
    have unwatched : (added.slot slot).subscribers = [] := by
      simp [added, slot, slot_newSlot]
    have other : ∀ source, b.Has source → source ≠ .slot slot := by
      rintro source there rfl
      exact Nat.lt_irrefl _ there
    have quiet : (added.write slot value).1.pending = b.pending ∧
        (added.write slot value).1.references = b.references ∧
        ∀ source, b.Has source → (added.write slot value).1.version source = b.version source := by
      rcases added.write_of_unwatched slot value unwatched with same | stored
      · rw [same]
        exact ⟨rfl, rfl, fun source _ => b.version_newSlot _ source⟩
      · rw [stored]
        refine ⟨rfl, rfl, fun source there => ?_⟩
        rw [added.version_setSlot slot value (other source there)]
        exact b.version_newSlot _ source
    rw [same]
    generalize (added.write slot value).1 = written at quiet
    exact ⟨quiet.1, quiet.2.1, fun source there =>
      (version_congr rfl rfl source).trans (quiet.2.2 source there)⟩

/-- What a look-up for an observer has done, since it began with some bindings. -/
structure Lookup.Faithful (b : Bindings ν) (id : ObserverId) (l : Lookup ν) : Prop where
  observers : l.bindings.observers = b.observers
  declared : l.bindings.declared = b.declared
  references : l.bindings.references = b.references
  turn : l.bindings.turn = b.turn
  nextObserver : l.bindings.nextObserver = b.nextObserver
  pending : l.bindings.pending = b.pending
  history : SameHistory b l.bindings
  placed : l.bindings.Placed
  size : b.slots.size ≤ l.bindings.slots.size
  versions : ∀ source, b.Has source → l.bindings.version source = b.version source
  numbers : b.nextSubscription ≤ l.bindings.nextSubscription
  sources : l.readings.map (·.source) = l.subscriptions.map (·.source)
  current : ∀ r ∈ l.readings, l.bindings.version r.source = r.version
  subscribed : ∀ s ∈ l.subscriptions, l.bindings.Has s.source ∧ b.nextSubscription ≤ s.number ∧
    s.number < l.bindings.nextSubscription ∧ (s.number, id) ∈ l.bindings.watchers s.source
  kept : ∀ source, ∀ entry ∈ b.watchers source, entry ∈ l.bindings.watchers source
  known : ∀ source, ∀ entry ∈ l.bindings.watchers source,
    entry ∈ b.watchers source ∨
      entry.2 = id ∧ b.nextSubscription ≤ entry.1 ∧ entry.1 < l.bindings.nextSubscription

namespace Lookup.Faithful
variable {b : Bindings ν} {id : ObserverId} {l : Lookup ν}

theorem start (h : b.Placed) (id : ObserverId) : Faithful b id { bindings := b } where
  observers := rfl
  declared := rfl
  references := rfl
  turn := rfl
  nextObserver := rfl
  pending := rfl
  history := .of_eq rfl
  placed := h
  size := Nat.le_refl _
  versions _ _ := rfl
  numbers := Nat.le_refl _
  sources := rfl
  current _ none := absurd none List.not_mem_nil
  subscribed _ none := absurd none List.not_mem_nil
  kept _ _ mem := mem
  known _ _ mem := .inl mem

/-- The values that are handed on do not matter. -/
theorem values (h : Faithful b id l) (values : ReferenceValues) :
    Faithful b id { l with values } :=
  ⟨h.observers, h.declared, h.references, h.turn, h.nextObserver, h.pending, h.history, h.placed,
    h.size, h.versions, h.numbers, h.sources, h.current, h.subscribed, h.kept, h.known⟩

theorem has_of_mem_readings (h : Faithful b id l) {r : Reading} (mem : r ∈ l.readings) :
    l.bindings.Has r.source := by
  have listed : r.source ∈ l.subscriptions.map (·.source) :=
    h.sources ▸ List.mem_map_of_mem mem
  obtain ⟨s, mem, same⟩ := List.mem_map.mp listed
  exact same ▸ (h.subscribed s mem).1

/-- A change that announces but queues nobody, and leaves alone what is there. -/
theorem announce (h : Faithful b id l) {c : Bindings ν} (announces : Announces l.bindings c)
    (pending : c.pending = l.bindings.pending)
    (references : c.references = l.bindings.references)
    (versions : ∀ source, l.bindings.Has source → c.version source = l.bindings.version source) :
    Faithful b id { l with bindings := c } where
  observers := announces.observers.trans h.observers
  declared := announces.declared.trans h.declared
  references := references.trans h.references
  turn := announces.turn.trans h.turn
  nextObserver := announces.nextObserver.trans h.nextObserver
  pending := pending.trans h.pending
  history := h.history.trans announces.history
  placed := announces.placed h.placed
  size := Nat.le_trans h.size announces.size
  versions source there := (versions source (there.mono h.size)).trans (h.versions source there)
  numbers := announces.nextSubscription ▸ h.numbers
  sources := h.sources
  current r mem := (versions r.source (h.has_of_mem_readings mem)).trans (h.current r mem)
  subscribed s mem := by
    obtain ⟨there, low, high, watches⟩ := h.subscribed s mem
    exact ⟨there.mono announces.size, low, announces.nextSubscription ▸ high,
      announces.watchers s.source ▸ watches⟩
  kept source entry mem := announces.watchers source ▸ h.kept source entry mem
  known source entry mem :=
    announces.nextSubscription ▸ h.known source entry (announces.watchers source ▸ mem)

/-- The observer begins to watch a source and reads it. -/
theorem subscribe (h : Faithful b id l) {c : Bindings ν} (source : Source)
    (there : l.bindings.Has source) (observers : c.observers = l.bindings.observers)
    (declared : c.declared = l.bindings.declared)
    (references : c.references = l.bindings.references) (groups : c.groups = l.bindings.groups)
    (turn : c.turn = l.bindings.turn) (nextObserver : c.nextObserver = l.bindings.nextObserver)
    (pending : c.pending = l.bindings.pending) (journal : c.journal = l.bindings.journal)
    (size : c.slots.size = l.bindings.slots.size)
    (next : c.nextSubscription = l.bindings.nextSubscription + 1)
    (versions : ∀ source, c.version source = l.bindings.version source)
    (watchers : ∀ other, c.watchers other = l.bindings.watchers other ++
      if other = source then [(l.bindings.nextSubscription, id)] else []) :
    Faithful b id
      { l with
        bindings := c
        subscriptions := l.subscriptions ++ [⟨source, l.bindings.nextSubscription⟩]
        readings := l.readings ++ [c.reading source] } where
  observers := observers.trans h.observers
  declared := declared.trans h.declared
  references := references.trans h.references
  turn := turn.trans h.turn
  nextObserver := nextObserver.trans h.nextObserver
  pending := pending.trans h.pending
  history := h.history.trans (.of_eq journal)
  placed := h.placed.of_eq (Nat.le_of_eq size.symm) references groups
  size := size ▸ h.size
  versions other there := (versions other).trans (h.versions other there)
  numbers := next ▸ Nat.le_succ_of_le h.numbers
  sources := by simp [h.sources, reading]
  current r mem := by
    rcases List.mem_append.mp mem with mem | mem
    · exact (versions r.source).trans (h.current r mem)
    · rw [List.mem_singleton.mp mem]
      rfl
  subscribed s mem := by
    rcases List.mem_append.mp mem with mem | mem
    · obtain ⟨there, low, high, watches⟩ := h.subscribed s mem
      refine ⟨there.mono (Nat.le_of_eq size.symm), low, next ▸ Nat.lt_succ_of_lt high, ?_⟩
      exact watchers s.source ▸ List.mem_append_left _ watches
    · rw [List.mem_singleton.mp mem]
      refine ⟨there.mono (Nat.le_of_eq size.symm), h.numbers, next ▸ Nat.lt_succ_self _, ?_⟩
      simp [watchers]
  kept other entry mem := watchers other ▸ List.mem_append_left _ (h.kept other entry mem)
  known other entry mem := by
    rw [watchers other] at mem
    rcases List.mem_append.mp mem with mem | mem
    · refine (h.known other entry mem).imp_right fun ⟨same, low, high⟩ => ⟨same, low, ?_⟩
      exact next ▸ Nat.lt_succ_of_lt high
    · split at mem
      · rw [List.mem_singleton.mp mem]
        exact .inr ⟨rfl, h.numbers, next ▸ Nat.lt_succ_self _⟩
      · exact absurd mem List.not_mem_nil

theorem openEpoch_keeps {β : Type} (view : Bindings ν → β)
    (epochs : ∀ b epochs, view { b with epochs } = view b) (b : Bindings ν) (name : String) :
    view (b.openEpoch name) = view b := by
  unfold Bindings.openEpoch
  split
  · rfl
  · exact epochs b _

theorem watchEpoch (h : Faithful b id l) (name : String) :
    Faithful b id (l.watchEpoch name id) := by
  have keeps : ∀ {β : Type} (view : Bindings ν → β),
      (∀ b epochs, view { b with epochs } = view b) →
      (∀ b nextSubscription, view { b with nextSubscription } = view b) →
      view (l.bindings.subscribeEpoch name id).1 = view l.bindings := fun view epochs next =>
    (next _ _).trans ((epochs _ _).trans (openEpoch_keeps view epochs l.bindings name))
  exact h.subscribe (.epoch name) trivial (keeps (·.observers) (fun _ _ => rfl) fun _ _ => rfl)
    (keeps (·.declared) (fun _ _ => rfl) fun _ _ => rfl)
    (keeps (·.references) (fun _ _ => rfl) fun _ _ => rfl)
    (keeps (·.groups) (fun _ _ => rfl) fun _ _ => rfl)
    (keeps (·.turn) (fun _ _ => rfl) fun _ _ => rfl)
    (keeps (·.nextObserver) (fun _ _ => rfl) fun _ _ => rfl)
    (keeps (·.pending) (fun _ _ => rfl) fun _ _ => rfl)
    (keeps (·.journal) (fun _ _ => rfl) fun _ _ => rfl)
    (keeps (·.slots.size) (fun _ _ => rfl) fun _ _ => rfl) rfl
    (l.bindings.version_subscribeEpoch name id) (l.bindings.watchers_subscribeEpoch name id)

theorem watchSlot (h : Faithful b id l) {slot : SlotId} (there : l.bindings.Has (.slot slot)) :
    Faithful b id (l.watchSlot slot id) :=
  h.subscribe (.slot slot) there rfl rfl rfl rfl rfl rfl rfl rfl
    (by simp) rfl (l.bindings.version_subscribeSlot slot (.observer id))
    (l.bindings.watchers_subscribeSlot slot id there)

theorem simple (h : Faithful b id l) (doc : Document) (el : ElementId) (token : ReferenceToken)
    (scope : Option ElementId) : Faithful b id (l.simple doc el id token scope) := by
  unfold Lookup.simple
  have watched := h.watchEpoch token.name
  dsimp only
  cases found : (l.watchEpoch token.name id).bindings.resolve doc el token.name scope with
  | none => exact watched.values _
  | some r =>
    exact (watched.watchSlot (watched.placed.references r (mem_of_resolve found))).values _

theorem group (h : Faithful b id l) (doc : Document) (token : ReferenceToken)
    (scope : ElementId) : Faithful b id (l.group doc id token scope) := by
  have watched := h.watchEpoch token.name
  obtain ⟨pending, references, versions⟩ :=
    resolveGroup_quiet (l.watchEpoch token.name id).bindings doc token.name scope
  have resolved :=
    watched.announce (.resolveGroup _ doc token.name scope) pending references versions
  exact (resolved.watchSlot (has_resolveGroup watched.placed doc token.name scope)).values _

theorem this (h : Faithful b id l) (doc : Document) (accessors : AccessorTable) (el : ElementId)
    (token : ReferenceToken) : Faithful b id (l.this doc accessors el token) := by
  have same : ∀ failure, (l.bindings.logCast failure).pending = l.bindings.pending ∧
      (l.bindings.logCast failure).references = l.bindings.references ∧
      ∀ source, (l.bindings.logCast failure).version source = l.bindings.version source := by
    intro failure
    cases failure with
    | none => exact ⟨rfl, rfl, fun _ => rfl⟩
    | some text => exact ⟨rfl, rfl, version_congr rfl rfl⟩
  obtain ⟨pending, references, versions⟩ := same (accessors.castFailure? doc el .auto)
  exact (h.announce (.logCast _ _) pending references fun source _ => versions source).values _

theorem outOfScope (h : Faithful b id l) (token : ReferenceToken) :
    Faithful b id (l.outOfScope id token) := by
  unfold Lookup.outOfScope
  have watched := h.watchEpoch token.name
  dsimp only
  split
  · exact watched.values _
  · exact watched.values _

theorem token (h : Faithful b id l) (doc : Document) (accessors : AccessorTable) (el : ElementId)
    (token : ReferenceToken) : Faithful b id (l.token doc accessors el id token) := by
  have within : ∀ scope, Faithful b id (l.within doc accessors el id token scope) := by
    intro scope
    unfold Lookup.within
    cases token.kind with
    | simple => exact h.simple doc el token scope
    | group => exact h.group doc token _
    | this => exact h.this doc accessors el token
  unfold Lookup.token
  cases token.scope with
  | none => exact within none
  | some selector =>
    dsimp only
    split
    · exact within _
    · exact h.outOfScope token

end Lookup.Faithful

theorem lookUp_faithful {b : Bindings ν} (h : b.Placed) (doc : Document)
    (accessors : AccessorTable) (o : Observer ν) :
    (b.lookUp doc accessors o).Faithful b o.id := by
  have each : ∀ (tokens : List ReferenceToken) (l : Lookup ν), l.Faithful b o.id →
      (tokens.foldl (fun l token => l.token doc accessors o.element o.id token) l).Faithful b
        o.id := by
    intro tokens
    induction tokens with
    | nil => exact fun l h => h
    | cons token rest ih => exact fun l h => ih _ (h.token doc accessors o.element token)
  exact each o.query.references _ (.start h o.id)

/-! ## What is read -/

/-- The sources of the value of a reference token within a scope, in the order in which they are
read: the epoch of the name, and the slot of the reference or group that it means. -/
def sourcesWithin (b : Bindings ν) (doc : Document) (el : ElementId) (token : ReferenceToken)
    (scope : Option ElementId) : List Source :=
  match token.kind with
  | .simple => .epoch token.name ::
    ((b.resolve doc el token.name scope).map fun r => Source.slot r.slot).toList
  | .group => .epoch token.name ::
    ((b.group? token.name (scope.getD .root)).map fun g => Source.slot g.slot).toList
  | .this => []

/-- The sources of the value of a reference token. Out of its scope only the name counts. -/
def sourcesOf (b : Bindings ν) (doc : Document) (el : ElementId) (token : ReferenceToken) :
    List Source :=
  match token.scope with
  | none => b.sourcesWithin doc el token none
  | some selector =>
    match doc.closest? el selector with
    | some root => b.sourcesWithin doc el token (some root)
    | none => [.epoch token.name]

structure Persists (b c : Bindings ν) : Prop where
  references : c.references = b.references
  groups : ∀ name scope g, b.group? name scope = some g → c.group? name scope = some g

namespace Persists
variable {b c d : Bindings ν}

theorem of_eq (references : c.references = b.references) (groups : c.groups = b.groups) :
    Persists b c :=
  ⟨references, fun name scope g found => by
    unfold group?
    rw [groups]
    exact found⟩

theorem trans (first : Persists b c) (second : Persists c d) : Persists b d :=
  ⟨second.references.trans first.references, fun name scope g found =>
    second.groups name scope g (first.groups name scope g found)⟩

theorem resolve (h : Persists b c) (doc : Document) (origin : ElementId) (name : String)
    (scope : Option ElementId) :
    c.resolve doc origin name scope = b.resolve doc origin name scope := by
  have references := h.references
  have found : c.reference? = b.reference? := by
    funext el
    rw [reference?, reference?, references]
  unfold Bindings.resolve candidates
  rw [references, found]

theorem watchEpoch (l : Lookup ν) (name : String) (id : ObserverId) :
    Persists l.bindings (l.watchEpoch name id).bindings := by
  have opened : Persists l.bindings (l.bindings.openEpoch name) := by
    unfold openEpoch
    split
    · exact .of_eq rfl rfl
    · exact .of_eq rfl rfl
  exact opened.trans (.of_eq rfl rfl)

theorem resolveGroup (b : Bindings ν) (doc : Document) (name : String) (scope : ElementId) :
    Persists b (b.resolveGroup doc name scope).1 ∧
      (b.resolveGroup doc name scope).1.group? name scope =
        some (b.resolveGroup doc name scope).2 := by
  have references := (b.resolveGroup_quiet doc name scope).2.1
  unfold Bindings.resolveGroup at references ⊢
  cases found : b.group? name scope with
  | some g => exact ⟨.of_eq rfl rfl, found⟩
  | none =>
    let added := (b.newSlot (.list [])).1
    let refreshed := added.refresh doc ⟨name, scope, [], ⟨b.slots.size⟩⟩
    have groups : refreshed.1.groups = b.groups := groups_write ..
    simp only [found] at references
    refine ⟨⟨references, fun other scope' g same => ?_⟩, ?_⟩
    · change (refreshed.1.groups ++ [refreshed.2.1]).find? _ = _
      rw [groups, List.find?_append, show b.groups.find? _ = some g from same]
      rfl
    · change (refreshed.1.groups ++ [refreshed.2.1]).find? _ = _
      have own : (refreshed.2.1.name == name && refreshed.2.1.scope == scope) = true := by
        simp [refreshed, refresh]
      rw [groups, List.find?_append, show b.groups.find? _ = none from found]
      simp only [Option.none_or, List.find?_cons, own]
      rfl

end Persists

namespace Lookup
variable (l : Lookup ν) (doc : Document) (el : ElementId) (id : ObserverId)
  (token : ReferenceToken)

def sources (l : Lookup ν) : List Source := l.readings.map (·.source)

theorem sources_watchEpoch (name : String) :
    (l.watchEpoch name id).sources = l.sources ++ [.epoch name] := by
  simp [sources, watchEpoch, reading, subscribeEpoch]

theorem sources_watchSlot (slot : SlotId) :
    (l.watchSlot slot id).sources = l.sources ++ [.slot slot] := by
  simp [sources, watchSlot, reading, subscribeSlot]

theorem sources_simple (scope : Option ElementId) :
    Persists l.bindings (l.simple doc el id token scope).bindings ∧
      ∀ c, Persists (l.simple doc el id token scope).bindings c →
        (l.simple doc el id token scope).sources = l.sources ++ .epoch token.name ::
          ((c.resolve doc el token.name scope).map fun r => Source.slot r.slot).toList := by
  have watched := Persists.watchEpoch l token.name id
  have read := l.sources_watchEpoch id token.name
  unfold simple
  dsimp only
  generalize l.watchEpoch token.name id = l₁ at watched read
  cases found : l₁.bindings.resolve doc el token.name scope with
  | none =>
    refine ⟨watched, fun c later => ?_⟩
    have stays : Persists l₁.bindings (l₁.insert token.key .undefined).bindings := .of_eq rfl rfl
    rw [(stays.trans later).resolve doc el token.name scope, found]
    exact read
  | some r =>
    have stays : Persists l₁.bindings (l₁.watchSlot r.slot id).bindings := .of_eq rfl rfl
    refine ⟨watched.trans stays, fun c later => ?_⟩
    rw [(stays.trans later).resolve doc el token.name scope, found]
    change (l₁.watchSlot r.slot id).sources = _
    rw [sources_watchSlot, read, List.append_assoc]
    rfl

theorem sources_group (scope : ElementId) :
    Persists l.bindings (l.group doc id token scope).bindings ∧
      ∀ c, Persists (l.group doc id token scope).bindings c →
        (l.group doc id token scope).sources = l.sources ++ .epoch token.name ::
          ((c.group? token.name scope).map fun g => Source.slot g.slot).toList := by
  have watched := Persists.watchEpoch l token.name id
  have read := l.sources_watchEpoch id token.name
  unfold group
  dsimp only
  generalize l.watchEpoch token.name id = l₁ at watched read
  obtain ⟨resolved, found⟩ := Persists.resolveGroup l₁.bindings doc token.name scope
  generalize l₁.bindings.resolveGroup doc token.name scope = r at resolved found
  let l₂ := { l₁ with bindings := r.1 }
  have stays : Persists r.1 (l₂.watchSlot r.2.slot id).bindings := .of_eq rfl rfl
  refine ⟨watched.trans (resolved.trans stays), fun c later => ?_⟩
  rw [(stays.trans later).groups _ _ _ found]
  change (l₂.watchSlot r.2.slot id).sources = _
  rw [sources_watchSlot, show l₂.sources = _ from read, List.append_assoc]
  rfl

/-- A token is looked up by reading its sources, which are the same for all that comes later. -/
theorem sources_token (accessors : AccessorTable) :
    Persists l.bindings (l.token doc accessors el id token).bindings ∧
      ∀ c, Persists (l.token doc accessors el id token).bindings c →
        (l.token doc accessors el id token).sources =
          l.sources ++ c.sourcesOf doc el token := by
  have this : Persists l.bindings (l.this doc accessors el token).bindings := by
    change Persists l.bindings (l.bindings.logCast (accessors.castFailure? doc el .auto))
    cases accessors.castFailure? doc el .auto <;> exact .of_eq rfl rfl
  have outOfScope : (l.outOfScope id token).sources = l.sources ++ [.epoch token.name] ∧
      Persists l.bindings (l.outOfScope id token).bindings := by
    unfold Lookup.outOfScope
    dsimp only
    split
    · exact ⟨l.sources_watchEpoch id token.name, .watchEpoch l token.name id⟩
    · exact ⟨l.sources_watchEpoch id token.name, .watchEpoch l token.name id⟩
  have within : ∀ scope,
      let after := l.within doc accessors el id token scope
      Persists l.bindings after.bindings ∧ ∀ c, Persists after.bindings c →
        after.sources = l.sources ++ c.sourcesWithin doc el token scope := by
    intro scope
    unfold Lookup.within sourcesWithin
    cases token.kind with
    | simple => exact l.sources_simple doc el id token scope
    | group => exact l.sources_group doc id token _
    | this => exact ⟨this, fun _ _ => (List.append_nil _).symm⟩
  unfold Lookup.token sourcesOf
  cases token.scope with
  | none => exact within none
  | some selector =>
    dsimp only
    cases doc.closest? el selector with
    | none => exact ⟨outOfScope.2, fun _ _ => outOfScope.1⟩
    | some root => exact within (some root)

end Lookup

/-- What a look-up has read is what its tokens have for sources, each source as it is at the end. -/
theorem readings_lookUp {b : Bindings ν} (h : b.Placed) (doc : Document)
    (accessors : AccessorTable) (o : Observer ν) :
    let l := b.lookUp doc accessors o
    l.readings = o.query.references.flatMap fun token =>
      (l.bindings.sourcesOf doc o.element token).map l.bindings.reading := by
  intro l
  have each : ∀ (tokens : List ReferenceToken) (start : Lookup ν),
      let after := tokens.foldl
        (fun l token => l.token doc accessors o.element o.id token) start
      Persists start.bindings after.bindings ∧ after.sources =
        start.sources ++ tokens.flatMap (after.bindings.sourcesOf doc o.element) := by
    intro tokens
    induction tokens with
    | nil => exact fun start => ⟨.of_eq rfl rfl, (List.append_nil _).symm⟩
    | cons token rest ih =>
      intro start
      obtain ⟨first, read⟩ := start.sources_token doc o.element o.id token accessors
      obtain ⟨later, readLater⟩ := ih (start.token doc accessors o.element o.id token)
      refine ⟨first.trans later, ?_⟩
      rw [List.flatMap_cons, ← List.append_assoc]
      exact readLater.trans (congrArg (· ++ _) (read _ later))
  have sources : l.sources = o.query.references.flatMap (l.bindings.sourcesOf doc o.element) :=
    (each o.query.references { bindings := b }).2
  have current := (lookUp_faithful h doc accessors o).current
  have asIs : l.readings = l.sources.map l.bindings.reading := by
    rw [Lookup.sources, List.map_map]
    refine (List.map_id l.readings).symm.trans (List.map_congr_left fun r mem => ?_)
    exact congrArg (Reading.mk r.source) (current r mem).symm
  rw [asIs, sources, List.map_flatMap]

end FormDependencies.Bindings
