import FormDependencies.Proofs.Binding.Lifecycle
import FormDependencies.Proofs.Binding.Lookup

/-!
What one evaluation does to the bindings. It changes no source and queues nobody; the observer is
subscribed to exactly what was read, so that it is current afterwards, and nobody else loses a
subscription.
-/

namespace FormDependencies

def Observer.asCreated {ν : Type} (o : Observer ν) : Observer ν :=
  { o with evaluations := 0, lastResult := none, subscriptions := [] }

namespace Bindings
variable {ν : Type}

/-- An observer has been evaluated: what it is subscribed to now and what was read. -/
structure Evaluates (b : Bindings ν) (o : Observer ν) (c : Bindings ν)
    (subscriptions : List Subscription) (readings : List Reading) : Prop where
  observers : ∃ change : Observer ν → Observer ν,
    c.observers = b.observers.map (fun p => if p.id == o.id then change p else p) ∧
      ∀ p, (change p).asCreated = p.asCreated ∧ (change p).subscriptions = subscriptions
  declared : c.declared = b.declared
  references : c.references = b.references
  turn : c.turn = b.turn
  nextObserver : c.nextObserver = b.nextObserver
  pending : c.pending = b.pending
  attempted : c.lastAttempt? o.id = some (.looked readings)
  others : ∀ id, id ≠ o.id → c.lastAttempt? id = b.lastAttempt? id
  evaluated : c.evaluated = b.evaluated ++ [o.id]
  completions : ∀ id, c.completions id ≤ b.completions id + if id = o.id then 1 else 0
  placed : c.Placed
  size : b.slots.size ≤ c.slots.size
  versions : ∀ source, b.Has source → c.version source = b.version source
  numbers : b.nextSubscription ≤ c.nextSubscription
  sources : readings.map (·.source) = subscriptions.map (·.source)
  current : ∀ r ∈ readings, c.version r.source = r.version
  subscribed : ∀ s ∈ subscriptions, c.Has s.source ∧ (s.number, o.id) ∈ c.watchers s.source
  kept : ∀ source, ∀ entry ∈ b.watchers source, entry.2 ≠ o.id → entry ∈ c.watchers source
  known : ∀ source, ∀ entry ∈ c.watchers source, entry ∈ b.watchers source ∨
    entry.2 = o.id ∧ b.nextSubscription ≤ entry.1 ∧ entry.1 < c.nextSubscription

section
variable (b : Bindings ν) (doc : Document) (accessors : AccessorTable) (o : Observer ν)

/-- Besides what the look-up did, the look-up is noted and the old subscriptions end. -/
theorem rebind_eq :
    let l := b.lookUp doc accessors o
    ∃ slots epochs,
      (b.rebind doc accessors o).1 =
          { l.bindings with
            slots, epochs
            observers := l.bindings.observers.map fun p =>
              if p.id == o.id then { p with subscriptions := l.subscriptions } else p
            journal := .lookedUp o.id l.readings :: l.bindings.journal } ∧
        slots.size = l.bindings.slots.size := by
  intro l
  let recorded := l.bindings.record (.lookedUp o.id l.readings)
  obtain ⟨slots, epochs, same, size⟩ := recorded.unsubscribeAll_eq o.subscriptions
  refine ⟨slots, epochs, ?_, size⟩
  change (recorded.unsubscribeAll o.subscriptions).modifyObserver o.id _ = _
  rw [same]
  rfl

theorem version_rebind (source : Source) :
    (b.rebind doc accessors o).1.version source =
      (b.lookUp doc accessors o).bindings.version source := by
  let l := b.lookUp doc accessors o
  let recorded := l.bindings.record (.lookedUp o.id l.readings)
  calc (b.rebind doc accessors o).1.version source
    _ = (recorded.unsubscribeAll o.subscriptions).version source := version_congr rfl rfl source
    _ = recorded.version source := recorded.version_unsubscribeAll o.subscriptions source
    _ = l.bindings.version source := version_congr rfl rfl source

theorem mem_watchers_rebind (source : Source) (entry : Nat × ObserverId) :
    entry ∈ (b.rebind doc accessors o).1.watchers source ↔
      entry ∈ (b.lookUp doc accessors o).bindings.watchers source ∧
        ∀ s ∈ o.subscriptions, s.source = source → s.number ≠ entry.1 := by
  let l := b.lookUp doc accessors o
  let recorded := l.bindings.record (.lookedUp o.id l.readings)
  have modified : (b.rebind doc accessors o).1.watchers source =
      (recorded.unsubscribeAll o.subscriptions).watchers source := watchers_congr rfl rfl source
  have unrecorded : recorded.watchers source = l.bindings.watchers source :=
    watchers_congr rfl rfl source
  rw [modified, mem_watchers_unsubscribeAll, unrecorded]

end

theorem completions_rebind {b : Bindings ν} (h : b.Placed) (doc : Document)
    (accessors : AccessorTable) (o : Observer ν) (id : ObserverId) :
    (b.rebind doc accessors o).1.completions id = b.completions id := by
  obtain ⟨slots, epochs, same, -⟩ := b.rebind_eq doc accessors o
  rw [same]
  exact (completions_record _ (.lookedUp o.id _) id).trans
    ((lookUp_faithful h doc accessors o).history.completions id)

theorem evaluates_rebind {b : Bindings ν} (h : b.Wiring) (doc : Document)
    (accessors : AccessorTable) {o : Observer ν} (mem : o ∈ b.observers) :
    let l := b.lookUp doc accessors o
    Evaluates b o (b.rebind doc accessors o).1 l.subscriptions l.readings := by
  intro l
  have faithful : l.Faithful b o.id := lookUp_faithful h.placed doc accessors o
  have completions := completions_rebind h.placed doc accessors o
  have versions := b.version_rebind doc accessors o
  have watchers := b.mem_watchers_rebind doc accessors o
  obtain ⟨slots, epochs, same, grown⟩ := b.rebind_eq doc accessors o
  let recorded := l.bindings.record (.lookedUp o.id l.readings)
  generalize (b.rebind doc accessors o).1 = c at *
  have attempt : ∀ id, c.lastAttempt? id = recorded.lastAttempt? id := fun id => by
    rw [same]
    rfl
  have size : c.slots.size = l.bindings.slots.size := by
    rw [same]
    exact grown
  have next : c.nextSubscription = l.bindings.nextSubscription := by rw [same]
  have references : c.references = l.bindings.references := by rw [same]
  have groups : c.groups = l.bindings.groups := by rw [same]
  exact
  { observers := by
      refine ⟨fun p => { p with subscriptions := l.subscriptions }, ?_, fun p => ⟨rfl, rfl⟩⟩
      rw [same, ← faithful.observers]
    declared := (congrArg Bindings.declared same).trans faithful.declared
    references := references.trans faithful.references
    turn := (congrArg Bindings.turn same).trans faithful.turn
    nextObserver := (congrArg Bindings.nextObserver same).trans faithful.nextObserver
    pending := (congrArg Bindings.pending same).trans faithful.pending
    attempted := by
      rw [attempt]
      simp [recorded, lastAttempt?_record, Entry.attempt?]
    others := by
      intro id other
      rw [attempt]
      simp [recorded, lastAttempt?_record, Entry.attempt?, Ne.symm other,
        faithful.history.lastAttempt?]
    evaluated := by
      have noted : c.evaluated = recorded.evaluated := by
        rw [same]
        rfl
      rw [noted]
      simp [recorded, evaluated_record, Entry.evaluated?, faithful.history.evaluated]
    completions := by
      intro id
      rw [completions]
      exact Nat.le_add_right _ _
    placed := faithful.placed.of_eq (Nat.le_of_eq size.symm) references groups
    size := Nat.le_trans faithful.size (Nat.le_of_eq size.symm)
    versions source there := (versions source).trans (faithful.versions source there)
    numbers := Nat.le_trans faithful.numbers (Nat.le_of_eq next.symm)
    sources := faithful.sources
    current r read := (versions r.source).trans (faithful.current r read)
    subscribed := by
      intro s subscribed
      obtain ⟨there, low, -, watches⟩ := faithful.subscribed s subscribed
      refine ⟨there.mono (Nat.le_of_eq size.symm), (watchers _ _).mpr ⟨watches, ?_⟩⟩
      -- the old subscriptions have smaller numbers than the new ones
      intro s' subscribed' _ number
      have old : s'.number < b.nextSubscription := h.numbered o mem s' subscribed'
      rw [number] at old
      exact Nat.lt_irrefl _ (Nat.lt_of_lt_of_le old low)
    kept := by
      intro source entry watches other
      refine (watchers source entry).mpr ⟨faithful.kept source entry watches, ?_⟩
      rintro s subscribed rfl number
      exact other (h.own o mem s subscribed entry watches number.symm)
    known := by
      intro source entry watches
      apply (faithful.known source entry ((watchers source entry).mp watches).1).imp_right
      rintro ⟨own, low, high⟩
      exact ⟨own, low, Nat.lt_of_lt_of_eq high next.symm⟩ }

/-- After the look-up an evaluation only counts itself and writes into the journal. -/
theorem evaluateObserver_eq (b : Bindings ν) (doc : Document) (env : Environment)
    (o : Observer ν) :
    ∃ (change : Observer ν → Observer ν) (added : List (Entry ν)),
      let c := (b.rebind doc env.accessors o).1
      (b.evaluateObserver doc env o).1 =
          { c with
            observers := c.observers.map fun p => if p.id == o.id then change p else p
            journal := added ++ c.journal } ∧
        (∀ p, (change p).asCreated = p.asCreated ∧
          (change p).subscriptions = p.subscriptions) ∧
        (∀ entry ∈ added, entry.evaluated? = none ∧ ∀ id, entry.attempt? id = none) ∧
        ∀ id, added.countP (Entry.completes id) ≤ if id = o.id then 1 else 0 := by
  let c := (b.rebind doc env.accessors o).1
  let expression : Entry ν := .expression o.query.text
  unfold evaluateObserver
  dsimp only
  cases env.evaluator o.query.text (b.rebind doc env.accessors o).2 with
  | error reason =>
    refine ⟨fun p => p, [expression], by simp [record, expression], fun p => ⟨rfl, rfl⟩, ?_, ?_⟩
    · simp [expression, Entry.evaluated?, Entry.attempt?]
    · simp [expression, Entry.completes]
  | ok value =>
    dsimp only
    let result := if o.negated then Value.bool (!value.isTruthy) else value
    let completed : Entry ν := .log (.evaluated o.id o.element o.query.text result)
    let change := fun p : Observer ν =>
      { p with evaluations := p.evaluations + 1, lastResult := some result }
    have marks : ∀ p, (change p).asCreated = p.asCreated ∧
        (change p).subscriptions = p.subscriptions := fun p => ⟨rfl, rfl⟩
    have silent : ∀ entry ∈ [completed, expression],
        entry.evaluated? = none ∧ ∀ id, entry.attempt? id = none := by
      simp [completed, expression, Entry.evaluated?, Entry.attempt?]
    have counted : ∀ id, [completed, expression].countP (Entry.completes id) ≤
        if id = o.id then 1 else 0 := by
      intro id
      by_cases own : o.id = id
      · simp [completed, expression, Entry.completes, own]
      · simp [completed, expression, Entry.completes, own, Ne.symm own]
    split
    · exact ⟨change, [completed, expression], rfl, marks, silent, counted⟩
    · obtain ⟨notes, same, plain⟩ := Notes.recordNotes
        (((c.record expression).record completed).modifyObserver o.id change)
        (o.action { accessors := env.accessors, config := env.config, element := o.element
                    targets := targetsOf doc o, parameters := o.parameters } result doc).2
      refine ⟨change, notes ++ [completed, expression], same.trans ?_, marks, ?_, fun id => ?_⟩
      · simp [modifyObserver, record, c]
      · intro entry mem
        rcases List.mem_append.mp mem with mem | mem
        · exact ⟨Entry.evaluated?_of_isPlain (plain entry mem),
            Entry.attempt?_of_isPlain (plain entry mem)⟩
        · exact silent entry mem
      · have none : notes.countP (Entry.completes id) = 0 :=
          List.countP_eq_zero.mpr fun entry mem => by
            simp [Entry.completes_of_isPlain (plain entry mem) id]
        rw [List.countP_append, none, Nat.zero_add]
        exact counted id

/-- What an evaluation adds to the look-up tells of no other evaluation. -/
theorem Evaluates.finish {b c : Bindings ν} {o : Observer ν} {subscriptions : List Subscription}
    {readings : List Reading} (h : Evaluates b o c subscriptions readings)
    (uncounted : ∀ id, c.completions id = b.completions id)
    {change : Observer ν → Observer ν} {added : List (Entry ν)}
    (marks : ∀ p, (change p).asCreated = p.asCreated ∧ (change p).subscriptions = p.subscriptions)
    (silent : ∀ entry ∈ added, entry.evaluated? = none ∧ ∀ id, entry.attempt? id = none)
    (counted : ∀ id, added.countP (Entry.completes id) ≤ if id = o.id then 1 else 0) :
    Evaluates b o
      { c with
        observers := c.observers.map fun p => if p.id == o.id then change p else p
        journal := added ++ c.journal }
      subscriptions readings := by
  let d : Bindings ν :=
    { c with
      observers := c.observers.map fun p => if p.id == o.id then change p else p
      journal := added ++ c.journal }
  have attempt : ∀ id, d.lastAttempt? id = c.lastAttempt? id := by
    intro id
    have nothing : added.findSome? (Entry.attempt? id) = none :=
      List.findSome?_eq_none_iff.mpr fun entry mem => (silent entry mem).2 id
    simp only [d, lastAttempt?, List.findSome?_append, nothing, Option.none_or]
  have evaluated : d.evaluated = c.evaluated := by
    have nothing : added.filterMap Entry.evaluated? = [] :=
      List.filterMap_eq_nil_iff.mpr fun entry mem => (silent entry mem).1
    simp only [d, Bindings.evaluated, List.filterMap_append, nothing, List.nil_append]
  have versions : ∀ source, d.version source = c.version source := version_congr rfl rfl
  have watchers : ∀ source, d.watchers source = c.watchers source := watchers_congr rfl rfl
  exact
  { h with
    observers := by
      obtain ⟨earlier, observers, keeps⟩ := h.observers
      refine ⟨fun p => if (earlier p).id == o.id then change (earlier p) else earlier p, ?_, ?_⟩
      · rw [observers, List.map_map]
        apply List.map_congr_left
        intro p _
        by_cases own : p.id = o.id
        · simp [own]
        · simp [own]
      · intro p
        dsimp only
        split
        · exact ⟨(marks _).1.trans (keeps p).1, (marks _).2.trans (keeps p).2⟩
        · exact keeps p
    attempted := (attempt o.id).trans h.attempted
    others id other := (attempt id).trans (h.others id other)
    evaluated := evaluated.trans h.evaluated
    completions := by
      intro id
      have split : d.completions id = added.countP (Entry.completes id) + c.completions id := by
        simp only [d, Bindings.completions, List.countP_append]
      rw [split, Nat.add_comm, uncounted]
      exact Nat.add_le_add_left (counted id) _
    placed := h.placed.of_eq (Nat.le_refl _) rfl rfl
    versions source there := (versions source).trans (h.versions source there)
    current r read := (versions r.source).trans (h.current r read)
    subscribed s subscribed := by
      obtain ⟨there, watches⟩ := h.subscribed s subscribed
      exact ⟨there.mono (Nat.le_refl _), (watchers s.source).symm ▸ watches⟩
    kept source entry watches other :=
      (watchers source).symm ▸ h.kept source entry watches other
    known source entry watches := h.known source entry (watchers source ▸ watches) }

theorem Wiring.evaluates {b : Bindings ν} (h : b.Wiring) (doc : Document) (env : Environment)
    {o : Observer ν} (mem : o ∈ b.observers) :
    let l := b.lookUp doc env.accessors o
    Evaluates b o (b.evaluateObserver doc env o).1 l.subscriptions l.readings := by
  obtain ⟨change, added, same, marks, silent, counted⟩ := b.evaluateObserver_eq doc env o
  rw [same]
  exact (evaluates_rebind h doc env.accessors mem).finish
    (completions_rebind h.placed doc env.accessors o) marks silent counted

theorem evaluates_evaluateObserver {b : Bindings ν} (h : b.WellFormed) (doc : Document)
    (env : Environment) {o : Observer ν} (mem : o ∈ b.observers) :
    let l := b.lookUp doc env.accessors o
    Evaluates b o (b.evaluateObserver doc env o).1 l.subscriptions l.readings :=
  h.wiring.evaluates doc env mem

section
variable {b c : Bindings ν} {o : Observer ν} {subscriptions : List Subscription}
  {readings : List Reading}

/-- An observer that is there afterwards was there before, the same up to its evaluations. -/
theorem Evaluates.before (evaluates : Evaluates b o c subscriptions readings) {p : Observer ν}
    (mem : p ∈ c.observers) :
    ∃ q ∈ b.observers, p.asCreated = q.asCreated ∧
      (q.id = o.id ∧ p.subscriptions = subscriptions ∨ q.id ≠ o.id ∧ p = q) := by
  obtain ⟨change, observers, keeps⟩ := evaluates.observers
  rw [observers] at mem
  obtain ⟨q, there, rfl⟩ := List.mem_map.mp mem
  refine ⟨q, there, ?_⟩
  by_cases own : q.id = o.id
  · rw [if_pos (beq_iff_eq.mpr own)]
    exact ⟨(keeps q).1, .inl ⟨own, (keeps q).2⟩⟩
  · rw [if_neg (fun same => own (beq_iff_eq.mp same))]
    exact ⟨rfl, .inr ⟨own, rfl⟩⟩

theorem Evaluates.map_asCreated (evaluates : Evaluates b o c subscriptions readings) :
    c.observers.map Observer.asCreated = b.observers.map Observer.asCreated := by
  obtain ⟨change, observers, keeps⟩ := evaluates.observers
  rw [observers, List.map_map]
  apply List.map_congr_left
  intro p _
  by_cases own : p.id = o.id
  · simp [own, (keeps p).1]
  · simp [own]

theorem WellFormed.evaluate (h : b.WellFormed) (mem : o ∈ b.observers)
    (evaluates : Evaluates b o c subscriptions readings) : c.WellFormed where
  placed := evaluates.placed
  ascending := by
    have created : (b.observers.map Observer.asCreated).Pairwise
        fun o o' => o.id.number < o'.id.number := List.pairwise_map.mpr h.ascending
    rw [← evaluates.map_asCreated] at created
    exact (List.pairwise_map (f := Observer.asCreated)
      (R := fun o o' : Observer ν => o.id.number < o'.id.number)).mp created
  created p there := by
    obtain ⟨q, before, same, -⟩ := evaluates.before there
    rw [evaluates.nextObserver, show p.id = q.id from congrArg (·.id) same]
    exact h.created q before
  listed p there := by
    obtain ⟨q, before, same, -⟩ := evaluates.before there
    rw [show p.id = q.id from congrArg (·.id) same,
      show p.element = q.element from congrArg (·.element) same,
      observersOf_congr evaluates.declared]
    exact h.listed q before
  owned el id mem := by
    rw [observersOf_congr evaluates.declared] at mem
    obtain ⟨created, own⟩ := h.owned el id mem
    rw [evaluates.nextObserver]
    refine ⟨created, fun p there known => ?_⟩
    obtain ⟨q, before, same, -⟩ := evaluates.before there
    have sameId : p.id = q.id := congrArg (·.id) same
    exact (congrArg (·.element) same : p.element = q.element).trans
      (own q before (sameId.symm.trans known))
  nodup := evaluates.pending ▸ h.nodup
  waiting := evaluates.pending ▸ evaluates.nextObserver ▸ h.waiting
  watching source entry watches := by
    rw [evaluates.nextObserver]
    rcases evaluates.known source entry watches with before | ⟨own, -, high⟩
    · obtain ⟨number, watcher⟩ := h.watching source entry before
      exact ⟨Nat.lt_of_lt_of_le number evaluates.numbers, watcher⟩
    · exact ⟨high, own ▸ h.created o mem⟩
  separate source source' entry watches entry' watches' number := by
    rcases evaluates.known source entry watches with before | ⟨own, low, -⟩ <;>
      rcases evaluates.known source' entry' watches' with before' | ⟨own', low', -⟩
    · exact h.separate source source' entry before entry' before' number
    · exact absurd (number ▸ (h.watching source entry before).1) (Nat.not_lt.mpr low')
    · exact absurd (number ▸ (h.watching source' entry' before').1) (Nat.not_lt.mpr low)
    · exact own.trans own'.symm
  wired p there s subscribed := by
    obtain ⟨q, before, same, ⟨own, new⟩ | ⟨other, rfl⟩⟩ := evaluates.before there
    · rw [show p.id = o.id from (congrArg (·.id) same).trans own]
      exact evaluates.subscribed s (new ▸ subscribed)
    · obtain ⟨has, watches⟩ := h.wired p before s subscribed
      exact ⟨has.mono evaluates.size, evaluates.kept s.source _ watches other⟩
  attempts p there read attempt := by
    obtain ⟨q, before, same, ⟨own, new⟩ | ⟨other, rfl⟩⟩ := evaluates.before there
    · rw [show p.id = o.id from (congrArg (·.id) same).trans own, evaluates.attempted] at attempt
      obtain rfl : readings = read := by simpa using attempt
      exact new ▸ evaluates.sources
    · exact h.attempts p before read (evaluates.others p.id other ▸ attempt)
  unattempted id new := by
    rw [evaluates.nextObserver] at new
    have other : id ≠ o.id := fun same => Nat.not_lt.mpr new (same ▸ h.created o mem)
    exact (evaluates.others id other).trans (h.unattempted id new)

/-- The observer that was evaluated is owed nothing any more. -/
theorem UpToDate.evaluate {owed : List ObserverId} (upToDate : b.UpToDate (o.id :: owed))
    (h : b.WellFormed) (evaluates : Evaluates b o c subscriptions readings) :
    c.UpToDate owed := by
  intro p there
  obtain ⟨q, before, same, ⟨own, new⟩ | ⟨other, rfl⟩⟩ := evaluates.before there
  · rw [show p.id = o.id from (congrArg (·.id) same).trans own]
    exact .inr (.inr (.inr ⟨readings, evaluates.attempted, evaluates.current⟩))
  · rcases upToDate p before with waits | owed | current
    · exact .inl (evaluates.pending.symm ▸ waits)
    · exact .inr (.inl ((List.mem_cons.mp owed).resolve_left other))
    · refine .inr (.inr (current.mono (evaluates.others p.id other) ?_))
      exact fun read looked r mem =>
        evaluates.versions r.source (h.watches_of_read before looked mem).1

end

end Bindings

end FormDependencies
