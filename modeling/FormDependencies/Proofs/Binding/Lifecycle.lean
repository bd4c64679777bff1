import FormDependencies.Proofs.Binding.Invariant

/-!
Creation and destruction of observers. An observer that is destroyed takes nothing but its own
subscriptions with it, and a new one is owed an evaluation.
-/

namespace FormDependencies.Bindings
variable {ν : Type}

/-! ## The end of subscriptions -/

/-- Who ends a subscription touches slots and epochs only. -/
theorem unsubscribe_eq (b : Bindings ν) (s : Subscription) :
    ∃ slots epochs, b.unsubscribe s = { b with slots, epochs } ∧ slots.size = b.slots.size := by
  obtain ⟨source, number⟩ := s
  cases source with
  | epoch name => exact ⟨b.slots, _, rfl, rfl⟩
  | slot id => exact ⟨_, b.epochs, rfl, Array.size_modify ..⟩

theorem unsubscribeAll_eq (b : Bindings ν) (ended : List Subscription) :
    ∃ slots epochs, b.unsubscribeAll ended = { b with slots, epochs } ∧
      slots.size = b.slots.size := by
  induction ended generalizing b with
  | nil => exact ⟨b.slots, b.epochs, rfl, rfl⟩
  | cons s rest ih =>
    obtain ⟨slots, epochs, same, size⟩ := b.unsubscribe_eq s
    obtain ⟨slots', epochs', same', size'⟩ := ih (b.unsubscribe s)
    refine ⟨slots', epochs', same'.trans (by rw [same]), size'.trans ?_⟩
    rw [same]
    exact size

theorem version_unsubscribeAll (b : Bindings ν) (ended : List Subscription) (source : Source) :
    (b.unsubscribeAll ended).version source = b.version source :=
  foldl_keeps (·.version source) unsubscribe (fun b s => b.version_unsubscribe s source) ended b

theorem watchers_unsubscribeAll (b : Bindings ν) (ended : List Subscription) (source : Source) :
    (b.unsubscribeAll ended).watchers source = (b.watchers source).filter fun entry =>
      ended.all fun s => s.source != source || s.number != entry.1 := by
  induction ended generalizing b with
  | nil => exact (List.filter_eq_self.mpr fun _ _ => rfl).symm
  | cons s rest ih =>
    have first : (b.unsubscribe s).watchers source =
        (b.watchers source).filter fun entry => s.source != source || s.number != entry.1 := by
      rw [watchers_unsubscribe]
      by_cases same : source = s.source
      · subst same
        simp [bne_comm]
      · rw [if_neg same]
        refine (List.filter_eq_self.mpr fun entry _ => ?_).symm
        simp [Ne.symm same]
    change ((b.unsubscribe s).unsubscribeAll rest).watchers source = _
    rw [ih, first, List.filter_filter]
    simp only [List.all_cons, Bool.and_comm]

theorem mem_watchers_unsubscribeAll {b : Bindings ν} {ended : List Subscription} {source : Source}
    {entry : Nat × ObserverId} :
    entry ∈ (b.unsubscribeAll ended).watchers source ↔
      entry ∈ b.watchers source ∧ ∀ s ∈ ended, s.source = source → s.number ≠ entry.1 := by
  simp only [watchers_unsubscribeAll, List.mem_filter, List.all_eq_true, Bool.or_eq_true,
    bne_iff_ne, ne_eq, Decidable.imp_iff_not_or]

/-! ## Destruction -/

structure Destroys (b c : Bindings ν) (ids : List ObserverId) : Prop where
  observers : c.observers = b.observers.filter fun o => !ids.contains o.id
  turn : c.turn = b.turn.filter fun entry => !ids.contains entry.1
  references : c.references = b.references
  groups : c.groups = b.groups
  pending : c.pending = b.pending
  nextObserver : c.nextObserver = b.nextObserver
  nextSubscription : c.nextSubscription = b.nextSubscription
  journal : c.journal = b.journal
  size : c.slots.size = b.slots.size
  versions : ∀ source, c.version source = b.version source
  watchers : ∀ source entry, entry ∈ c.watchers source ↔ entry ∈ b.watchers source ∧
    ∀ o ∈ b.observers, o.id ∈ ids → ∀ s ∈ o.subscriptions, s.source = source → s.number ≠ entry.1

theorem destroys_destroyEach (b : Bindings ν) (ids : List ObserverId) :
    Destroys b (b.destroyEach ids) ids := by
  let ended := (b.observers.filter fun o => ids.contains o.id).flatMap (·.subscriptions)
  obtain ⟨slots, epochs, same, size⟩ := b.unsubscribeAll_eq ended
  have versions : ∀ source, (b.destroyEach ids).version source = b.version source := fun source =>
    (version_congr rfl rfl source).trans (b.version_unsubscribeAll ended source)
  have watchers : ∀ source, (b.destroyEach ids).watchers source =
      (b.unsubscribeAll ended).watchers source := watchers_congr rfl rfl
  have eq : b.destroyEach ids =
      { b with
        slots, epochs
        observers := b.observers.filter fun o => !ids.contains o.id
        turn := b.turn.filter fun entry => !ids.contains entry.1 } := by
    change { b.unsubscribeAll ended with
        observers := (b.unsubscribeAll ended).observers.filter fun o => !ids.contains o.id
        turn := (b.unsubscribeAll ended).turn.filter fun entry => !ids.contains entry.1 } = _
    rw [same]
  have listed : ∀ source entry, entry ∈ (b.destroyEach ids).watchers source ↔
      entry ∈ b.watchers source ∧ ∀ o ∈ b.observers, o.id ∈ ids →
        ∀ s ∈ o.subscriptions, s.source = source → s.number ≠ entry.1 := by
    intro source entry
    rw [watchers, mem_watchers_unsubscribeAll]
    simp only [ended, List.mem_flatMap, List.mem_filter, List.contains_iff_mem]
    apply and_congr_right
    intro _
    constructor
    · intro h o mem gone s subscribed
      exact h s ⟨o, ⟨mem, gone⟩, subscribed⟩
    · rintro h s ⟨o, ⟨mem, gone⟩, subscribed⟩
      exact h o mem gone s subscribed
  rw [eq] at versions listed ⊢
  exact
  { observers := rfl
    turn := rfl
    references := rfl
    groups := rfl
    pending := rfl
    nextObserver := rfl
    nextSubscription := rfl
    journal := rfl
    size := size
    versions := versions
    watchers := listed }

theorem declared?_destroyElement (b : Bindings ν) (el other : ElementId) :
    (b.destroyElement el).1.declared? other = if other = el then none else b.declared? other := by
  unfold destroyElement
  cases found : b.declared? el with
  | none =>
    by_cases same : other = el
    · rw [if_pos same, same]
      exact found
    · rw [if_neg same]
  | some entry =>
    have declared : (b.destroyEach entry.ids).declared = b.declared := by
      obtain ⟨slots, epochs, same, -⟩ := b.unsubscribeAll_eq
        ((b.observers.filter fun o => entry.ids.contains o.id).flatMap (·.subscriptions))
      simp only [destroyEach, same]
    simp only [declared?, declared, List.find?_filter]
    by_cases same : other = el
    · rw [if_pos same]
      exact List.find?_eq_none.mpr fun entry _ => by simp [same]
    · rw [if_neg same]
      congr 1
      funext entry
      by_cases own : entry.element = other <;> simp [own, same]

theorem Destroys.none (b : Bindings ν) : Destroys b b [] where
  observers := (List.filter_eq_self.mpr fun _ _ => rfl).symm
  turn := (List.filter_eq_self.mpr fun _ _ => rfl).symm
  references := rfl
  groups := rfl
  pending := rfl
  nextObserver := rfl
  nextSubscription := rfl
  journal := rfl
  size := rfl
  versions _ := rfl
  watchers := by simp

theorem Destroys.declare {b c : Bindings ν} {ids : List ObserverId} (h : Destroys b c ids)
    (declared : List ElementObservers) : Destroys b { c with declared } ids :=
  { h with
    versions source := (version_congr rfl rfl source).trans (h.versions source)
    watchers source entry := by
      have same : ({ c with declared } : Bindings ν).watchers source = c.watchers source :=
        watchers_congr rfl rfl source
      exact same ▸ h.watchers source entry }

theorem destroys_destroyElement (b : Bindings ν) (el : ElementId) :
    Destroys b (b.destroyElement el).1 (b.observersOf el) := by
  unfold destroyElement observersOf
  cases b.declared? el with
  | none => exact .none b
  | some entry => exact (b.destroys_destroyEach entry.ids).declare _

section
variable {b c : Bindings ν} {ids : List ObserverId}

theorem Destroys.mem_observers (h : Destroys b c ids) {o : Observer ν} :
    o ∈ c.observers ↔ o ∈ b.observers ∧ o.id ∉ ids := by
  simp [h.observers]

/-- The subscriptions of the others do not end. -/
theorem WellFormed.destroy (h : b.WellFormed) (destroys : Destroys b c ids)
    (listed : ∀ o ∈ c.observers, o.id ∈ c.observersOf o.element)
    (fewer : ∀ el, c.observersOf el ⊆ b.observersOf el) : c.WellFormed where
  placed := h.placed.of_eq (Nat.le_of_eq destroys.size.symm) destroys.references destroys.groups
  ascending := destroys.observers ▸ h.ascending.filter _
  created o mem := destroys.nextObserver ▸ h.created o (destroys.mem_observers.mp mem).1
  listed := listed
  owned el id mem := by
    obtain ⟨created, own⟩ := h.owned el id (fewer el mem)
    rw [destroys.nextObserver]
    exact ⟨created, fun o there => own o (destroys.mem_observers.mp there).1⟩
  nodup := destroys.pending ▸ h.nodup
  waiting := destroys.pending ▸ destroys.nextObserver ▸ h.waiting
  watching source entry mem := by
    rw [destroys.nextObserver, destroys.nextSubscription]
    exact h.watching source entry ((destroys.watchers source entry).mp mem).1
  separate source source' entry mem entry' mem' :=
    h.separate source source' entry ((destroys.watchers source entry).mp mem).1 entry'
      ((destroys.watchers source' entry').mp mem').1
  wired o mem s subscribed := by
    obtain ⟨there, remains⟩ := destroys.mem_observers.mp mem
    obtain ⟨has, watches⟩ := h.wired o there s subscribed
    refine ⟨has.mono (Nat.le_of_eq destroys.size.symm),
      (destroys.watchers s.source _).mpr ⟨watches, ?_⟩⟩
    intro o' mem' gone s' subscribed' same number
    have watches' := (h.wired o' mem' s' subscribed').2
    have same : o'.id = o.id := h.separate _ _ _ watches' _ watches number
    exact remains (same ▸ gone)
  attempts o mem readings attempt := by
    apply h.attempts o (destroys.mem_observers.mp mem).1 readings
    unfold lastAttempt? at attempt ⊢
    exact destroys.journal ▸ attempt
  unattempted id new := by
    have nothing := h.unattempted id (destroys.nextObserver ▸ new)
    unfold lastAttempt? at nothing ⊢
    exact destroys.journal.symm ▸ nothing

theorem UpToDate.destroy {owed : List ObserverId} (upToDate : b.UpToDate owed)
    (destroys : Destroys b c ids) : c.UpToDate owed := by
  intro o mem
  have same : c.lastAttempt? o.id = b.lastAttempt? o.id := by
    unfold lastAttempt?
    rw [destroys.journal]
  refine (upToDate o (destroys.mem_observers.mp mem).1).imp (fun waits => ?_) fun rest =>
    rest.imp_right fun current => current.mono same fun _ _ r _ => destroys.versions r.source
  exact destroys.pending.symm ▸ waits

end

/-- With the observers that its entry lists, all observers of an element are gone. -/
theorem element_ne_of_destroyElement {b : Bindings ν} (h : b.WellFormed) {el : ElementId}
    {o : Observer ν} (mem : o ∈ (b.destroyElement el).1.observers) : o.element ≠ el := by
  rintro rfl
  obtain ⟨there, remains⟩ := (b.destroys_destroyElement o.element).mem_observers.mp mem
  exact remains (h.listed o there)

theorem WellFormed.destroyElement {b : Bindings ν} (h : b.WellFormed) (el : ElementId) :
    (b.destroyElement el).1.WellFormed := by
  refine h.destroy (b.destroys_destroyElement el) (fun o mem => ?_) fun other id mem => ?_
  · have listed := h.listed o ((b.destroys_destroyElement el).mem_observers.mp mem).1
    unfold observersOf at listed ⊢
    rwa [declared?_destroyElement, if_neg (element_ne_of_destroyElement h mem)]
  · unfold observersOf at mem ⊢
    rw [declared?_destroyElement] at mem
    split at mem
    · exact absurd mem List.not_mem_nil
    · exact mem

theorem sameHistory_destroyElement (b : Bindings ν) (el : ElementId) :
    SameHistory b (b.destroyElement el).1 :=
  .of_eq (b.destroys_destroyElement el).journal

/-- What the destruction of the observers of one detached element keeps, their destruction for all
of them keeps. -/
theorem actualizeObservers_keeps {doc : Document} (P : Bindings ν → Prop)
    (destroy : ∀ b el, doc.isAttached el = false → P b → P (b.destroyElement el).1)
    (log : ∀ b count live, P b → P (b.log (.observersDestroyed count live))) {b : Bindings ν}
    (h : P b) : P (b.actualizeObservers doc).1 := by
  have each : ∀ (els : List ElementId) (b : Bindings ν),
      (∀ el ∈ els, doc.isAttached el = false) → P b → P (b.destroyElements els).1 := by
    intro els
    induction els with
    | nil => exact fun b _ h => h
    | cons el rest ih =>
      intro b detached h
      exact ih _ (fun el mem => detached el (List.mem_cons_of_mem _ mem))
        (destroy b el (detached el List.mem_cons_self) h)
  have all := each ((b.declared.map (·.element)).filter fun el => !doc.isAttached el) b
    (fun el mem => by simpa using (List.mem_filter.mp mem).2) h
  unfold actualizeObservers
  dsimp only
  split
  · exact all
  · exact log _ _ _ all

/-! ## Creation -/

/-- What an element that is initialised gets: it keeps what it has, or all of it is destroyed and
either nothing or the observers of all declarations come in its place. -/
theorem init_cases (b : Bindings ν) (doc : Document) (el : ElementId) (actions : ActionTable ν)
    (config : Config) :
    let destroyed := (b.destroyElement el).1
    let signature := doc.declarationSignature el config
    ((∃ entry, b.declared? el = some entry ∧ entry.signature = signature) ∧
        b.init doc el actions config = (b, .ok [])) ∨
      (∀ entry, b.declared? el = some entry → entry.signature ≠ signature) ∧
        ((∃ error, b.init doc el actions config = (destroyed, .error error) ∧
            ∀ target prepared, targetOf doc el config = .ok target →
              prepareEach actions (doc.declarations el config) ≠ .ok prepared) ∨
          ∃ target prepared, targetOf doc el config = .ok target ∧
            prepareEach actions (doc.declarations el config) = .ok prepared ∧
            let added := observersFrom doc el config target destroyed.nextObserver prepared
            b.init doc el actions config =
              (destroyed.addObservers el signature (b.destroyElement el).2 added,
                .ok (added.map (·.id)))) := by
  dsimp only
  unfold init
  by_cases same : (b.declared? el).any fun entry =>
      entry.signature == doc.declarationSignature el config
  · refine .inl ⟨?_, by rw [if_pos same]⟩
    simpa [Option.any_eq_true] using same
  · refine .inr ⟨fun entry found eq => same (by simp [found, eq]), ?_⟩
    rw [if_neg same]
    dsimp only
    cases targetOf doc el config with
    | error e => exact .inl ⟨e, rfl, fun _ _ read => nomatch read⟩
    | ok target =>
      dsimp only
      cases prepareEach actions (doc.declarations el config) with
      | error e => exact .inl ⟨e, rfl, fun _ _ _ read => nomatch read⟩
      | ok prepared => exact .inr ⟨target, prepared, rfl, rfl, rfl⟩

/-- Declarations that are prepared are all prepared, in order. -/
theorem prepareEach_ok {actions : ActionTable ν} {declarations : List Declaration}
    {prepared : List (Declaration × Query × Action ν)}
    (h : prepareEach actions declarations = .ok prepared) :
    prepared.map (·.1) = declarations ∧ ∀ p ∈ prepared,
      Query.parse p.1.query = .ok p.2.1 ∧ actions.get p.1.action = .ok p.2.2 := by
  induction declarations generalizing prepared with
  | nil =>
    obtain rfl : [] = prepared := Except.ok.inj h
    exact ⟨rfl, fun _ none => absurd none List.not_mem_nil⟩
  | cons d rest ih =>
    unfold prepareEach prepare at h
    cases read : Query.parse d.query with
    | error e => simp [read, bind, Except.bind] at h
    | ok query =>
      cases found : actions.get d.action with
      | error e => simp [read, found, bind, Except.bind] at h
      | ok action =>
        cases others : prepareEach actions rest with
        | error e => simp [read, found, others, bind, Except.bind, pure, Except.pure] at h
        | ok tail =>
          simp only [read, found, others, bind, Except.bind, pure, Except.pure,
            Except.ok.injEq] at h
          obtain ⟨same, each⟩ := ih others
          refine ⟨by rw [← h, List.map_cons, same], fun p mem => ?_⟩
          rw [← h] at mem
          rcases List.mem_cons.mp mem with rfl | mem
          · exact ⟨read, found⟩
          · exact each p mem

section
variable (doc : Document) (el : ElementId) (config : Config) (target : Option Selector)

theorem number_observersFrom (next : Nat) (prepared : List (Declaration × Query × Action ν)) :
    (observersFrom doc el config target next prepared).map (·.id.number) =
      List.range' next (observersFrom doc el config target next prepared).length := by
  induction prepared generalizing next with
  | nil => rfl
  | cons first rest ih => simp [observersFrom, observerOf, ih, List.range'_succ]

/-- A new observer is that of one of the declarations. -/
theorem eq_observerOf_of_mem {next : Nat} {prepared : List (Declaration × Query × Action ν)}
    {o : Observer ν} (mem : o ∈ observersFrom doc el config target next prepared) :
    ∃ p ∈ prepared, o = observerOf doc el config target o.id p := by
  induction prepared generalizing next with
  | nil => exact absurd mem List.not_mem_nil
  | cons first rest ih =>
    rcases List.mem_cons.mp mem with rfl | mem
    · exact ⟨first, List.mem_cons_self, rfl⟩
    · obtain ⟨p, there, same⟩ := ih mem
      exact ⟨p, List.mem_cons_of_mem _ there, same⟩

theorem element_of_mem_observersFrom {next : Nat}
    {prepared : List (Declaration × Query × Action ν)} {o : Observer ν}
    (mem : o ∈ observersFrom doc el config target next prepared) : o.element = el := by
  obtain ⟨p, -, same⟩ := eq_observerOf_of_mem doc el config target mem
  rw [same]
  rfl

end

/-- The entry of an element takes its place without touching those of the others. -/
theorem find?_placeDeclared (added : ElementObservers) (entries : List ElementObservers)
    (el : ElementId) :
    (placeDeclared added entries).find? (fun entry => entry.element == el) =
      if added.element = el then some added
      else entries.find? fun entry => entry.element == el := by
  induction entries with
  | nil => by_cases own : added.element = el <;> simp [placeDeclared, own]
  | cons entry rest ih =>
    unfold placeDeclared
    split
    · next same =>
      by_cases own : added.element = el
      · simp [own]
      · simp [own, show entry.element ≠ el from same ▸ own]
    · split
      · by_cases own : added.element = el <;> simp [own]
      · next different _ =>
        rw [List.find?_cons, List.find?_cons, ih]
        by_cases own : added.element = el
        · subst own
          simp [beq_false_of_ne different]
        · simp [own]

theorem declared?_addObservers (b : Bindings ν) (el : ElementId) (signature : String)
    (replaced : Nat) (added : List (Observer ν)) (other : ElementId) :
    (b.addObservers el signature replaced added).declared? other =
      if el = other then some ⟨el, signature, added.map (·.id)⟩ else b.declared? other := by
  unfold declared? addObservers
  exact find?_placeDeclared ..

theorem observersOf_addObservers (b : Bindings ν) (el : ElementId) (signature : String)
    (replaced : Nat) (added : List (Observer ν)) (other : ElementId) :
    (b.addObservers el signature replaced added).observersOf other =
      if el = other then added.map (·.id) else b.observersOf other := by
  unfold observersOf
  rw [declared?_addObservers]
  split <;> rfl

section
variable {b : Bindings ν} {el : ElementId} {added : List (Observer ν)}

theorem number_of_mem_addObservers
    (numbers : added.map (·.id.number) = List.range' b.nextObserver added.length)
    {id : ObserverId} (mem : id ∈ added.map (·.id)) :
    b.nextObserver ≤ id.number ∧ id.number < b.nextObserver + added.length := by
  obtain ⟨o, there, rfl⟩ := List.mem_map.mp mem
  exact List.mem_range'_1.mp (numbers ▸ List.mem_map_of_mem there)

/-- New observers of an element that has none. -/
theorem WellFormed.addObservers (h : b.WellFormed) (others : ∀ o ∈ b.observers, o.element ≠ el)
    (signature : String) (replaced : Nat)
    (own : ∀ o ∈ added, o.element = el ∧ o.subscriptions = [])
    (numbers : added.map (·.id.number) = List.range' b.nextObserver added.length) :
    (b.addObservers el signature replaced added).WellFormed := by
  have logged := h.announce
    (.log rfl : Announces b (b.log (.observersCreated el added.length replaced)))
  have new : ∀ o ∈ added, b.nextObserver ≤ o.id.number ∧
      o.id.number < b.nextObserver + added.length := fun o mem =>
    number_of_mem_addObservers numbers (List.mem_map_of_mem mem)
  have unattempted := logged.unattempted
  have watchers : ∀ source, (b.addObservers el signature replaced added).watchers source =
      b.watchers source := watchers_congr rfl rfl
  refine ⟨⟨h.placed.ascending, h.placed.references, h.placed.groups⟩, ?_, fun o mem => ?_,
    fun o mem => ?_, fun other id mem => ?_, h.nodup,
    fun id mem => Nat.lt_add_right _ (h.waiting id mem), fun source entry mem => ?_,
    fun source source' entry mem entry' mem' => ?_, fun o mem s subscribed => ?_,
    fun o mem readings attempt => ?_, fun id fresh => ?_⟩
  · refine List.pairwise_append.mpr ⟨h.ascending, ?_, fun o mem o' mem' => ?_⟩
    · exact List.pairwise_map.mp (numbers ▸ List.pairwise_lt_range')
    · exact Nat.lt_of_lt_of_le (h.created o mem) (new o' mem').1
  · rcases List.mem_append.mp mem with mem | mem
    · exact Nat.lt_add_right _ (h.created o mem)
    · exact (new o mem).2
  · rw [observersOf_addObservers]
    rcases List.mem_append.mp mem with mem | mem
    · rw [if_neg (Ne.symm (others o mem))]
      exact h.listed o mem
    · rw [if_pos (own o mem).1.symm]
      exact List.mem_map_of_mem mem
  · rw [observersOf_addObservers] at mem
    split at mem
    · next same =>
      refine ⟨(number_of_mem_addObservers numbers mem).2, fun o there known => ?_⟩
      rcases List.mem_append.mp there with there | there
      · have low := (number_of_mem_addObservers numbers mem).1
        exact absurd (h.created o there) (Nat.not_lt.mpr (known ▸ low))
      · exact (own o there).1.trans same
    · obtain ⟨created, mine⟩ := h.owned other id mem
      refine ⟨Nat.lt_add_right _ created, fun o there known => ?_⟩
      rcases List.mem_append.mp there with there | there
      · exact mine o there known
      · exact absurd created (Nat.not_lt.mpr (known ▸ (new o there).1))
  · rw [watchers] at mem
    obtain ⟨number, watcher⟩ := h.watching source entry mem
    exact ⟨number, Nat.lt_add_right _ watcher⟩
  · rw [watchers] at mem mem'
    exact h.separate source source' entry mem entry' mem'
  · rcases List.mem_append.mp mem with mem | mem
    · obtain ⟨there, watches⟩ := h.wired o mem s subscribed
      exact ⟨there.mono (Nat.le_refl _), watchers s.source ▸ watches⟩
    · rw [(own o mem).2] at subscribed
      exact absurd subscribed List.not_mem_nil
  · rcases List.mem_append.mp mem with mem | mem
    · exact logged.attempts o mem readings attempt
    · have none : Option.some _ = none := attempt.symm.trans (unattempted o.id (new o mem).1)
      exact nomatch none
  · exact unattempted id (Nat.le_trans (Nat.le_add_right _ _) fresh)

theorem UpToDate.addObservers {owed : List ObserverId} (upToDate : b.UpToDate owed)
    (h : b.WellFormed) (signature : String) (replaced : Nat) :
    (b.addObservers el signature replaced added).UpToDate (added.map (·.id) ++ owed) := by
  have logged := upToDate.announce h
    (.log rfl : Announces b (b.log (.observersCreated el added.length replaced)))
  intro o mem
  rcases List.mem_append.mp mem with mem | mem
  · apply (logged o mem).imp_right
    intro rest
    apply rest.imp (List.mem_append_right _)
    intro current
    exact current.mono rfl fun _ _ r _ => version_congr rfl rfl r.source
  · exact .inr (.inl (List.mem_append_left _ (List.mem_map_of_mem mem)))

end

end FormDependencies.Bindings
