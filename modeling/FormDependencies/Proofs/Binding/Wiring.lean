import FormDependencies.Proofs.Binding.Uses

/-!
What stays in order whatever references, groups and observers are used for: the tables of the
observers, the queue, and the numbers of subscriptions. So an observer that ends its subscriptions
ends none of another observer.
-/

namespace FormDependencies

def Use.issued {ν : Type} : Use ν → Bindings ν → List ObserverId
  | .observers op _, b => op.issued b
  | _, _ => []

namespace Bindings
variable {ν : Type}

def issuedFrom (b : Bindings ν) : List (Use ν) → List ObserverId
  | [] => []
  | next :: rest => next.issued b ++ (next.apply b).issuedFrom rest

def issued (uses : List (Use ν)) : List ObserverId := empty.issuedFrom uses

/-! ## What calls nobody in vain -/

theorem Announces.openEpoch (b : Bindings ν) (name : String) : Announces b (b.openEpoch name) := by
  have keeps : ∀ {β : Type} (view : Bindings ν → β),
      (∀ b epochs, view { b with epochs } = view b) → view (b.openEpoch name) = view b :=
    fun view epochs => Lookup.Faithful.openEpoch_keeps view epochs b name
  have slots := keeps (·.slots) fun _ _ => rfl
  have pending := keeps (·.pending) fun _ _ => rfl
  have opened : ∀ source, (b.openEpoch name).watchers source = b.watchers source ∧
      (b.openEpoch name).version source = b.version source := by
    intro source
    cases source with
    | epoch other =>
      simp only [Bindings.watchers, version, epoch?_openEpoch]
      split
      · next new => simp [new.2]
      · exact ⟨rfl, rfl⟩
    | slot id =>
      have same : (b.openEpoch name).slot id = b.slot id := by simp only [slot, slots]
      simp only [Bindings.watchers, version, same, and_self]
  exact
  { observers := keeps (·.observers) fun _ _ => rfl
    declared := keeps (·.declared) fun _ _ => rfl
    turn := keeps (·.turn) fun _ _ => rfl
    nextObserver := keeps (·.nextObserver) fun _ _ => rfl
    nextSubscription := keeps (·.nextSubscription) fun _ _ => rfl
    history := .of_eq (keeps (·.journal) fun _ _ => rfl)
    size := Nat.le_of_eq (congrArg Array.size slots.symm)
    watchers source := (opened source).1
    versions source _ := .inl (opened source).2
    waiting := pending ▸ List.prefix_rfl
    nodup h := pending ▸ h
    known _ mem := .inl (pending ▸ mem)
    placed h := h.of_eq (Nat.le_of_eq (congrArg Array.size slots.symm))
      (keeps (·.references) fun _ _ => rfl) (keeps (·.groups) fun _ _ => rfl) }

theorem Announces.operation (b : Bindings ν) (doc : Document) (op : ReferenceOperation) :
    Announces b (op.apply doc b) := by
  cases op with
  | register accessors config el => exact .register b doc accessors config el
  | actualize => exact .actualizeReferences b doc
  | changed accessors target => exact .referencesChanged b doc accessors target

/-- What the host does with a slot does not concern the observers. -/
theorem watchers_watch (b : Bindings ν) (id : SlotId) (note : Value → ν) (source : Source) :
    (b.subscribeSlot id (.host note)).1.watchers source = b.watchers source := by
  cases source with
  | epoch name => rfl
  | slot other =>
    simp only [watchers, slot_subscribeSlot]
    split
    · simp [Observable.subscribe, Listener.observer?]
    · rfl

/-! ## The tables of the observers -/

theorem Registered.use {b : Bindings ν} {issued : List ObserverId} (h : b.Registered issued)
    (next : Use ν) : (next.apply b).Registered (issued ++ next.issued b) := by
  have retain : ∀ {c : Bindings ν}, Retains b c → c.Registered (issued ++ []) := by
    intro c retains
    rw [List.append_nil]
    exact h.retain retains
  have announce : ∀ {c : Bindings ν}, Announces b c → c.Registered (issued ++ []) :=
    fun announces => retain (.announce announces)
  cases next with
  | references doc op => exact announce (.operation b doc op)
  | resolveGroup doc name scope => exact announce (.resolveGroup b doc name scope)
  | actualizeGroups doc => exact announce (.actualizeGroups b doc)
  | groupsChanged doc target names => exact announce (.groupsChanged b doc target names)
  | observers op own => exact h.apply op
  | openEpoch name => exact announce (.openEpoch b name)
  | watch id note =>
    have placed : b.Placed → (b.subscribeSlot id (.host note)).1.Placed := fun h =>
      h.of_eq (Nat.le_of_eq (Array.size_modify ..).symm) rfl rfl
    exact retain ⟨rfl, rfl, rfl, placed⟩
  | leave s =>
    obtain ⟨slots, epochs, same, size⟩ := b.unsubscribe_eq s
    have placed : b.Placed → ({ b with slots, epochs } : Bindings ν).Placed := fun h =>
      h.of_eq (Nat.le_of_eq size.symm) rfl rfl
    have retains : Retains b (b.unsubscribe s) := by
      rw [same]
      exact ⟨rfl, rfl, rfl, placed⟩
    exact retain retains

theorem Registered.uses {b : Bindings ν} {issued : List ObserverId} (h : b.Registered issued)
    (uses : List (Use ν)) : (b.runFrom uses).Registered (issued ++ b.issuedFrom uses) := by
  induction uses generalizing b issued with
  | nil =>
    rw [issuedFrom, List.append_nil]
    exact h
  | cons next rest ih =>
    rw [issuedFrom, ← List.append_assoc]
    exact ih (h.use next)

theorem registered_run (uses : List (Use ν)) : (run uses).Registered (issued uses) :=
  Registered.start.uses uses

/-! ## What is kept besides evaluations -/

/-- A step that evaluates nobody: subscriptions may end, observers may go or come without
subscriptions, and who joins the queue joins it once. -/
structure Narrows (b c : Bindings ν) : Prop where
  placed : b.Placed → c.Placed
  size : b.slots.size ≤ c.slots.size
  numbers : b.nextSubscription ≤ c.nextSubscription
  watchers : ∀ source, c.watchers source ⊆ b.watchers source
  observers : ∀ o ∈ c.observers, o ∈ b.observers ∨ o.subscriptions = []
  nodup : b.pending.Nodup → c.pending.Nodup

namespace Narrows
variable {b c d : Bindings ν}

theorem trans (first : Narrows b c) (second : Narrows c d) : Narrows b d where
  placed h := second.placed (first.placed h)
  size := Nat.le_trans first.size second.size
  numbers := Nat.le_trans first.numbers second.numbers
  watchers source _ watches := first.watchers source (second.watchers source watches)
  observers o mem := by
    rcases second.observers o mem with there | none
    · exact first.observers o there
    · exact .inr none
  nodup distinct := second.nodup (first.nodup distinct)

theorem announce (announces : Announces b c) : Narrows b c where
  placed := announces.placed
  size := announces.size
  numbers := Nat.le_of_eq announces.nextSubscription.symm
  watchers source _ watches := announces.watchers source ▸ watches
  observers _ mem := .inl (announces.observers ▸ mem)
  nodup := announces.nodup

theorem refl (b : Bindings ν) : Narrows b b :=
  ⟨id, Nat.le_refl _, Nat.le_refl _, fun _ _ watches => watches, fun _ mem => .inl mem, id⟩

theorem destroyElement (b : Bindings ν) (el : ElementId) : Narrows b (b.destroyElement el).1 := by
  have destroys := b.destroys_destroyElement el
  have size : b.slots.size ≤ (b.destroyElement el).1.slots.size := Nat.le_of_eq destroys.size.symm
  exact
  { placed := fun h => h.of_eq size destroys.references destroys.groups
    size
    numbers := Nat.le_of_eq destroys.nextSubscription.symm
    watchers := fun source entry watches => ((destroys.watchers source entry).mp watches).1
    observers := fun o mem => .inl (destroys.mem_observers.mp mem).1
    nodup := fun distinct => destroys.pending ▸ distinct }

theorem addObservers (b : Bindings ν) (el : ElementId) (signature : String) (replaced : Nat)
    {added : List (Observer ν)} (new : ∀ o ∈ added, o.subscriptions = []) :
    Narrows b (b.addObservers el signature replaced added) where
  placed h := h.of_eq (Nat.le_refl _) rfl rfl
  size := Nat.le_refl _
  numbers := Nat.le_refl _
  watchers source _ watches := watchers_congr rfl rfl source ▸ watches
  observers o mem := (List.mem_append.mp mem).imp_right (new o)
  nodup distinct := distinct

theorem init (b : Bindings ν) (doc : Document) (el : ElementId) (actions : ActionTable ν)
    (config : Config) : Narrows b (b.init doc el actions config).1 := by
  have destroyed := destroyElement b el
  rcases b.init_cases doc el actions config with
    ⟨-, same⟩ | ⟨-, ⟨error, same, -⟩ | ⟨target, prepared, -, -, same⟩⟩
  · rw [same]
    exact refl b
  · rw [same]
    exact destroyed
  · rw [same]
    refine destroyed.trans (addObservers _ el _ _ fun o mem => ?_)
    rcases eq_observerOf_of_mem doc el config target mem with ⟨p, -, made⟩
    exact congrArg Observer.subscriptions made

theorem watch (b : Bindings ν) (id : SlotId) (note : Value → ν) :
    Narrows b (b.subscribeSlot id (.host note)).1 where
  placed h := h.of_eq (Nat.le_of_eq (Array.size_modify ..).symm) rfl rfl
  size := Nat.le_of_eq (Array.size_modify ..).symm
  numbers := Nat.le_succ _
  watchers source _ watches := b.watchers_watch id note source ▸ watches
  observers _ mem := .inl mem
  nodup distinct := distinct

theorem leave (b : Bindings ν) (s : Subscription) : Narrows b (b.unsubscribe s) := by
  have fewer : ∀ source, (b.unsubscribe s).watchers source ⊆ b.watchers source := by
    intro source entry watches
    rw [watchers_unsubscribe] at watches
    split at watches
    · exact (List.mem_filter.mp watches).1
    · exact watches
  obtain ⟨slots, epochs, same, size⟩ := b.unsubscribe_eq s
  rw [same] at fewer ⊢
  exact ⟨fun h => h.of_eq (Nat.le_of_eq size.symm) rfl rfl, Nat.le_of_eq size.symm,
    Nat.le_refl _, fewer, fun _ mem => .inl mem, id⟩

end Narrows

/-- A property that evaluations keep, and all steps that evaluate nobody. -/
structure Carried (P : Bindings ν → Prop) : Prop where
  narrow : ∀ {b c}, Narrows b c → P b → P c
  evaluate : ∀ {b} doc env {o}, o ∈ b.observers → P b → P (b.evaluateObserver doc env o).1

namespace Carried
variable {P : Bindings ν → Prop} {b c : Bindings ν}

/-- The counts of the turn, the queue, the table of elements and the journal do not matter. -/
theorem of_eq (carried : Carried P) (h : P b) (slots : c.slots = b.slots)
    (epochs : c.epochs = b.epochs) (references : c.references = b.references)
    (groups : c.groups = b.groups) (numbers : c.nextSubscription = b.nextSubscription)
    (observers : c.observers = b.observers) (nodup : b.pending.Nodup → c.pending.Nodup) : P c :=
  carried.narrow
    { placed := fun h => h.of_eq (Nat.le_of_eq (congrArg Array.size slots.symm)) references groups
      size := Nat.le_of_eq (congrArg Array.size slots.symm)
      numbers := Nat.le_of_eq numbers.symm
      watchers := fun source _ watches => watchers_congr slots epochs source ▸ watches
      observers := fun _ mem => .inl (observers ▸ mem)
      nodup } h

theorem record (carried : Carried P) (h : P b) (entry : Entry ν) : P (b.record entry) :=
  carried.of_eq h rfl rfl rfl rfl rfl rfl id

theorem setTurn (carried : Carried P) (h : P b) (id : ObserverId) (count : Nat) :
    P (b.setTurn id count) :=
  carried.of_eq h rfl rfl rfl rfl rfl rfl fun h => h

theorem idle (carried : Carried P) (h : P b) : P { b with pending := [] } :=
  carried.of_eq h rfl rfl rfl rfl rfl rfl fun _ => List.nodup_nil

theorem attempt (carried : Carried P) {doc doc' : Document} {env : Environment} {id : ObserverId}
    (h : P b) (attempted : Attempted b doc env id c doc') : P c := by
  have counted : P (b.countTurn id) := carried.setTurn h id _
  cases attempted with
  | refused => exact carried.record (carried.setTurn h id _) _
  | missing => exact counted
  | detached _ o => exact carried.narrow (.destroyElement _ o.element) counted
  | evaluated _ o found => exact carried.evaluate doc env (mem_of_observer? found).1 counted

theorem apply (carried : Carried P) (h : P b) (op : Operation ν) : P (op.apply b) := by
  cases op with
  | init doc el actions config => exact carried.narrow (.init b doc el actions config) h
  | destroyElement el => exact carried.narrow (.destroyElement b el) h
  | actualize doc =>
    apply actualizeObservers_keeps P _ _ h
    · exact fun c el _ kept => carried.narrow (.destroyElement c el) kept
    · exact fun c count live kept => carried.record kept _
  | queue id => exact carried.narrow (.announce (.queue b id)) h
  | queueWithin doc container => exact carried.narrow (.announce (.queueWithin b doc container)) h
  | queueSelfReaders doc target =>
    exact carried.narrow (.announce (.queueSelfReaders b doc target)) h
  | beginTurn => exact carried.of_eq h rfl rfl rfl rfl rfl rfl id
  | evaluateNow doc env id => exact carried.attempt h (b.attempted_evaluateNow doc env id)
  | flush doc env =>
    apply flushEach_keeps (fun c _ _ => P c) (fun _ _ _ _ _ kept => kept)
    · exact fun c doc id _ d doc' _ attempted kept => carried.attempt kept attempted
    · exact carried.idle h
  | elsewhere change announces => exact carried.narrow (.announce (announces b)) h

theorem use (carried : Carried P) (h : P b) (next : Use ν) : P (next.apply b) := by
  cases next with
  | references doc op => exact carried.narrow (.announce (.operation b doc op)) h
  | resolveGroup doc name scope =>
    exact carried.narrow (.announce (.resolveGroup b doc name scope)) h
  | actualizeGroups doc => exact carried.narrow (.announce (.actualizeGroups b doc)) h
  | groupsChanged doc target names =>
    exact carried.narrow (.announce (.groupsChanged b doc target names)) h
  | observers op own => exact carried.apply h op
  | openEpoch name => exact carried.narrow (.announce (.openEpoch b name)) h
  | watch id note => exact carried.narrow (.watch b id note) h
  | leave s => exact carried.narrow (.leave b s) h

theorem run (carried : Carried P) (start : P empty) (uses : List (Use ν)) : P (run uses) :=
  runFrom_keeps P (fun _ next h => carried.use h next) start uses

end Carried

/-! ## The numbers of subscriptions -/

namespace Wiring
variable {b c : Bindings ν}

theorem start : (empty : Bindings ν).Wiring := WellFormed.start.wiring

theorem narrow (h : b.Wiring) (narrows : Narrows b c) : c.Wiring where
  placed := narrows.placed h.placed
  watching source entry watches :=
    Nat.lt_of_lt_of_le (h.watching source entry (narrows.watchers source watches)) narrows.numbers
  numbered o mem s subscribed := by
    rcases narrows.observers o mem with there | none
    · exact Nat.lt_of_lt_of_le (h.numbered o there s subscribed) narrows.numbers
    · exact absurd (none ▸ subscribed) List.not_mem_nil
  own o mem s subscribed entry watches := by
    rcases narrows.observers o mem with there | none
    · exact h.own o there s subscribed entry (narrows.watchers s.source watches)
    · exact absurd (none ▸ subscribed) List.not_mem_nil

/-- What an evaluation subscribes to gets new numbers. -/
theorem evaluate (h : b.Wiring) {o : Observer ν} {subscriptions : List Subscription}
    {readings : List Reading} (new : ∀ s ∈ subscriptions,
      b.nextSubscription ≤ s.number ∧ s.number < c.nextSubscription)
    (evaluates : Evaluates b o c subscriptions readings) : c.Wiring where
  placed := evaluates.placed
  watching source entry watches := by
    rcases evaluates.known source entry watches with before | ⟨-, -, high⟩
    · exact Nat.lt_of_lt_of_le (h.watching source entry before) evaluates.numbers
    · exact high
  numbered p there s subscribed := by
    obtain ⟨q, before, -, ⟨-, own⟩ | ⟨-, rfl⟩⟩ := evaluates.before there
    · exact (new s (own ▸ subscribed)).2
    · exact Nat.lt_of_lt_of_le (h.numbered p before s subscribed) evaluates.numbers
  own p there s subscribed entry watches number := by
    obtain ⟨q, before, same, ⟨evaluated, own⟩ | ⟨-, rfl⟩⟩ := evaluates.before there
    · rw [show p.id = o.id from (congrArg (·.id) same).trans evaluated]
      rcases evaluates.known s.source entry watches with old | ⟨watcher, -, -⟩
      · have low := h.watching s.source entry old
        rw [number] at low
        exact absurd low (Nat.not_lt.mpr (new s (own ▸ subscribed)).1)
      · exact watcher
    · rcases evaluates.known s.source entry watches with old | ⟨-, low, -⟩
      · exact h.own p before s subscribed entry old number
      · rw [number] at low
        exact absurd (h.numbered p before s subscribed) (Nat.not_lt.mpr low)

theorem evaluateObserver (h : b.Wiring) (doc : Document) (env : Environment) {o : Observer ν}
    (mem : o ∈ b.observers) : (b.evaluateObserver doc env o).1.Wiring := by
  have faithful := lookUp_faithful h.placed doc env.accessors o
  have numbers : (b.evaluateObserver doc env o).1.nextSubscription =
      (b.lookUp doc env.accessors o).bindings.nextSubscription := by
    obtain ⟨change, added, evaluated, -⟩ := b.evaluateObserver_eq doc env o
    obtain ⟨slots, epochs, rebound, -⟩ := b.rebind_eq doc env.accessors o
    rw [evaluated, rebound]
  refine h.evaluate (fun s subscribed => ?_) (h.evaluates doc env mem)
  rcases faithful.subscribed s subscribed with ⟨-, low, high, -⟩
  exact ⟨low, Nat.lt_of_lt_of_eq high numbers.symm⟩

end Wiring

theorem carried_wiring : Carried (Wiring (ν := ν)) where
  narrow narrows h := h.narrow narrows
  evaluate doc env _ mem h := h.evaluateObserver doc env mem

/-- Whatever the bindings are used for, nobody has the subscription of another observer. -/
theorem wiring_run (uses : List (Use ν)) : (run uses).Wiring :=
  carried_wiring.run .start uses

/-! ## The queue and the sources of subscriptions -/

structure Orderly (b : Bindings ν) : Prop where
  placed : b.Placed
  nodup : b.pending.Nodup
  subscribed : ∀ o ∈ b.observers, ∀ s ∈ o.subscriptions, b.Has s.source

theorem Orderly.start : (empty : Bindings ν).Orderly where
  placed := Wiring.start.placed
  nodup := List.nodup_nil
  subscribed _ none := absurd none List.not_mem_nil

theorem Orderly.narrow {b c : Bindings ν} (h : b.Orderly) (narrows : Narrows b c) :
    c.Orderly where
  placed := narrows.placed h.placed
  nodup := narrows.nodup h.nodup
  subscribed o mem s subscribed := by
    rcases narrows.observers o mem with there | none
    · exact (h.subscribed o there s subscribed).mono narrows.size
    · exact absurd (none ▸ subscribed) List.not_mem_nil

theorem Orderly.evaluateObserver {b : Bindings ν} (h : b.Orderly) (doc : Document)
    (env : Environment) (o : Observer ν) : (b.evaluateObserver doc env o).1.Orderly := by
  have faithful := lookUp_faithful h.placed doc env.accessors o
  obtain ⟨change, added, evaluated, marks, -, -⟩ := b.evaluateObserver_eq doc env o
  obtain ⟨slots, epochs, rebound, size⟩ := b.rebind_eq doc env.accessors o
  have pending := (retains_evaluateObserver h.placed doc env o).2
  have kept : (b.lookUp doc env.accessors o).bindings.slots.size ≤
      (b.evaluateObserver doc env o).1.slots.size := by
    rw [evaluated, rebound]
    exact Nat.le_of_eq size.symm
  refine ⟨(retains_evaluateObserver h.placed doc env o).1.placed h.placed,
    pending ▸ h.nodup, fun p mem s subscribed => ?_⟩
  rw [evaluated, rebound] at mem
  dsimp only at mem
  rw [List.map_map, faithful.observers] at mem
  obtain ⟨q, there, rfl⟩ := List.mem_map.mp mem
  by_cases own : q.id = o.id
  · have new : s ∈ (b.lookUp doc env.accessors o).subscriptions := by
      simpa [own, (marks _).2] using subscribed
    exact (faithful.subscribed s new).1.mono kept
  · have old : s ∈ q.subscriptions := by simpa [own] using subscribed
    exact (h.subscribed q there s old).mono (Nat.le_trans faithful.size kept)

theorem carried_orderly : Carried (Orderly (ν := ν)) where
  narrow narrows h := h.narrow narrows
  evaluate doc env o _ h := h.evaluateObserver doc env o

theorem orderly_run (uses : List (Use ν)) : (run uses).Orderly :=
  carried_orderly.run .start uses

end Bindings

end FormDependencies
