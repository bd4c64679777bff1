import FormDependencies.Proofs.Binding.Correspondence
import FormDependencies.Proofs.Binding.Wiring
import FormDependencies.Proofs.Text.Runs

/-!
An initialisation is all or nothing. When the signature of the element is the one that is kept,
nothing happens. Otherwise the observers that the element had are gone, and either all of its
declarations get an observer or, if anything is wrong with one of them, none does. The observers of
other elements do not notice.
-/

namespace FormDependencies.Bindings
variable {ν : Type}

/-! ## What can be wrong -/

inductive Faulty (actions : ActionTable ν) (d : Declaration) : DependencyError → Prop
  | query {error : DependencyError} (malformed : Query.parse d.query = .error error) :
    Faulty actions d error
  | action {query : Query} (read : Query.parse d.query = .ok query)
    (unknown : d.action ∉ actions.names) :
    Faulty actions d (.unknownAction d.action actions.names)

/-- Why an element cannot be initialised: its target, or else its first declaration that is wrong,
wherever that stands. -/
inductive Fails (doc : Document) (el : ElementId) (actions : ActionTable ν) (config : Config) :
    DependencyError → Prop
  | target {error : DependencyError} (wrong : targetOf doc el config = .error error) :
    Fails doc el actions config error
  | declaration {target : Option Selector} {before after : List Declaration} {d : Declaration}
    {error : DependencyError} (read : targetOf doc el config = .ok target)
    (declared : doc.declarations el config = before ++ d :: after)
    (sound : ∀ d' ∈ before, ∀ error, ¬Faulty actions d' error) (faulty : Faulty actions d error) :
    Fails doc el actions config error

section
variable {actions : ActionTable ν} {d : Declaration} {error : DependencyError}

theorem get_eq_error_iff {name : String} :
    actions.get name = .error error ↔
      name ∉ actions.names ∧ error = .unknownAction name actions.names := by
  unfold ActionTable.get ActionTable.names
  cases found : actions.entries.find? fun entry => entry.1 == name with
  | some entry =>
    have known : name ∈ actions.entries.map (·.1) := by
      have named : entry.1 = name := by simpa using List.find?_some found
      exact named ▸ List.mem_map_of_mem (List.mem_of_find?_eq_some found)
    simp [known]
  | none =>
    have unknown : name ∉ actions.entries.map (·.1) := by
      intro mem
      obtain ⟨entry, there, same⟩ := List.mem_map.mp mem
      have other := List.find?_eq_none.mp found entry there
      exact other (beq_iff_eq.mpr same)
    simp only [unknown, not_false_eq_true, true_and, Except.error.injEq]
    exact eq_comm

theorem prepare_eq_error_iff : prepare actions d = .error error ↔ Faulty actions d error := by
  unfold prepare
  rw [bind_eq_error]
  constructor
  · rintro (malformed | ⟨query, read, failed⟩)
    · exact .query malformed
    · rcases bind_eq_error.mp failed with unknown | ⟨action, -, none⟩
      · obtain ⟨absent, rfl⟩ := get_eq_error_iff.mp unknown
        exact .action read absent
      · cases none
  · intro faulty
    cases faulty with
    | query malformed => exact .inl malformed
    | action read unknown =>
      refine .inr ⟨_, read, bind_eq_error.mpr (.inl ?_)⟩
      exact get_eq_error_iff.mpr ⟨unknown, rfl⟩

/-- What can be prepared is not wrong in any way. -/
theorem sound_of_prepare {prepared : Declaration × Query × Action ν}
    (read : prepare actions d = .ok prepared) (error : DependencyError) :
    ¬Faulty actions d error := by
  intro faulty
  cases read.symm.trans (prepare_eq_error_iff.mpr faulty)

/-- The first declaration that is wrong decides. -/
theorem prepareEach_eq_error_iff {declarations : List Declaration} :
    prepareEach actions declarations = .error error ↔
      ∃ before d after, declarations = before ++ d :: after ∧
        (∀ d' ∈ before, ∀ error, ¬Faulty actions d' error) ∧ Faulty actions d error := by
  induction declarations with
  | nil => simp [prepareEach]
  | cons first rest ih =>
    unfold prepareEach
    rw [bind_eq_error]
    constructor
    · rintro (failed | ⟨prepared, read, failed⟩)
      · have faulty := prepare_eq_error_iff.mp failed
        exact ⟨[], first, rest, rfl, fun _ none => absurd none List.not_mem_nil, faulty⟩
      · rcases bind_eq_error.mp failed with failed | ⟨tail, -, none⟩
        · rcases ih.mp failed with ⟨before, d, after, rfl, sound, faulty⟩
          refine ⟨first :: before, d, after, rfl, ?_, faulty⟩
          exact List.forall_mem_cons.mpr ⟨sound_of_prepare read, sound⟩
        · cases none
    · rintro ⟨before, d, after, split, sound, faulty⟩
      cases before with
      | nil =>
        obtain ⟨rfl, rfl⟩ := List.cons.inj split
        exact .inl (prepare_eq_error_iff.mpr faulty)
      | cons other before =>
        obtain ⟨rfl, rfl⟩ := List.cons.inj split
        rw [List.forall_mem_cons] at sound
        cases read : prepare actions first with
        | error wrong => exact absurd (prepare_eq_error_iff.mp read) (sound.1 wrong)
        | ok prepared =>
          have failed := ih.mpr ⟨before, d, after, rfl, sound.2, faulty⟩
          exact .inr ⟨prepared, rfl, bind_eq_error.mpr (.inl failed)⟩

end

def signature? (b : Bindings ν) (el : ElementId) : Option String :=
  (b.declared? el).map (·.signature)

section
variable {b c : Bindings ν} {doc : Document} {el : ElementId} {actions : ActionTable ν}
  {config : Config} {issued : List ObserverId} {added : List (Observer ν)}

/-- An initialisation that does not keep the observers fails exactly with what is wrong. -/
theorem init_eq_error_iff (changed : b.signature? el ≠ some (doc.declarationSignature el config))
    {error : DependencyError} :
    (b.init doc el actions config).2 = .error error ↔ Fails doc el actions config error := by
  have renewed : ¬(b.declared? el).any fun entry =>
      entry.signature == doc.declarationSignature el config := by
    intro same
    apply changed
    simpa [signature?, Option.any_eq_true] using same
  unfold init
  rw [if_neg renewed]
  dsimp only
  cases read : targetOf doc el config with
  | error wrong =>
    constructor
    · intro same
      cases same
      exact .target read
    · intro fails
      cases fails with
      | target same => exact read.symm.trans same ▸ rfl
      | declaration same => cases read.symm.trans same
  | ok target =>
    have fails : Fails doc el actions config error ↔
        prepareEach actions (doc.declarations el config) = .error error := by
      rw [prepareEach_eq_error_iff]
      constructor
      · intro fails
        cases fails with
        | target same => cases read.symm.trans same
        | declaration _ declared sound faulty => exact ⟨_, _, _, declared, sound, faulty⟩
      · rintro ⟨before, d, after, declared, sound, faulty⟩
        exact .declaration read declared sound faulty
    rw [fails]
    dsimp only
    cases prepareEach actions (doc.declarations el config) with
    | error wrong => simp
    | ok prepared => exact ⟨fun same => (nomatch same), fun same => nomatch same⟩

/-! ## The others -/

/-- The observers of an element are gone, and whatever is there for the element now, all that is not
theirs is as it was. -/
structure Replaces (b c : Bindings ν) (el : ElementId) : Prop extends Unwritten b c where
  gone : ∀ id ∈ b.observersOf el, c.observer? id = none
  ended : ∀ o ∈ b.observersAt el, ∀ s ∈ o.subscriptions, ∀ entry ∈ c.watchers s.source,
    entry.1 ≠ s.number
  observers : c.observers.filter (fun o => o.element != el) =
    b.observers.filter fun o => o.element != el
  declared : c.declared.filter (fun entry => entry.element != el) =
    b.declared.filter fun entry => entry.element != el
  turn : c.turn = b.turn.filter fun entry => !(b.observersOf el).contains entry.1
  pending : c.pending = b.pending
  watchers : ∀ source,
    (c.watchers source).filter (fun entry => !(b.observersOf el).contains entry.2) =
      (b.watchers source).filter fun entry => !(b.observersOf el).contains entry.2

def endedWith (b : Bindings ν) (el : ElementId) : List Subscription :=
  (b.observers.filter fun o => (b.observersOf el).contains o.id).flatMap (·.subscriptions)

theorem watchers_destroyElement (b : Bindings ν) (el : ElementId) (source : Source) :
    (b.destroyElement el).1.watchers source = (b.watchers source).filter fun entry =>
      (b.endedWith el).all fun s => s.source != source || s.number != entry.1 := by
  rw [← watchers_unsubscribeAll]
  unfold destroyElement endedWith observersOf
  cases b.declared? el with
  | none => simp [unsubscribeAll]
  | some entry => exact watchers_congr rfl rfl source

/-- What an observer of the element is subscribed to, it watches itself, so nobody else loses a
subscription. -/
theorem Wiring.spared (wiring : b.Wiring) (el : ElementId) (source : Source) :
    ((b.destroyElement el).1.watchers source).filter
        (fun entry => !(b.observersOf el).contains entry.2) =
      (b.watchers source).filter fun entry => !(b.observersOf el).contains entry.2 := by
  rw [watchers_destroyElement, List.filter_filter]
  apply List.filter_congr
  intro entry watches
  by_cases gone : entry.2 ∈ b.observersOf el
  · simp [gone]
  · have kept : (b.endedWith el).all fun s => s.source != source || s.number != entry.1 := by
      rw [List.all_eq_true]
      intro s ended
      obtain ⟨o, mem, subscribed⟩ := List.mem_flatMap.mp ended
      rw [List.mem_filter, List.contains_iff_mem] at mem
      by_contra both
      obtain ⟨rfl, number⟩ : s.source = source ∧ s.number = entry.1 := by simpa using both
      have own : entry.2 = o.id := wiring.own o mem.1 s subscribed entry watches number.symm
      exact gone (own ▸ mem.2)
    simp [gone, kept]

theorem Registered.replaces (h : b.Registered issued) (wiring : b.Wiring) (el : ElementId) :
    Replaces b (b.destroyElement el).1 el where
  toUnwritten := .destroyElement b el
  gone id listed := by
    apply observer?_eq_none.mpr
    rintro o mem rfl
    exact ((b.destroys_destroyElement el).mem_observers.mp mem).2 listed
  ended o mem s subscribed entry watches same := by
    obtain ⟨there, own⟩ := List.mem_filter.mp mem
    have listed : o.id ∈ b.observersOf el :=
      (h.mem_observersOf_iff there).mpr (beq_iff_eq.mp own)
    have remains := ((b.destroys_destroyElement el).watchers s.source entry).mp watches
    exact remains.2 o there listed s subscribed rfl same.symm
  observers := by
    rw [h.observers_destroyElement, List.filter_filter]
    simp only [Bool.and_self]
  declared := by
    rw [declared_destroyElement, List.filter_filter]
    simp only [Bool.and_self]
  turn := (b.destroys_destroyElement el).turn
  pending := (b.destroys_destroyElement el).pending
  watchers := wiring.spared el

theorem filter_placeDeclared (entry : ElementObservers) (entries : List ElementObservers) :
    (placeDeclared entry entries).filter (fun other => other.element != entry.element) =
      entries.filter fun other => other.element != entry.element := by
  induction entries with
  | nil => simp [placeDeclared]
  | cons first rest ih =>
    unfold placeDeclared
    split
    · next same => simp [same]
    · split
      · simp
      · rw [List.filter_cons, List.filter_cons, ih]

/-- New observers of the element change nothing for the others. -/
theorem Replaces.addObservers (h : Replaces b c el) (own : ∀ o ∈ added, o.element = el)
    (new : ∀ o ∈ added, o.id ∉ b.observersOf el) (signature : String) (replaced : Nat) :
    Replaces b (c.addObservers el signature replaced added) el where
  toUnwritten := h.toUnwritten.trans (.of_slots rfl rfl rfl)
  gone id listed := by
    apply observer?_eq_none.mpr
    rintro o mem rfl
    rcases List.mem_append.mp mem with old | mem
    · exact observer?_eq_none.mp (h.gone o.id listed) o old rfl
    · exact new o mem listed
  ended o mem s subscribed entry watches := by
    have same : (c.addObservers el signature replaced added).watchers s.source =
        c.watchers s.source := watchers_congr rfl rfl s.source
    exact h.ended o mem s subscribed entry (same ▸ watches)
  observers := by
    have nothing : added.filter (fun o => o.element != el) = [] :=
      List.filter_eq_nil_iff.mpr fun o mem => by simp [own o mem]
    calc (c.addObservers el signature replaced added).observers.filter (fun o => o.element != el)
      _ = c.observers.filter (fun o => o.element != el) ++
            added.filter (fun o => o.element != el) := List.filter_append ..
      _ = b.observers.filter fun o => o.element != el := by
        rw [nothing, List.append_nil, h.observers]
  declared := by
    let entry : ElementObservers := ⟨el, signature, added.map (·.id)⟩
    exact (filter_placeDeclared entry c.declared).trans h.declared
  turn := h.turn
  pending := h.pending
  watchers source := by
    rw [show (c.addObservers el signature replaced added).watchers source = c.watchers source from
      watchers_congr rfl rfl source]
    exact h.watchers source

/-! ## The element itself -/

structure Bare (b : Bindings ν) (el : ElementId) : Prop where
  observers : b.observersAt el = []
  listed : b.observersOf el = []
  unsigned : b.signature? el = none

theorem Registered.bare (h : b.Registered issued) (el : ElementId) :
    (b.destroyElement el).1.Bare el where
  observers := by
    apply List.filter_eq_nil_iff.mpr
    intro o mem
    rw [h.observers_destroyElement, List.mem_filter] at mem
    simpa using mem.2
  listed := by simp [observersOf, declared?_destroyElement]
  unsigned := by simp [signature?, declared?_destroyElement]

structure Makes (doc : Document) (el : ElementId) (actions : ActionTable ν) (config : Config)
    (d : Declaration) (o : Observer ν) : Prop where
  element : o.element = el
  query : Query.parse d.query = .ok o.query
  actionName : o.actionName = d.action
  action : actions.get d.action = .ok o.action
  parameters : o.parameters = d.parameters
  negated : o.negated = doc.hasAttribute el config.negateAttribute
  skipsInitial : o.skipsInitial = doc.hasAttribute el config.skipInitialAttribute
  target : targetOf doc el config = .ok o.target
  asCreated : o.asCreated = o

/-- An element has one observer for each of its declarations, in order and with the next numbers,
and their signature is kept. -/
structure Equips (b c : Bindings ν) (doc : Document) (el : ElementId) (actions : ActionTable ν)
    (config : Config) (ids : List ObserverId) : Prop where
  made : List.Forall₂ (Makes doc el actions config) (doc.declarations el config) (c.observersAt el)
  given : (c.observersAt el).map (·.id) = ids
  kept : c.declared? el = some ⟨el, doc.declarationSignature el config, ids⟩
  consecutive :
    ids.map (·.number) = List.range' b.nextObserver (doc.declarations el config).length
  next : c.nextObserver = b.nextObserver + (doc.declarations el config).length

theorem makes_observersFrom {target : Option Selector}
    {prepared : List (Declaration × Query × Action ν)} (read : targetOf doc el config = .ok target)
    (all : prepareEach actions (doc.declarations el config) = .ok prepared) (next : Nat) :
    List.Forall₂ (Makes doc el actions config) (doc.declarations el config)
      (observersFrom doc el config target next prepared) := by
  obtain ⟨declarations, each⟩ := prepareEach_ok all
  rw [← declarations, List.forall₂_map_left_iff]
  clear all declarations
  induction prepared generalizing next with
  | nil => exact .nil
  | cons first rest ih =>
    obtain ⟨own, others⟩ := List.forall_mem_cons.mp each
    exact .cons ⟨rfl, own.1, rfl, own.2, rfl, rfl, rfl, read, rfl⟩ (ih (next + 1) others)

theorem Registered.equips (h : b.Registered issued) {target : Option Selector}
    {prepared : List (Declaration × Query × Action ν)} (read : targetOf doc el config = .ok target)
    (all : prepareEach actions (doc.declarations el config) = .ok prepared) (replaced : Nat)
    (new : added = observersFrom doc el config target b.nextObserver prepared) :
    Equips b ((b.destroyElement el).1.addObservers el (doc.declarationSignature el config) replaced
      added) doc el actions config (added.map (·.id)) := by
  have made : List.Forall₂ (Makes doc el actions config) (doc.declarations el config) added :=
    new ▸ makes_observersFrom read all b.nextObserver
  have own : ∀ o ∈ added, o.element = el := fun o mem =>
    element_of_mem_observersFrom doc el config target (new ▸ mem)
  have observers : ((b.destroyElement el).1.addObservers el (doc.declarationSignature el config)
      replaced added).observersAt el = added := by
    rw [observersAt_addObservers own, if_pos rfl, (h.bare el).observers, List.nil_append]
  have numbers : added.map (·.id.number) = List.range' b.nextObserver added.length := by
    rw [new]
    exact number_observersFrom doc el config target b.nextObserver prepared
  constructor
  · rw [observers]
    exact made
  · rw [observers]
  · rw [declared?_addObservers, if_pos rfl]
  · rw [List.map_map, made.length_eq]
    exact numbers
  · rw [made.length_eq]
    exact congrArg (· + added.length) (b.destroys_destroyElement el).nextObserver

theorem Registered.mem_issued_of_listed (h : b.Registered issued) {id : ObserverId}
    (listed : id ∈ b.observersOf el) : id ∈ issued := by
  unfold observersOf at listed
  cases found : b.declared? el with
  | none => simp [found] at listed
  | some entry =>
    have stored : id ∈ entry.ids := by simpa [found] using listed
    exact h.mem_issued (h.declared?_eq_some_iff.mp found).1 stored

/-- The numbers that come next have not been given out. -/
theorem Equips.fresh {ids : List ObserverId} (equips : Equips b c doc el actions config ids)
    (h : b.Registered issued) : ∀ id ∈ ids, id ∉ issued := by
  intro id mem given
  have next : id.number ∈ ids.map (·.number) := List.mem_map_of_mem mem
  rw [equips.consecutive] at next
  exact Nat.not_lt.mpr (List.mem_range'_1.mp next).1 (h.number_lt given)

end

/-- An initialisation does nothing when the signature of the element is kept. Otherwise it fails
exactly when something is wrong, and then leaves the element without observers; when it succeeds
there is one new observer for each declaration. The others do not notice either way. -/
theorem init_all_or_nothing (uses : List (Use ν)) (doc : Document) (el : ElementId)
    (actions : ActionTable ν) (config : Config) :
    let b := run uses
    let outcome := b.init doc el actions config
    let signature := doc.declarationSignature el config
    (b.signature? el = some signature → outcome = (b, .ok [])) ∧
      (b.signature? el ≠ some signature →
        Replaces b outcome.1 el ∧
          (∀ error, outcome.2 = .error error ↔ Fails doc el actions config error) ∧
          (∀ error, outcome.2 = .error error →
            outcome.1.Bare el ∧ outcome.1.nextObserver = b.nextObserver) ∧
          ∀ ids, outcome.2 = .ok ids →
            Equips b outcome.1 doc el actions config ids ∧ ∀ id ∈ ids, id ∉ issued uses) := by
  intro b outcome signature
  have registered : b.Registered (issued uses) := registered_run uses
  have replaced : Replaces b (b.destroyElement el).1 el := registered.replaces (wiring_run uses) el
  have numbers : (b.destroyElement el).1.nextObserver = b.nextObserver :=
    (b.destroys_destroyElement el).nextObserver
  have cases := b.init_cases doc el actions config
  constructor
  · intro same
    obtain ⟨entry, found, signed⟩ := Option.map_eq_some_iff.mp same
    rcases cases with ⟨-, kept⟩ | ⟨changed, -⟩
    · exact kept
    · exact absurd signed (changed entry found)
  · intro changed
    have wrong : ∀ error, outcome.2 = .error error ↔ Fails doc el actions config error :=
      fun error => init_eq_error_iff changed
    rcases cases with ⟨⟨entry, found, signed⟩, -⟩ | ⟨-, ⟨error, failed, -⟩ | success⟩
    · exact absurd (Option.map_eq_some_iff.mpr ⟨entry, found, signed⟩) changed
    · have left : outcome = ((b.destroyElement el).1, .error error) := failed
      refine ⟨?_, wrong, fun _ _ => ?_, fun ids renewed => ?_⟩
      · rw [left]
        exact replaced
      · rw [left]
        exact ⟨registered.bare el, numbers⟩
      · rw [left] at renewed
        cases renewed
    · obtain ⟨target, prepared, read, all, created⟩ := success
      rw [numbers] at created
      generalize new : observersFrom doc el config target b.nextObserver prepared = added at created
      have equips := registered.equips read all (b.destroyElement el).2 new.symm
      have given : outcome.2 = .ok (added.map (·.id)) := congrArg Prod.snd created
      have left : outcome.1 = (b.destroyElement el).1.addObservers el signature
          (b.destroyElement el).2 added := congrArg Prod.fst created
      refine ⟨?_, wrong, fun error failed => ?_, fun ids renewed => ?_⟩
      · rw [left]
        apply replaced.addObservers
        · exact fun o mem => element_of_mem_observersFrom doc el config target (new ▸ mem)
        · intro o mem listed
          exact equips.fresh registered o.id (List.mem_map_of_mem mem)
            (registered.mem_issued_of_listed listed)
      · cases given.symm.trans failed
      · obtain rfl : added.map (·.id) = ids := Except.ok.inj (given.symm.trans renewed)
        rw [left]
        exact ⟨equips, equips.fresh registered⟩

def unknownSecond : Document :=
  Document.new.editAll [.create "input", .append .root ⟨1⟩,
    .setAttribute ⟨1⟩ Config.standard.queryAttribute "@total;@amount",
    .setAttribute ⟨1⟩ Config.standard.actionAttribute "set;sparkle"]

def knownBefore : List (Use Unit) :=
  [.observers (.init (unknownSecond.editAll
    [.setAttribute ⟨1⟩ Config.standard.actionAttribute "set;visibility"]) ⟨1⟩ .builtin .standard)
    trivial]

/-- The first declaration is right, but the field gets no observer for it, and loses those that it
had. -/
theorem init_all_or_nothing_unknownSecond :
    let b := run knownBefore
    let outcome := b.init unknownSecond ⟨1⟩ .builtin .standard
    b.observersOf ⟨1⟩ = [⟨0⟩, ⟨1⟩] ∧
      outcome.2 = .error (.unknownAction "sparkle" (ActionTable.builtin : ActionTable Unit).names) ∧
      outcome.1.Bare ⟨1⟩ ∧ outcome.1.nextObserver = 2 ∧ outcome.1.observer? ⟨0⟩ = none := by
  intro b outcome
  have before : b.observersOf ⟨1⟩ = [⟨0⟩, ⟨1⟩] := by decide +kernel
  have changed : b.signature? ⟨1⟩ ≠ some (unknownSecond.declarationSignature ⟨1⟩ .standard) := by
    decide +kernel
  have failed : outcome.2 =
      .error (.unknownAction "sparkle" (ActionTable.builtin : ActionTable Unit).names) := by
    decide +kernel
  have given : b.nextObserver = 2 := by decide +kernel
  obtain ⟨-, outcomes⟩ := init_all_or_nothing knownBefore unknownSecond ⟨1⟩ .builtin .standard
  obtain ⟨replaces, -, left, -⟩ := outcomes changed
  obtain ⟨bare, numbers⟩ := left _ failed
  refine ⟨before, failed, bare, numbers.trans given, replaces.gone ⟨0⟩ ?_⟩
  rw [before]
  exact List.mem_cons_self

end FormDependencies.Bindings
