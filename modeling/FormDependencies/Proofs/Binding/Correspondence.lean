import FormDependencies.Document.Edit
import FormDependencies.Proofs.Binding.Registry
import FormDependencies.Proofs.Binding.Signature

/-!
Which declarations the observers of an element come from. They are exactly those that the element
had when it was last initialised without keeping them; later initialisations that keep them only
know that the signature is the same.
-/

namespace FormDependencies

namespace Bindings
variable {ν : Type}

def observersAt (b : Bindings ν) (el : ElementId) : List (Observer ν) :=
  b.observers.filter fun o => o.element == el

structure Corresponds (b : Bindings ν) (doc : Document) (el : ElementId) (config : Config) :
    Prop where
  ids : (b.observersAt el).map (·.id) = b.observersOf el
  blueprints : (b.observersAt el).map Observer.blueprint = doc.blueprints el config

/-- Whether the observers of every element come from declarations that it had when it was
initialised, with the signature that is kept. -/
def Built (b : Bindings ν) (initialised : ElementId → Document → Config → Prop) : Prop :=
  ∀ entry ∈ b.declared, ∃ doc config, initialised entry.element doc config ∧
    entry.signature = doc.declarationSignature entry.element config ∧
    b.Corresponds doc entry.element config

section
variable {b c : Bindings ν} {doc : Document} {el : ElementId} {config : Config}
  {issued : List ObserverId} {initialised : ElementId → Document → Config → Prop}

theorem Retains.observersAt (retains : Retains b c) (el : ElementId) :
    (c.observersAt el).map Observer.asCreated = (b.observersAt el).map Observer.asCreated := by
  have split : ∀ observers : List (Observer ν),
      (observers.filter fun o => o.element == el).map Observer.asCreated =
        (observers.map Observer.asCreated).filter fun o => o.element == el := by
    intro observers
    rw [List.filter_map]
    rfl
  unfold Bindings.observersAt
  rw [split, retains.created, ← split]

/-- Where the observers of an element stay as they were created, they correspond to the same. -/
theorem Corresponds.congr (h : b.Corresponds doc el config)
    (created : (c.observersAt el).map Observer.asCreated =
      (b.observersAt el).map Observer.asCreated)
    (listed : c.observersOf el = b.observersOf el) : c.Corresponds doc el config where
  ids := by
    rw [map_eq_of_asCreated (·.id) (fun _ => rfl) created, listed]
    exact h.ids
  blueprints := by
    rw [map_eq_of_asCreated Observer.blueprint (fun _ => rfl) created]
    exact h.blueprints

theorem Built.retain (h : b.Built initialised) (retains : Retains b c) : c.Built initialised := by
  intro entry mem
  obtain ⟨doc, config, given, signature, corresponds⟩ := h entry (retains.declared ▸ mem)
  exact ⟨doc, config, given, signature,
    corresponds.congr (retains.observersAt _) (observersOf_congr retains.declared _)⟩

theorem observersAt_destroyElement (registered : b.Registered issued) {other : ElementId}
    (different : other ≠ el) : (b.destroyElement el).1.observersAt other = b.observersAt other := by
  unfold observersAt
  rw [registered.observers_destroyElement, List.filter_filter]
  apply List.filter_congr
  intro o _
  by_cases own : o.element = other <;> simp [own, different]

theorem Built.destroyElement (h : b.Built initialised) (registered : b.Registered issued)
    (el : ElementId) : (b.destroyElement el).1.Built initialised := by
  intro entry mem
  have different := b.undeclared_destroyElement el entry mem
  rw [declared_destroyElement, List.mem_filter] at mem
  obtain ⟨doc, config, given, signature, corresponds⟩ := h entry mem.1
  refine ⟨doc, config, given, signature, corresponds.congr ?_ ?_⟩
  · rw [observersAt_destroyElement registered different]
  · unfold observersOf
    rw [declared?_destroyElement, if_neg different]

theorem text_of_parse {text : String} {query : Query} (h : Query.parse text = .ok query) :
    query.text = text := by
  unfold Query.parse at h
  split at h
  · obtain rfl := Except.ok.inj h
    rfl
  · cases h

theorem map_blueprint_observersFrom (doc : Document) (el : ElementId) (config : Config)
    (target : Option Selector) (next : Nat) (prepared : List (Declaration × Query × Action ν)) :
    (observersFrom doc el config target next prepared).map Observer.blueprint =
      prepared.map fun p =>
        { query := p.2.1.text, action := p.1.action, parameters := p.1.parameters
          negated := doc.hasAttribute el config.negateAttribute
          skipsInitial := doc.hasAttribute el config.skipInitialAttribute
          target := .ok target } := by
  induction prepared generalizing next with
  | nil => rfl
  | cons first rest ih => simp [observersFrom, observerOf, Observer.blueprint, ih]

/-- New observers are made of what the element declares. -/
theorem blueprints_observersFrom {actions : ActionTable ν} {target : Option Selector}
    {prepared : List (Declaration × Query × Action ν)} (next : Nat)
    (read : targetOf doc el config = .ok target)
    (all : prepareEach actions (doc.declarations el config) = .ok prepared) :
    (observersFrom doc el config target next prepared).map Observer.blueprint =
      doc.blueprints el config := by
  obtain ⟨declarations, each⟩ := prepareEach_ok all
  unfold Document.blueprints
  rw [map_blueprint_observersFrom, ← declarations, List.map_map, read]
  apply List.map_congr_left
  intro p mem
  simp [text_of_parse (each p mem).1]

section
variable {added : List (Observer ν)} {signature : String} {replaced : Nat}

theorem observersAt_addObservers (own : ∀ o ∈ added, o.element = el) (other : ElementId) :
    (b.addObservers el signature replaced added).observersAt other =
      b.observersAt other ++ if other = el then added else [] := by
  simp only [observersAt, addObservers, log, record, List.filter_append]
  congr 1
  split
  · next same => exact List.filter_eq_self.mpr fun o mem => by simp [own o mem, same]
  · next different =>
    exact List.filter_eq_nil_iff.mpr fun o mem => by simp [own o mem, Ne.symm different]

/-- An element that had no observers gets those that it declares, and no other element does. -/
theorem Built.addObservers (h : b.Built initialised) (registered : b.Registered issued)
    (undeclared : ∀ entry ∈ b.declared, entry.element ≠ el)
    (own : ∀ o ∈ added, o.element = el)
    (blueprints : added.map Observer.blueprint = doc.blueprints el config)
    (given : initialised el doc config)
    (signed : signature = doc.declarationSignature el config) :
    (b.addObservers el signature replaced added).Built initialised ∧
      (b.addObservers el signature replaced added).Corresponds doc el config := by
  have none : b.observersAt el = [] := by
    refine List.filter_eq_nil_iff.mpr fun o mem own => ?_
    obtain ⟨entry, there, same, -⟩ := registered.listed o mem
    exact undeclared entry there (same.trans (beq_iff_eq.mp own))
  have corresponds : (b.addObservers el signature replaced added).Corresponds doc el config := by
    constructor
    · rw [observersAt_addObservers own, observersOf_addObservers, if_pos rfl, if_pos rfl, none,
        List.nil_append]
    · rw [observersAt_addObservers own, if_pos rfl, none, List.nil_append]
      exact blueprints
  refine ⟨fun entry mem => ?_, corresponds⟩
  have placed : (placeDeclared ⟨el, signature, added.map (·.id)⟩ b.declared).Perm
      (⟨el, signature, added.map (·.id)⟩ :: b.declared) := placeDeclared_perm undeclared
  rcases List.mem_cons.mp (placed.mem_iff.mp mem) with rfl | mem
  · exact ⟨doc, config, given, signed, corresponds⟩
  · obtain ⟨doc', config', given', signature', corresponds'⟩ := h entry mem
    have different := undeclared entry mem
    refine ⟨doc', config', given', signature', corresponds'.congr ?_ ?_⟩
    · rw [observersAt_addObservers own, if_neg different, List.append_nil]
    · rw [observersOf_addObservers, if_neg (Ne.symm different)]

end

/-- An initialisation that succeeds keeps the observers of a declaration with the same signature, or
it builds those that are declared. -/
theorem Built.init (h : b.Built initialised) (registered : b.Registered issued)
    (doc : Document) (el : ElementId) (actions : ActionTable ν) (config : Config)
    (given : initialised el doc config) :
    (b.init doc el actions config).1.Built initialised ∧
      ∀ ids, (b.init doc el actions config).2 = .ok ids →
        (b.declared? el).any (·.signature == doc.declarationSignature el config) = false →
        (b.init doc el actions config).1.Corresponds doc el config := by
  have destroyed := h.destroyElement registered el
  rcases b.init_cases doc el actions config with
    ⟨⟨entry, found, signature⟩, kept⟩ |
      ⟨-, ⟨error, failed, -⟩ | ⟨target, prepared, read, all, created⟩⟩
  · rw [kept]
    refine ⟨h, fun ids _ changed => ?_⟩
    simp [found, signature] at changed
  · rw [failed]
    exact ⟨destroyed, fun ids success => nomatch success⟩
  · rw [created]
    have own : ∀ o ∈ observersFrom doc el config target (b.destroyElement el).1.nextObserver
        prepared, o.element = el := fun o mem =>
      element_of_mem_observersFrom doc el config target mem
    have blueprints := blueprints_observersFrom (b.destroyElement el).1.nextObserver read all
    obtain ⟨built, corresponds⟩ := destroyed.addObservers (registered.destroyElement el)
      (b.undeclared_destroyElement el) own blueprints given rfl
    exact ⟨built, fun _ _ _ => corresponds⟩

/-- After an initialisation that succeeds the signature of the element is kept. -/
theorem declared?_init {actions : ActionTable ν} {ids : List ObserverId}
    (success : (b.init doc el actions config).2 = .ok ids) :
    ∃ entry, (b.init doc el actions config).1.declared? el = some entry ∧
      entry.signature = doc.declarationSignature el config := by
  rcases b.init_cases doc el actions config with
    ⟨⟨entry, found, signature⟩, kept⟩ | ⟨-, ⟨error, failed, -⟩ | ⟨target, prepared, -, -, created⟩⟩
  · rw [kept]
    exact ⟨entry, found, signature⟩
  · rw [failed] at success
    cases success
  · rw [created]
    refine ⟨_, (declared?_addObservers ..).trans (if_pos rfl), ?_⟩
    dsimp only

end

end Bindings

namespace ObserverRegistry
variable {ν : Type}

def Initialised (ops : List (Operation ν)) (el : ElementId) (doc : Document) (config : Config) :
    Prop :=
  ∃ actions, .init doc el actions config ∈ ops

/-- What is built stays built under every operation. -/
theorem built_step {r : ObserverRegistry ν} (h : r.WellFormed)
    {initialised : ElementId → Document → Config → Prop} (built : r.bindings.Built initialised)
    (op : Operation ν)
    (given : ∀ doc el actions config, op = .init doc el actions config →
      initialised el doc config) : (r.step op).bindings.Built initialised := by
  let P := fun b : Bindings ν => b.Registered r.issued ∧ b.Built initialised
  have start : P r.bindings := ⟨h.registered, built⟩
  have retain : ∀ b c : Bindings ν, Bindings.Retains b c → P b → P c := fun b c retains kept =>
    ⟨kept.1.retain retains, kept.2.retain retains⟩
  have destroy : ∀ (b : Bindings ν) el, P b → P (b.destroyElement el).1 := fun b el kept =>
    ⟨kept.1.destroyElement el, kept.2.destroyElement kept.1 el⟩
  have attempt : ∀ {b c : Bindings ν} {doc doc' env id},
      Bindings.Attempted b doc env id c doc' → P b → P c := fun attempted kept =>
    attempted.retains P (fun b c retains _ => retain b c retains) destroy kept.1.placed kept
  cases op with
  | init doc el actions config =>
    exact (built.init h.registered doc el actions config (given doc el actions config rfl)).1
  | destroyElement el => exact (destroy _ el start).2
  | actualize doc =>
    exact (Bindings.actualizeObservers_keeps P (fun b el _ => destroy b el)
      (fun b _ _ => retain b _ (.record b _)) start).2
  | queue id => exact built.retain (.announce (.queue ..))
  | queueWithin doc container => exact built.retain (.announce (.queueWithin ..))
  | queueSelfReaders doc target => exact built.retain (.announce (.queueSelfReaders ..))
  | beginTurn => exact built.retain (.turn _ _)
  | evaluateNow doc env id => exact (attempt (r.bindings.attempted_evaluateNow doc env id) start).2
  | flush doc env =>
    refine (Bindings.flushEach_keeps (fun b _ _ => P b) (fun _ _ _ _ _ kept => kept) ?_ _ {}
      (retain _ _ (.idle r.bindings) start)).2
    exact fun b doc id owed c doc' _ attempted kept => attempt attempted kept
  | elsewhere change announces => exact built.retain (.announce (announces _))

theorem built_run (ops : List (Operation ν)) :
    (run ops).bindings.Built (Initialised ops) := by
  suffices each : ∀ (later earlier : List (Operation ν)) (r : ObserverRegistry ν), r.WellFormed →
      r.bindings.Built (Initialised (earlier ++ later)) →
      (later.foldl step r).bindings.Built (Initialised (earlier ++ later)) from
    each ops [] {} (.run []) (fun _ none => absurd none List.not_mem_nil)
  intro later
  induction later with
  | nil => exact fun _ _ _ built => built
  | cons op rest ih =>
    intro earlier r h built
    rw [List.append_cons] at built ⊢
    refine ih (earlier ++ [op]) (r.step op) (h.step op) (built_step h built op ?_)
    rintro doc el actions config rfl
    exact ⟨actions, by simp⟩

/-- After every initialisation that succeeds, whatever came before, the observers of the element are
those that it declared at one of its initialisations, this one or an earlier one, with the signature
that it has now. They are those that it declares now exactly when it declared the same then; this
is so when they are new, and when the signature can be read back both then and now. -/
theorem corresponds_init (ops : List (Operation ν)) {doc : Document} {el : ElementId}
    {actions : ActionTable ν} {config : Config} {ids : List ObserverId}
    (success : ((run ops).bindings.init doc el actions config).2 = .ok ids) :
    let b := (run ops).bindings
    let c := (b.init doc el actions config).1
    ((b.declared? el).any (·.signature == doc.declarationSignature el config) = false →
        c.Corresponds doc el config) ∧
      ∃ doc' config', Initialised (ops ++ [.init doc el actions config]) el doc' config' ∧
        doc'.declarationSignature el config' = doc.declarationSignature el config ∧
        c.Corresponds doc' el config' ∧
        (c.Corresponds doc el config ↔ doc'.blueprints el config' = doc.blueprints el config) ∧
        (config' = config → doc'.Unambiguous el config → doc.Unambiguous el config →
          c.Corresponds doc el config) := by
  intro b c
  have h := WellFormed.run ops
  have built : b.Built (Initialised (ops ++ [.init doc el actions config])) := by
    intro entry mem
    obtain ⟨doc', config', ⟨actions', given⟩, rest⟩ := built_run ops entry mem
    exact ⟨doc', config', ⟨actions', List.mem_append_left _ given⟩, rest⟩
  obtain ⟨built, new⟩ := built.init h.registered doc el actions config ⟨actions, by simp⟩
  refine ⟨new ids success, ?_⟩
  obtain ⟨entry, found, signed⟩ := Bindings.declared?_init success
  have registered := h.registered.init doc el actions config
  obtain ⟨mem, rfl⟩ := registered.declared?_eq_some_iff.mp found
  obtain ⟨doc', config', given, signature, corresponds⟩ := built entry mem
  have exact_iff : c.Corresponds doc entry.element config ↔
      doc'.blueprints entry.element config' = doc.blueprints entry.element config := by
    constructor
    · intro now
      exact corresponds.blueprints.symm.trans now.blueprints
    · intro same
      exact ⟨corresponds.ids, corresponds.blueprints.trans same⟩
  refine ⟨doc', config', given, signature.symm.trans signed, corresponds, exact_iff, ?_⟩
  rintro rfl clear clear'
  exact exact_iff.mpr (clear.blueprints_eq clear' (signature.symm.trans signed))

/-- A field declares one action twice, and the second declaration has a parameter. -/
def secondParameter : Document :=
  Document.new.editAll [.create "input", .append .root ⟨1⟩,
    .setAttribute ⟨1⟩ Config.standard.queryAttribute "@total;@total",
    .setAttribute ⟨1⟩ Config.standard.actionAttribute "set;set",
    .setAttribute ⟨1⟩ "data-dependson-set-x-1" "7"]

def firstParameter : Document :=
  secondParameter.editAll [.removeAttribute ⟨1⟩ "data-dependson-set-x-1",
    .setAttribute ⟨1⟩ "data-dependson-set-x" "7"]

def initialisedBefore : List (Operation Unit) :=
  [.init secondParameter ⟨1⟩ .builtin .standard]

/-- The signature is the same, and the observers stay those of the earlier declarations. -/
theorem corresponds_init_parameterMoved :
    let after := (run initialisedBefore).bindings.init firstParameter ⟨1⟩ .builtin .standard
    after.2 = .ok [] ∧ after.1.Corresponds secondParameter ⟨1⟩ .standard ∧
      ¬after.1.Corresponds firstParameter ⟨1⟩ .standard := by
  intro after
  have success : after.2 = .ok [] := by
    have kept : after.2.toOption = some [] := by decide +kernel
    generalize after.2 = result at kept
    cases result with
    | ok ids => exact congrArg Except.ok (Option.some.inj kept)
    | error error => cases kept
  have moved : ¬after.1.Corresponds firstParameter ⟨1⟩ .standard := by
    intro now
    have parameters := congrArg (List.map Blueprint.parameters) now.blueprints
    revert parameters
    decide +kernel
  obtain ⟨-, doc', config', ⟨actions', given⟩, -, corresponds, -⟩ :=
    corresponds_init initialisedBefore success
  rw [initialisedBefore, List.singleton_append, List.mem_cons, List.mem_singleton] at given
  rcases given with given | given
  · cases given
    exact ⟨success, corresponds, moved⟩
  · cases given
    exact absurd corresponds moved

end ObserverRegistry

end FormDependencies
