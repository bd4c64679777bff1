import FormDependencies.Proofs.Action.Inert
import FormDependencies.Proofs.Binding.Settlement

/-!
Where observers come from: which declaration of which element. Evaluation changes nothing about it,
and initialisation of one element nothing about the observers of the others.
-/

namespace FormDependencies

/-- The declaration from which an observer comes. -/
structure Origin where
  element : ElementId
  query : String
  action : String
  parameters : KeyedList String
  negated : Bool
deriving DecidableEq

def Observer.origin {ν : Type} (o : Observer ν) : Origin :=
  ⟨o.element, o.query.text, o.actionName, o.parameters, o.negated⟩

namespace Document
variable {ν : Type}

def prepared? (doc : Document) (actions : ActionTable ν) (config : Config) (el : ElementId) :
    Option (List (Declaration × Query × Action ν)) :=
  match Bindings.targetOf doc el config,
      Bindings.prepareEach actions (doc.declarations el config) with
  | .ok _, .ok prepared => some prepared
  | _, _ => none

def origins (doc : Document) (actions : ActionTable ν) (config : Config) (el : ElementId) :
    List Origin :=
  if doc.hasAttribute el config.queryAttribute then
    ((doc.prepared? actions config el).getD []).map fun p =>
      ⟨el, p.2.1.text, p.1.action, p.1.parameters, doc.hasAttribute el config.negateAttribute⟩
  else []

theorem prepared?_eq_some {doc : Document} {actions : ActionTable ν} {config : Config}
    {el : ElementId} {prepared : List (Declaration × Query × Action ν)} :
    doc.prepared? actions config el = some prepared ↔
      (∃ target, Bindings.targetOf doc el config = .ok target) ∧
        Bindings.prepareEach actions (doc.declarations el config) = .ok prepared := by
  unfold prepared?
  cases Bindings.targetOf doc el config with
  | error e => simp
  | ok target =>
    cases Bindings.prepareEach actions (doc.declarations el config) with
    | error e => simp
    | ok given => simp

/-- Declarations that stay as they are can be prepared as before. -/
theorem SameDeclarations.prepared? {doc doc' : Document} (h : SameDeclarations doc doc')
    (el : ElementId) :
    doc'.prepared? (.builtin : ActionTable ν) .standard el =
      doc.prepared? (.builtin : ActionTable ν) .standard el := by
  have forward : ∀ {doc doc' : Document} (_ : SameDeclarations doc doc')
      (prepared : List (Declaration × Query × Action ν)),
      doc.prepared? .builtin .standard el = some prepared →
      doc'.prepared? .builtin .standard el = some prepared := by
    intro doc doc' h prepared found
    obtain ⟨targeted, read⟩ := prepared?_eq_some.mp found
    refine prepared?_eq_some.mpr ⟨?_, ?_⟩
    · rw [h.targetOf]
      exact targeted
    · rw [h.declarations read]
      exact read
  refine Option.ext fun prepared => ⟨fun found => ?_, fun found => ?_⟩
  · exact forward h.symm prepared found
  · exact forward h prepared found

theorem SameDeclarations.origins {doc doc' : Document} (h : SameDeclarations doc doc')
    (el : ElementId) :
    doc'.origins (.builtin : ActionTable ν) .standard el =
      doc.origins (.builtin : ActionTable ν) .standard el := by
  unfold Document.origins
  rw [h.prepared?, h.hasAttribute el (by decide), h.hasAttribute el (by decide)]

end Document

namespace Bindings
variable {ν : Type}

def origins (b : Bindings ν) (el : ElementId) : List Origin :=
  (b.observers.map Observer.origin).filter fun o => o.element == el

theorem mem_origins {b : Bindings ν} {o : Origin} {el : ElementId} :
    o ∈ b.origins el ↔ o ∈ b.observers.map Observer.origin ∧ o.element = el := by
  simp [origins]

theorem origins_congr {b c : Bindings ν} (observers : c.observers = b.observers) (el : ElementId) :
    c.origins el = b.origins el := by
  unfold origins
  rw [observers]

theorem origins_eq_nil {b : Bindings ν} {el : ElementId} :
    b.origins el = [] ↔ ∀ o ∈ b.observers, o.element ≠ el := by
  simp [origins, Observer.origin]

/-- Only the observers of an element are listed with it. -/
theorem element_of_mem_observersOf {b : Bindings ν} (h : b.WellFormed) {el : ElementId}
    {o : Observer ν} (mem : o ∈ b.observers) : o.id ∈ b.observersOf el ↔ o.element = el := by
  constructor
  · intro listed
    exact (h.owned el o.id listed).2 o mem rfl
  · rintro rfl
    exact h.listed o mem

theorem origins_destroyElement {b : Bindings ν} (h : b.WellFormed) (el other : ElementId) :
    (b.destroyElement el).1.origins other = if el = other then [] else b.origins other := by
  have remain : (b.destroyElement el).1.observers =
      b.observers.filter fun o => o.element != el := by
    rw [(b.destroys_destroyElement el).observers]
    apply List.filter_congr
    intro o mem
    by_cases own : o.element = el
    · simp [own, (element_of_mem_observersOf h mem).mpr own]
    · simp [own, mt (element_of_mem_observersOf h mem).mp own]
  unfold origins
  rw [remain, List.filter_map, List.filter_map, List.filter_filter]
  by_cases own : el = other
  · subst own
    rw [if_pos rfl]
    refine List.map_eq_nil_iff.mpr (List.filter_eq_nil_iff.mpr fun o _ => ?_)
    by_cases same : o.element = el <;> simp [Observer.origin, same]
  · rw [if_neg own]
    refine congrArg _ (List.filter_congr fun o _ => ?_)
    by_cases same : o.element = other <;> simp [Observer.origin, same, Ne.symm own]

theorem origins_addObservers (b : Bindings ν) (el : ElementId) (signature : String)
    (replaced : Nat) {added : List (Observer ν)} (own : ∀ o ∈ added, o.element = el)
    (other : ElementId) :
    (b.addObservers el signature replaced added).origins other =
      b.origins other ++ if el = other then added.map Observer.origin else [] := by
  have observers : (b.addObservers el signature replaced added).observers =
      b.observers ++ added := rfl
  unfold origins
  rw [observers, List.map_append, List.filter_append]
  congr 1
  by_cases same : el = other
  · rw [if_pos same]
    apply List.filter_eq_self.mpr
    intro o mem
    obtain ⟨p, there, rfl⟩ := List.mem_map.mp mem
    simpa [Observer.origin, same] using own p there
  · rw [if_neg same]
    apply List.filter_eq_nil_iff.mpr
    intro o mem
    obtain ⟨p, there, rfl⟩ := List.mem_map.mp mem
    simp [Observer.origin, own p there, same]

theorem map_origin_observersFrom (doc : Document) (el : ElementId) (config : Config)
    (target : Option Selector) (next : Nat)
    (prepared : List (Declaration × Query × Action ν)) :
    (observersFrom doc el config target next prepared).map Observer.origin =
      prepared.map fun p =>
        ⟨el, p.2.1.text, p.1.action, p.1.parameters,
          doc.hasAttribute el config.negateAttribute⟩ := by
  induction prepared generalizing next with
  | nil => rfl
  | cons first rest ih =>
    rw [observersFrom, List.map_cons, List.map_cons, ih]
    rfl

structure Renews (b : Bindings ν) (doc : Document) (el : ElementId) : Prop where
  carries : doc.hasAttribute el Config.standard.queryAttribute
  prepared : (doc.prepared? (.builtin : ActionTable ν) .standard el).isSome
  changed : ∀ entry, b.declared? el = some entry →
    entry.signature ≠ doc.declarationSignature el .standard

section
variable {b c : Bindings ν} {doc doc' : Document} {env : Environment} {id : ObserverId}

/-- An attempt to evaluate an observer changes nothing for attached elements, nor for elements
without observers. -/
theorem Attempted.origins (h : b.WellFormed) (attempted : Attempted b doc env id c doc')
    {el : ElementId} (untouched : doc.isAttached el ∨ b.origins el = []) :
    c.origins el = b.origins el := by
  cases attempted with
  | refused => rfl
  | missing => rfl
  | detached _ o _ loose =>
    rw [origins_destroyElement (h.countTurn id)]
    split
    · next same =>
      rcases untouched with attached | none
      · rw [same, attached] at loose
        cases loose
      · exact none.symm
    · rfl
  | evaluated _ o found =>
    have same := (h.evaluates doc env found).map_asCreated
    have origins := congrArg (List.map Observer.origin) same
    rw [List.map_map, List.map_map] at origins
    exact congrArg (List.filter fun o : Origin => o.element == el) origins

theorem Attempted.declared? (h : b.WellFormed) (attempted : Attempted b doc env id c doc')
    {el : ElementId} (attached : doc.isAttached el) : c.declared? el = b.declared? el := by
  cases attempted with
  | refused => rfl
  | missing => rfl
  | detached _ o _ loose =>
    rw [declared?_destroyElement, if_neg]
    · rfl
    · rintro rfl
      rw [attached] at loose
      cases loose
  | evaluated _ o found =>
    exact declared?_congr (h.evaluates doc env found).declared el

end

/-- Exactly the entries of elements that are not attached are given up. -/
theorem declared?_actualizeObservers (b : Bindings ν) (doc : Document) (el : ElementId) :
    (b.actualizeObservers doc).1.declared? el =
      if doc.isAttached el then b.declared? el else none := by
  have destroyed : ∀ (els : List ElementId) (b : Bindings ν),
      (b.destroyElements els).1.declared? el = if el ∈ els then none else b.declared? el := by
    intro els
    induction els with
    | nil => simp [destroyElements]
    | cons first rest ih =>
      intro b
      apply (ih (b.destroyElement first).1).trans
      rw [declared?_destroyElement]
      by_cases later : el ∈ rest
      · rw [if_pos later, if_pos (List.mem_cons_of_mem _ later)]
      · rw [if_neg later]
        by_cases own : el = first
        · rw [if_pos own, if_pos (own ▸ List.mem_cons_self)]
        · rw [if_neg own, if_neg]
          exact fun mem => later ((List.mem_cons.mp mem).resolve_left own)
  let detached := (b.declared.map (·.element)).filter fun el => !doc.isAttached el
  have logged : (b.actualizeObservers doc).1.declared? el =
      (b.destroyElements detached).1.declared? el := by
    unfold actualizeObservers
    dsimp only
    split
    · rfl
    · rfl
  rw [logged, destroyed]
  by_cases attached : doc.isAttached el
  · rw [if_pos attached, if_neg]
    intro mem
    have gone := (List.mem_filter.mp mem).2
    simp [attached] at gone
  · rw [if_neg attached]
    split
    · rfl
    · next listed =>
      refine List.find?_eq_none.mpr fun entry mem same => listed ?_
      have same : entry.element = el := by simpa using same
      exact List.mem_filter.mpr ⟨List.mem_map.mpr ⟨entry, mem, same⟩, by simp [attached]⟩

/-- Observers of attached elements stay, and those of others go. -/
theorem origins_actualizeObservers {b : Bindings ν} (h : b.WellFormed) (doc : Document)
    (el : ElementId) :
    (b.actualizeObservers doc).1.origins el =
      if doc.isAttached el then b.origins el else [] := by
  let P := fun c : Bindings ν =>
    c.WellFormed ∧ (doc.isAttached el → c.origins el = b.origins el)
  have kept : P (b.actualizeObservers doc).1 := by
    refine actualizeObservers_keeps P ?_ ?_ ⟨h, fun _ => rfl⟩
    · rintro c other detached ⟨wellFormed, same⟩
      refine ⟨wellFormed.destroyElement other, fun attached => ?_⟩
      rw [origins_destroyElement wellFormed, if_neg, same attached]
      rintro rfl
      rw [attached] at detached
      cases detached
    · rintro c count live ⟨wellFormed, same⟩
      exact ⟨wellFormed.announce (.log rfl), same⟩
  by_cases attached : doc.isAttached el
  · rw [if_pos attached]
    exact kept.2 attached
  · rw [if_neg attached]
    apply origins_eq_nil.mpr
    intro o mem same
    have listed := kept.1.listed o mem
    unfold observersOf at listed
    rw [same, declared?_actualizeObservers, if_neg attached] at listed
    exact absurd listed List.not_mem_nil

end Bindings

end FormDependencies
