import FormDependencies.Proofs.Binding.Announcement

/-!
Which element stands for which name. Registration gives an element the name and the type that it
declares, if the name is valid, and changes nothing about the others; only references of detached
elements are reclaimed.
-/

namespace FormDependencies

/-- What a reference is, apart from its value. -/
structure Naming where
  element : ElementId
  name : String
  type : RefType
deriving DecidableEq

def Reference.naming (r : Reference) : Naming := ⟨r.element, r.name, r.type⟩

namespace Document

def referenceType (doc : Document) (el : ElementId) (config : Config) : RefType :=
  match doc.attribute? el config.refTypeAttribute with
  | none => .auto
  | some text =>
    match RefType.parse text with
    | .ok type => type
    | .error _ => .auto

def naming? (doc : Document) (config : Config) (el : ElementId) : Option Naming :=
  if doc.hasAttribute el config.referenceAttribute &&
      ReferenceName.isValid (doc.referenceName el config) then
    some ⟨el, doc.referenceName el config, doc.referenceType el config⟩
  else none

end Document

namespace Bindings
variable {ν : Type}

def namings (b : Bindings ν) : List Naming := b.references.map Reference.naming

def naming? (b : Bindings ν) (el : ElementId) : Option Naming :=
  (b.reference? el).map Reference.naming

theorem naming?_congr {b c : Bindings ν} (references : c.references = b.references)
    (el : ElementId) : c.naming? el = b.naming? el := by
  unfold naming? reference?
  rw [references]

theorem element_of_naming? {b : Bindings ν} {el : ElementId} {n : Naming}
    (h : b.naming? el = some n) : n.element = el := by
  obtain ⟨r, found, rfl⟩ := Option.map_eq_some_iff.mp h
  have own : r.element = el := by simpa using List.find?_some found
  exact own

/-- There is one reference at most for each element. -/
theorem reference?_of_mem {b : Bindings ν} (h : b.Placed) {r : Reference}
    (mem : r ∈ b.references) : b.reference? r.element = some r := by
  obtain ⟨before, after, split⟩ := List.append_of_mem mem
  have ascending := h.ascending
  rw [split] at ascending
  have others : ∀ other ∈ before, other.element ≠ r.element := by
    intro other mem same
    have less := (List.pairwise_append.mp ascending).2.2 other mem r List.mem_cons_self
    exact absurd less (same ▸ Nat.lt_irrefl _)
  have absent : before.find? (fun other => other.element == r.element) = none :=
    List.find?_eq_none.mpr fun other mem => by simpa using others other mem
  unfold reference?
  rw [split, List.find?_append, absent, Option.none_or, List.find?_cons, beq_self_eq_true]

theorem mem_namings_iff {b : Bindings ν} (h : b.Placed) {n : Naming} :
    n ∈ b.namings ↔ b.naming? n.element = some n := by
  constructor
  · intro mem
    obtain ⟨r, there, rfl⟩ := List.mem_map.mp mem
    exact congrArg (Option.map Reference.naming) (reference?_of_mem h there)
  · intro found
    obtain ⟨r, there, rfl⟩ := Option.map_eq_some_iff.mp found
    exact List.mem_map_of_mem (List.mem_of_find?_eq_some there)

/-! ## Registration -/

/-- The reference of an element takes its place without touching those of the others. -/
theorem find?_placeReference (added : Reference) (references : List Reference) (el : ElementId) :
    (placeReference added references).find? (fun r => r.element == el) =
      if added.element = el then some added else references.find? fun r => r.element == el := by
  induction references with
  | nil => by_cases own : added.element = el <;> simp [placeReference, own]
  | cons first rest ih =>
    unfold placeReference
    split
    · next same =>
      by_cases own : added.element = el
      · simp [own]
      · simp [own, show first.element ≠ el from same ▸ own]
    · next different =>
      split
      · by_cases own : added.element = el <;> simp [own]
      · rw [List.find?_cons, List.find?_cons, ih]
        by_cases own : added.element = el
        · subst own
          simp [beq_false_of_ne different]
        · simp [own]

theorem references_dropReference (b : Bindings ν) (r : Reference) :
    (b.dropReference r).references =
      b.references.filter fun other => other.element != r.element := by
  unfold dropReference
  rw [references_bump, references_write]

theorem naming?_addReference (b : Bindings ν) (el : ElementId) (name : String) (type : RefType)
    (value : Value) (other : ElementId) :
    (b.addReference el name type value).naming? other =
      if el = other then some ⟨el, name, type⟩ else b.naming? other := by
  have references : (b.addReference el name type value).references =
      placeReference ⟨el, name, type, ⟨b.slots.size⟩⟩ b.references := by
    unfold addReference
    rw [references_bump]
    rfl
  unfold naming? reference?
  rw [references, find?_placeReference]
  dsimp only
  split <;> rfl

theorem naming?_dropReference (b : Bindings ν) (r : Reference) (other : ElementId) :
    (b.dropReference r).naming? other = if r.element = other then none else b.naming? other := by
  unfold naming? reference?
  rw [references_dropReference, List.find?_filter]
  by_cases own : r.element = other
  · rw [if_pos own]
    refine congrArg (Option.map Reference.naming) (List.find?_eq_none.mpr fun s _ => ?_)
    by_cases same : s.element = other <;> simp [same, own]
  · rw [if_neg own]
    congr 2
    funext s
    by_cases same : s.element = other <;> simp [same, Ne.symm own]

theorem references_declaredType (b : Bindings ν) (doc : Document) (el : ElementId)
    (config : Config) :
    (b.declaredType doc el config).1.references = b.references ∧
      (b.declaredType doc el config).2 = doc.referenceType el config := by
  unfold declaredType Document.referenceType
  cases doc.attribute? el config.refTypeAttribute with
  | none => exact ⟨rfl, rfl⟩
  | some text =>
    dsimp only
    cases RefType.parse text with
    | ok type => exact ⟨rfl, rfl⟩
    | error e => exact ⟨rfl, rfl⟩

theorem references_logCast (b : Bindings ν) (failure : Option String) :
    (b.logCast failure).references = b.references := by
  cases failure <;> rfl

theorem naming?_placeDeclaration (b : Bindings ν) (el : ElementId) (name : String) (type : RefType)
    (value : Value) (other : ElementId) :
    (b.placeDeclaration el name type value).naming? other =
      if el = other then some ⟨el, name, type⟩ else b.naming? other := by
  unfold placeDeclaration
  cases found : b.reference? el with
  | none =>
    dsimp only
    rw [naming?_addReference]
    rfl
  | some r =>
    have own : r.element = el := by simpa using List.find?_some found
    dsimp only
    split
    · next kept =>
      rw [naming?_congr (b.references_write r.slot value)]
      by_cases here : el = other
      · subst here
        rw [if_pos rfl, naming?, found, Option.map_some, Reference.naming, own, kept.1, kept.2]
      · rw [if_neg here]
    · rw [naming?_addReference, naming?_dropReference, own]
      by_cases here : el = other
      · rw [if_pos here, if_pos here]
      · rw [if_neg here, if_neg here, if_neg here]
        rfl

/-- Registration gives an element what it declares if the name is valid, and no other element
anything. -/
theorem naming?_register (b : Bindings ν) (doc : Document) (accessors : AccessorTable)
    (config : Config) (el other : ElementId) :
    (b.register doc accessors config el).1.naming? other =
      if el = other ∧ ReferenceName.isValid (doc.referenceName el config) then
        some ⟨el, doc.referenceName el config, doc.referenceType el config⟩
      else b.naming? other := by
  unfold register
  dsimp only
  by_cases valid : ReferenceName.isValid (doc.referenceName el config)
  · simp only [valid, Bool.not_true, Bool.false_eq_true, if_false, and_true]
    obtain ⟨references, type⟩ := b.references_declaredType doc el config
    generalize b.declaredType doc el config = typed at references type
    obtain ⟨b₁, given⟩ := typed
    obtain rfl : given = doc.referenceType el config := type
    let b₂ := b₁.logCast (accessors.castFailure? doc el (doc.referenceType el config))
    have same : b₂.naming? other = b.naming? other :=
      naming?_congr ((references_logCast b₁ _).trans references) other
    exact same ▸ naming?_placeDeclaration b₂ el _ _ _ other
  · rw [if_pos (by simpa using valid), if_neg fun both => valid both.2]
    rfl

/-- Exactly the references of elements that are not attached are reclaimed. -/
theorem naming?_actualizeReferences (b : Bindings ν) (doc : Document) (el : ElementId) :
    (b.actualizeReferences doc).1.naming? el =
      if doc.isAttached el then b.naming? el else none := by
  have dropped : ∀ (stale : List Reference) (b : Bindings ν),
      (stale.foldl dropReference b).naming? el =
        if el ∈ stale.map (·.element) then none else b.naming? el := by
    intro stale
    induction stale with
    | nil => simp
    | cons r rest ih =>
      intro b
      rw [List.foldl_cons, ih, naming?_dropReference, List.map_cons]
      by_cases later : el ∈ rest.map (·.element)
      · rw [if_pos later, if_pos (List.mem_cons_of_mem _ later)]
      · rw [if_neg later]
        by_cases own : r.element = el
        · rw [if_pos own, if_pos (own ▸ List.mem_cons_self)]
        · rw [if_neg own, if_neg]
          exact fun mem => later ((List.mem_cons.mp mem).resolve_left (Ne.symm own))
  let stale := b.references.filter fun r => !doc.isAttached r.element
  have logged : (b.actualizeReferences doc).1.naming? el =
      (stale.foldl dropReference b).naming? el := by
    unfold actualizeReferences
    dsimp only
    split
    · rfl
    · rfl
  rw [logged, dropped]
  by_cases attached : doc.isAttached el
  · rw [if_pos attached, if_neg]
    intro mem
    obtain ⟨r, stale, rfl⟩ := List.mem_map.mp mem
    have detached := (List.mem_filter.mp stale).2
    simp [attached] at detached
  · rw [if_neg attached]
    split
    · rfl
    · next live =>
      refine Option.map_eq_none_iff.mpr (List.find?_eq_none.mpr fun r mem same => live ?_)
      have same : r.element = el := by simpa using same
      exact List.mem_map.mpr ⟨r, List.mem_filter.mpr ⟨mem, by simp [same, attached]⟩, same⟩

theorem references_refreshEach (doc : Document) (chosen : Group → Bool) (groups : List Group)
    (b : Bindings ν) : (b.refreshEach doc chosen groups).1.references = b.references := by
  induction groups generalizing b with
  | nil => rfl
  | cons g rest ih =>
    unfold refreshEach
    split
    · exact (ih _).trans (references_write ..)
    · exact ih b

theorem references_actualizeGroups (b : Bindings ν) (doc : Document) :
    (b.actualizeGroups doc).1.references = b.references := by
  have written : ∀ (b : Bindings ν) (g : Group),
      (b.write g.slot .undefined).1.references = b.references := fun b g => references_write ..
  have dropped := foldl_keeps (·.references) (fun b (g : Group) => (b.write g.slot .undefined).1)
    written (b.groups.partition fun g => doc.isAttached g.scope).2 b
  exact (references_refreshEach doc _ _ _).trans dropped

end Bindings

end FormDependencies
