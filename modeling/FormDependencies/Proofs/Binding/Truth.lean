import FormDependencies.Document.Form
import FormDependencies.Proofs.Binding.Naming
import FormDependencies.Proofs.Binding.Slots
import FormDependencies.Proofs.Document.Complete
import FormDependencies.Proofs.Widget.Reading

/-!
References that hold what accessors read. After a change at one element only that element and those
above it can read otherwise, so it is enough to read their references again.
-/

namespace FormDependencies.Bindings
variable {ν : Type}

theorem Separate.eq_of_slot {b : Bindings ν} (h : b.Separate) {r r' : Reference}
    (mem : r ∈ b.references) (mem' : r' ∈ b.references) (shared : r.slot = r'.slot) : r = r' :=
  List.inj_on_of_nodup_map h.references mem mem' shared

theorem Separate.eq_of_element {b : Bindings ν} (h : b.Separate) {r r' : Reference}
    (mem : r ∈ b.references) (mem' : r' ∈ b.references) (same : r.element = r'.element) :
    r = r' := by
  have found := reference?_of_mem h.placed mem
  rw [same, reference?_of_mem h.placed mem'] at found
  exact (Option.some.inj found).symm

/-- All references hold what is read at their elements. -/
def Truthful (b : Bindings ν) (doc : Document) (accessors : AccessorTable) : Prop :=
  ∀ r ∈ b.references, (b.read r.slot == accessors.getTyped doc r.element r.type) = true

/-! ## Reading again -/

def changedNames (b c : Bindings ν) (els : List ElementId) : List String :=
  ((els.filterMap b.reference?).filter fun r => !(b.read r.slot == c.read r.slot)).map (·.name)

theorem changedNames_congr {b b' c c' : Bindings ν} {els : List ElementId}
    (references : b'.references = b.references)
    (before : ∀ r ∈ b.references, r.element ∈ els → b'.read r.slot = b.read r.slot)
    (after : ∀ r ∈ b.references, r.element ∈ els → c'.read r.slot = c.read r.slot) :
    b'.changedNames c' els = b.changedNames c els := by
  have found : b'.reference? = b.reference? := by
    funext el
    unfold reference?
    rw [references]
  unfold changedNames
  rw [found]
  congr 1
  apply List.filter_congr
  intro r mem
  obtain ⟨el, there, found⟩ := List.mem_filterMap.mp mem
  have inside := mem_of_reference? found
  rw [← element_of_reference? found] at there
  rw [before r inside there, after r inside there]

structure Rereads (b : Bindings ν) (doc : Document) (accessors : AccessorTable)
    (els : List ElementId) (c : Bindings ν) (names : List String) : Prop where
  references : c.references = b.references
  groups : c.groups = b.groups
  size : c.slots.size = b.slots.size
  kept : ∀ id, (∀ r ∈ b.references, r.element ∈ els → r.slot ≠ id) → c.read id = b.read id
  fresh : ∀ r ∈ b.references, r.element ∈ els →
    (c.read r.slot == accessors.getTyped doc r.element r.type) = true
  stable : ∀ r ∈ b.references,
    c.read r.slot = b.read r.slot ∨ (b.read r.slot == c.read r.slot) = false
  names : names = b.changedNames c els

theorem changed_write (b : Bindings ν) (id : SlotId) (value : Value) :
    (b.write id value).2 = !(b.read id == value) := by
  have changed := (b.slot id).set_snd value
  unfold write
  dsimp only
  rw [← show ((b.slot id).set value).2 = !(b.read id == value) from changed]
  cases ((b.slot id).set value).2 <;> rfl

/-- To read one reference again writes its slot. -/
theorem reread_eq (b : Bindings ν) (doc : Document) (accessors : AccessorTable) (r : Reference) :
    ∃ noted, Notes b noted ∧ b.reread doc accessors r =
      noted.write r.slot (accessors.getTyped doc r.element r.type) :=
  ⟨_, (b.notes_logCast _).trans (.record _ rfl), rfl⟩

namespace Rereads
variable {b c : Bindings ν} {doc : Document} {accessors : AccessorTable} {els : List ElementId}
  {names : List String}

/-- The references of other elements hold what they held. -/
theorem read_other (h : Rereads b doc accessors els c names) (separate : b.Separate)
    {r : Reference} (mem : r ∈ b.references) (other : r.element ∉ els) :
    c.read r.slot = b.read r.slot := by
  apply h.kept
  intro r' mem' there shared
  exact other (separate.eq_of_slot mem' mem shared ▸ there)

/-- A reference of a name that has not changed holds what it held. -/
theorem read_of_not_mem (h : Rereads b doc accessors els c names) (separate : b.Separate)
    {r : Reference} (mem : r ∈ b.references) (same : r.name ∉ names ∨ r.element ∉ els) :
    c.read r.slot = b.read r.slot := by
  rcases same with unnamed | other
  · by_cases there : r.element ∈ els
    · refine (h.stable r mem).resolve_right fun differs => unnamed ?_
      have found := List.mem_filterMap.mpr ⟨_, there, reference?_of_mem separate.placed mem⟩
      rw [h.names]
      exact List.mem_map_of_mem (List.mem_filter.mpr ⟨found, by simp [differs]⟩)
    · exact h.read_other separate mem there
  · exact h.read_other separate mem other

theorem separate (h : Rereads b doc accessors els c names) (separate : b.Separate) : c.Separate :=
  separate.of_eq h.size h.references h.groups

/-- What is not about references and slots does not matter before. -/
theorem of_sources {a : Bindings ν} (h : Rereads b doc accessors els c names)
    (same : SameSources a b) : Rereads a doc accessors els c names where
  references := h.references.trans same.references
  groups := h.groups.trans same.groups
  size := h.size.trans same.size
  kept id free := (h.kept id (same.references ▸ free)).trans (same.reads id)
  fresh r mem := h.fresh r (same.references ▸ mem)
  stable r mem := same.reads r.slot ▸ h.stable r (same.references ▸ mem)
  names := by
    rw [h.names]
    exact changedNames_congr same.references (fun r _ _ => same.reads r.slot) fun _ _ _ => rfl

theorem reread (separate : b.Separate) {r : Reference} (mem : r ∈ b.references) :
    Rereads b doc accessors [r.element] (b.reread doc accessors r).1
      (if (b.reread doc accessors r).2 then [r.name] else []) := by
  obtain ⟨noted, notes, same⟩ := b.reread_eq doc accessors r
  have sources := SameSources.notes notes
  rw [same]
  generalize read : accessors.getTyped doc r.element r.type = value
  have there : noted.Has (.slot r.slot) :=
    (separate.placed.references r mem).mono (Nat.le_of_eq sources.size.symm)
  refine ⟨?_, ?_, ?_, fun id free => ?_, fun r' mem' own => ?_, fun r' _ => ?_, ?_⟩
  · exact (noted.references_write r.slot value).trans sources.references
  · exact (noted.groups_write r.slot value).trans sources.groups
  · exact (noted.size_write r.slot value).trans sources.size
  · have other := free r mem (List.mem_singleton_self _)
    rw [read_write, if_neg fun both => other both.1]
    exact sources.reads id
  · obtain rfl := separate.eq_of_element mem' mem (List.mem_singleton.mp own)
    rw [read]
    exact read_write_self there value
  · rw [read_write, sources.reads, sources.reads]
    split
    · next stored => exact .inr (stored.1 ▸ stored.2.2)
    · exact .inl rfl
  · have inside : r.slot.index < noted.slots.size := there
    unfold changedNames
    rw [List.filterMap_cons, reference?_of_mem separate.placed mem, List.filterMap_nil,
      changed_write, sources.reads]
    cases agrees : b.read r.slot == value with
    | true => simp [read_write, sources.reads, agrees]
    | false => simp [read_write, sources.reads, agrees, inside]

/-- An element without a reference is passed over. -/
theorem none {el : ElementId} (separate : b.Separate) (absent : b.reference? el = none) :
    Rereads b doc accessors [el] b [] := by
  refine ⟨rfl, rfl, rfl, fun _ _ => rfl, fun r mem own => ?_, fun _ _ => .inl rfl, ?_⟩
  · rw [← List.mem_singleton.mp own, reference?_of_mem separate.placed mem] at absent
    cases absent
  · unfold changedNames
    rw [List.filterMap_cons, absent]
    rfl

/-- Elements are read again one after the other. -/
theorem cons {c d : Bindings ν} {el : ElementId} {more : List String} (separate : b.Separate)
    (first : Rereads b doc accessors [el] c names) (rest : Rereads c doc accessors els d more)
    (new : el ∉ els) : Rereads b doc accessors (el :: els) d (names ++ more) := by
  have stays : ∀ r ∈ b.references, r.element ∈ [el] → d.read r.slot = c.read r.slot := by
    intro r mem own
    rw [← List.mem_singleton.mp own] at new
    exact rest.read_other (first.separate separate) (first.references ▸ mem) new
  have waits : ∀ r ∈ b.references, r.element ∈ els → c.read r.slot = b.read r.slot := by
    intro r mem there
    refine first.read_other separate mem fun own => new ?_
    exact List.mem_singleton.mp own ▸ there
  refine ⟨rest.references.trans first.references, rest.groups.trans first.groups,
    rest.size.trans first.size, fun id free => ?_, fun r mem there => ?_, fun r mem => ?_, ?_⟩
  · have later := rest.kept id fun r mem there =>
      free r (first.references ▸ mem) (List.mem_cons_of_mem _ there)
    refine later.trans (first.kept id fun r mem own => free r mem ?_)
    exact List.mem_cons.mpr (.inl (List.mem_singleton.mp own))
  · rcases List.mem_cons.mp there with own | there
    · have own := List.mem_singleton.mpr own
      rw [stays r mem own]
      exact first.fresh r mem own
    · exact rest.fresh r (first.references ▸ mem) there
  · by_cases own : r.element ∈ [el]
    · rw [stays r mem own]
      exact first.stable r mem
    · rw [← first.read_other separate mem own]
      exact rest.stable r (first.references ▸ mem)
  · have split : b.changedNames d (el :: els) = b.changedNames d [el] ++ b.changedNames d els := by
      unfold changedNames
      rw [← List.singleton_append, List.filterMap_append, List.filter_append, List.map_append]
    rw [split, changedNames_congr rfl (fun _ _ _ => rfl) stays, ← first.names, rest.names,
      changedNames_congr first.references waits fun _ _ _ => rfl]

end Rereads

theorem rereads_rereadEach {b : Bindings ν} (separate : b.Separate) (doc : Document)
    (accessors : AccessorTable) {els : List ElementId} (distinct : els.Nodup) :
    Rereads b doc accessors els (b.rereadEach doc accessors els).1
      (b.rereadEach doc accessors els).2 := by
  induction els generalizing b with
  | nil =>
    exact ⟨rfl, rfl, rfl, fun _ _ => rfl, fun _ _ none => absurd none List.not_mem_nil,
      fun _ _ => .inl rfl, rfl⟩
  | cons el rest ih =>
    obtain ⟨new, others⟩ := List.nodup_cons.mp distinct
    unfold rereadEach
    cases found : b.reference? el with
    | none => exact (Rereads.none separate found).cons separate (ih separate others) new
    | some r =>
      obtain rfl := element_of_reference? found
      have first : Rereads b doc accessors _ _ _ := .reread separate (mem_of_reference? found)
      have both := first.cons separate (ih (first.separate separate) others) new
      dsimp only
      cases changed : (b.reread doc accessors r).2 with
      | true =>
        rw [changed] at both
        exact both
      | false =>
        rw [changed] at both
        exact both

/-- The references of an element and of those above it are read again. -/
theorem rereads_referencesChanged {b : Bindings ν} (separate : b.Separate) {doc : Document}
    (rooted : doc.Rooted) (accessors : AccessorTable) (target : ElementId) :
    Rereads b doc accessors (target :: doc.ancestors target)
      (b.referencesChanged doc accessors target).1 (b.referencesChanged doc accessors target).2 :=
  rereads_rereadEach separate doc accessors (rooted.nodup_ancestors target)

/-- After a change at one element of what is read there, reading again what stands at it and above
it makes all references truthful again. The names are those of the references whose values changed,
from the element outwards. -/
theorem truthful_referencesChanged {b : Bindings ν} {doc doc' : Document} {el : ElementId}
    (rooted : doc.Rooted) (separate : b.Separate) (truthful : b.Truthful doc .builtin)
    (tree : doc.SameTree doc')
    (elsewhere : ∀ other, other ≠ el → doc'.element? other = doc.element? other) :
    let c := (b.referencesChanged doc' .builtin el).1
    c.references = b.references ∧ c.Truthful doc' .builtin ∧
      (b.referencesChanged doc' .builtin el).2 =
        (((el :: doc'.ancestors el).filterMap b.reference?).filter
          fun r => !(b.read r.slot == c.read r.slot)).map (·.name) ∧
      ∀ r ∈ b.references, (b.read r.slot == c.read r.slot) = false →
        r.element ∈ el :: doc'.ancestors el := by
  intro c
  have rooted' := tree.rooted rooted
  have rereads := rereads_referencesChanged separate rooted' .builtin el
  have kept : ∀ r ∈ b.references, r.element ∉ el :: doc'.ancestors el →
      c.read r.slot = b.read r.slot := fun r => rereads.read_other separate
  refine ⟨rereads.references, fun r mem => ?_, rereads.names, fun r mem differs => ?_⟩
  · rw [rereads.references] at mem
    by_cases path : r.element ∈ el :: doc'.ancestors el
    · exact rereads.fresh r mem path
    · have unread : ∀ other ∈ r.element :: doc.descendants r.element,
          doc'.element? other = doc.element? other := by
        intro other there
        refine elsewhere other fun same => path ?_
        subst same
        rw [← tree.descendants] at there
        exact rooted'.mem_path_iff.mp there
      rw [kept r mem path, AccessorTable.getTyped_of_element? tree unread]
      exact truthful r mem
  · by_contra other
    rw [kept r mem other, ReflBEq.rfl] at differs
    cases differs

/-- A radio group with a reference, whose second button has a reference of its own. -/
def choiceForm : Document :=
  (Form.addRadioGroup Form.new "choice" ["a", "b"]).1.setAttribute ⟨4⟩ Form.referenceAttribute
    "second"

def choiceBindings : Bindings Unit :=
  ((Bindings.empty.register choiceForm .builtin .standard ⟨2⟩).1.register choiceForm .builtin
    .standard ⟨4⟩).1

theorem allotted_choiceBindings : choiceBindings.Allotted :=
  (Allotted.start.register choiceForm .builtin .standard ⟨2⟩).register choiceForm .builtin
    .standard ⟨4⟩

/-- To check the second button changes its own value and that of the group. -/
theorem truthful_referencesChanged_choiceMade :
    let checked := choiceForm.setChecked ⟨4⟩ true
    let c := (choiceBindings.referencesChanged checked .builtin ⟨4⟩).1
    choiceBindings.Truthful choiceForm .builtin ∧ c.Truthful checked .builtin ∧
      (choiceBindings.referencesChanged checked .builtin ⟨4⟩).2 = ["second", "choice"] := by
  intro checked c
  have rooted : choiceForm.Rooted := by decide +kernel
  have truthful : choiceBindings.Truthful choiceForm .builtin := by
    unfold Truthful
    decide +kernel
  have tree : choiceForm.SameTree checked := choiceForm.sameTree_modify ⟨4⟩ _
  have elsewhere : ∀ other, other ≠ ⟨4⟩ → checked.element? other = choiceForm.element? other := by
    intro other different
    exact (choiceForm.element?_modify ⟨4⟩ other _).trans (if_neg different.symm)
  have holds := truthful_referencesChanged rooted allotted_choiceBindings.separate truthful tree
    elsewhere
  exact ⟨truthful, holds.2.1, by decide +kernel⟩

end FormDependencies.Bindings
