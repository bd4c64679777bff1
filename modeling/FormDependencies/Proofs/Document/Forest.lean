import FormDependencies.Document.Edit

/-!
Documents in order: every element stands in the forest once, and so the elements above an element
and those below it agree. Whatever the host does keeps a document in order.
-/

namespace FormDependencies

deriving instance DecidableEq for Element
deriving instance DecidableEq for Forest
deriving instance DecidableEq for Document

namespace Forest

/-! ## Above and below -/

theorem below?_eq_none {f : Forest} {el : ElementId} :
    f.below? el = none ↔ el ∉ f.elements := by
  rw [← f.isSome_below? el]
  simp

theorem above?_eq_none {f : Forest} {el : ElementId} :
    f.above? el = none ↔ el ∉ f.elements := by
  rw [← f.isSome_above? el]
  simp

/-- An element with all that is below it, where it stands. -/
theorem sublist_below {f below : Forest} {el : ElementId} (found : f.below? el = some below) :
    (el :: below.elements).Sublist f.elements := by
  induction f with
  | nil => cases found
  | tree r under next ihb ihn =>
    unfold below? at found
    split at found
    · next own =>
      obtain rfl : under = below := Option.some.inj found
      rw [own]
      exact (List.sublist_append_left ..).cons_cons el
    · cases inside : under.below? el with
      | some g =>
        rw [inside] at found
        obtain rfl : g = below := Option.some.inj found
        exact ((ihb inside).trans (List.sublist_append_left ..)).cons r
      | none =>
        rw [inside] at found
        exact ((ihn found).trans (List.sublist_append_right ..)).cons r

theorem mem_of_mem_below {f : Forest} {top el : ElementId}
    (mem : el ∈ ((f.below? top).getD .nil).elements) : top ∈ f.elements ∧ el ∈ f.elements := by
  cases found : f.below? top with
  | none =>
    rw [found] at mem
    exact absurd mem List.not_mem_nil
  | some below =>
    rw [found] at mem
    have sublist := sublist_below found
    exact ⟨sublist.subset List.mem_cons_self, sublist.subset (List.mem_cons_of_mem _ mem)⟩

theorem mem_of_mem_above {f : Forest} {top el : ElementId}
    (mem : top ∈ (f.above? el).getD []) : top ∈ f.elements := by
  induction f with
  | nil => exact absurd mem List.not_mem_nil
  | tree r under next ihb ihn =>
    unfold above? at mem
    split at mem
    · exact absurd mem List.not_mem_nil
    · cases inside : under.above? el with
      | some above =>
        rw [inside] at mem ihb
        rcases List.mem_append.mp mem with mem | mem
        · exact List.mem_cons_of_mem _ (List.mem_append_left _ (ihb mem))
        · exact List.mem_singleton.mp mem ▸ List.mem_cons_self
      | none =>
        rw [inside] at mem
        exact List.mem_cons_of_mem _ (List.mem_append_right _ (ihn mem))

section
variable {r : ElementId} {under next : Forest}

theorem mem_below_tree (distinct : (tree r under next).elements.Nodup) {top el : ElementId} :
    el ∈ (((tree r under next).below? top).getD .nil).elements ↔
      r = top ∧ el ∈ under.elements ∨ el ∈ ((under.below? top).getD .nil).elements ∨
        el ∈ ((next.below? top).getD .nil).elements := by
  obtain ⟨fresh, rest⟩ := List.nodup_cons.mp distinct
  obtain ⟨left, right, apart⟩ := List.nodup_append.mp rest
  rw [below?]
  by_cases own : r = top
  · subst own
    have notUnder : r ∉ under.elements := fun mem => fresh (List.mem_append_left _ mem)
    have notNext : r ∉ next.elements := fun mem => fresh (List.mem_append_right _ mem)
    simp [below?_eq_none.mpr notUnder, below?_eq_none.mpr notNext, elements]
  · rw [if_neg own]
    cases inside : under.below? top with
    | some g =>
      have there : top ∈ under.elements := (under.isSome_below? top).mp (by rw [inside]; rfl)
      have notNext : top ∉ next.elements := fun mem => apart top there top mem rfl
      simp [own, below?_eq_none.mpr notNext, elements]
    | none => simp [own, elements]

theorem mem_above_tree (distinct : (tree r under next).elements.Nodup) {top el : ElementId} :
    top ∈ ((tree r under next).above? el).getD [] ↔
      r = top ∧ el ∈ under.elements ∨ top ∈ (under.above? el).getD [] ∨
        top ∈ (next.above? el).getD [] := by
  obtain ⟨fresh, rest⟩ := List.nodup_cons.mp distinct
  obtain ⟨left, right, apart⟩ := List.nodup_append.mp rest
  rw [above?]
  by_cases own : r = el
  · subst own
    have notUnder : r ∉ under.elements := fun mem => fresh (List.mem_append_left _ mem)
    have notNext : r ∉ next.elements := fun mem => fresh (List.mem_append_right _ mem)
    simp [above?_eq_none.mpr notUnder, above?_eq_none.mpr notNext, notUnder]
  · rw [if_neg own]
    cases inside : under.above? el with
    | some above =>
      have there : el ∈ under.elements := (under.isSome_above? el).mp (by rw [inside]; rfl)
      have notNext : el ∉ next.elements := fun mem => apart el there el mem rfl
      simp [above?_eq_none.mpr notNext, there, or_comm, eq_comm]
    | none => simp [above?_eq_none.mp inside]

end

/-- In a forest without repetition one element is above another exactly when the other is below
it. -/
theorem mem_above_iff {f : Forest} (distinct : f.elements.Nodup) {top el : ElementId} :
    top ∈ (f.above? el).getD [] ↔ el ∈ ((f.below? top).getD .nil).elements := by
  induction f with
  | nil => simp [above?, below?, elements]
  | tree r under next ihb ihn =>
    obtain ⟨left, right, -⟩ := List.nodup_append.mp (List.nodup_cons.mp distinct).2
    rw [mem_above_tree distinct, mem_below_tree distinct, ihb left, ihn right]

/-! ## Moving trees -/

theorem sublist_erase (f : Forest) (el : ElementId) :
    (f.erase el).elements.Sublist f.elements := by
  induction f with
  | nil => exact List.Sublist.refl _
  | tree r under next ihb ihn =>
    unfold erase
    split
    · exact (ihn.trans (List.sublist_append_right ..)).cons r
    · exact (ihb.append ihn).cons_cons r

/-- What is below an element goes with it. -/
theorem not_mem_below_of_mem_erase {f : Forest} (distinct : f.elements.Nodup)
    {el other : ElementId} (mem : other ∈ (f.erase el).elements) :
    other ∉ ((f.below? el).getD .nil).elements := by
  induction f with
  | nil => exact absurd mem List.not_mem_nil
  | tree r under next ihb ihn =>
    obtain ⟨fresh, rest⟩ := List.nodup_cons.mp distinct
    obtain ⟨left, right, apart⟩ := List.nodup_append.mp rest
    have inNext := (next.sublist_erase el).subset
    have inUnder := (under.sublist_erase el).subset
    rw [mem_below_tree distinct]
    unfold erase at mem
    rintro (⟨rfl, there⟩ | below | below)
    · rw [if_pos rfl] at mem
      exact apart other there other (inNext mem) rfl
    · obtain ⟨top, there⟩ := mem_of_mem_below below
      have different : r ≠ el := fun same => fresh (List.mem_append_left _ (same ▸ top))
      rw [if_neg different] at mem
      rcases List.mem_cons.mp mem with rfl | mem
      · exact fresh (List.mem_append_left _ there)
      · rcases List.mem_append.mp mem with mem | mem
        · exact ihb left mem below
        · exact apart other there other (inNext mem) rfl
    · obtain ⟨top, there⟩ := mem_of_mem_below below
      have different : r ≠ el := fun same => fresh (List.mem_append_right _ (same ▸ top))
      rw [if_neg different] at mem
      rcases List.mem_cons.mp mem with rfl | mem
      · exact fresh (List.mem_append_right _ there)
      · rcases List.mem_append.mp mem with mem | mem
        · exact apart other (inUnder mem) other there rfl
        · exact ihn right mem below

theorem modifyBelow_eq_self {f : Forest} {parent : ElementId} (change : Forest → Forest)
    (absent : parent ∉ f.elements) : f.modifyBelow parent change = f := by
  induction f with
  | nil => rfl
  | tree r under next ihb ihn =>
    simp only [elements, List.mem_cons, List.mem_append, not_or] at absent
    rw [modifyBelow, if_neg (Ne.symm absent.1), ihb absent.2.1, ihn absent.2.2]

/-- A row that is put among the children of an element is put there once. -/
theorem perm_modifyBelow {f : Forest} (distinct : f.elements.Nodup) {parent : ElementId}
    (there : parent ∈ f.elements) {change : Forest → Forest} {added : List ElementId}
    (adds : ∀ g, (change g).elements.Perm (added ++ g.elements)) :
    (f.modifyBelow parent change).elements.Perm (added ++ f.elements) := by
  induction f with
  | nil => exact absurd there List.not_mem_nil
  | tree r under next ihb ihn =>
    obtain ⟨fresh, rest⟩ := List.nodup_cons.mp distinct
    obtain ⟨left, right, apart⟩ := List.nodup_append.mp rest
    unfold modifyBelow elements
    refine List.Perm.trans ?_ List.perm_middle.symm
    apply List.Perm.cons r
    rw [← List.append_assoc]
    by_cases own : r = parent
    · have absent : parent ∉ next.elements := fun mem => fresh (own ▸ List.mem_append_right _ mem)
      rw [if_pos own, modifyBelow_eq_self change absent]
      exact (adds under).append_right _
    · rw [if_neg own]
      rcases List.mem_append.mp ((List.mem_cons.mp there).resolve_left (Ne.symm own)) with mem | mem
      · have absent : parent ∉ next.elements := fun mem' => apart parent mem parent mem' rfl
        rw [modifyBelow_eq_self change absent]
        exact (ihb left mem).append_right _
      · have absent : parent ∉ under.elements := fun mem' => apart parent mem' parent mem rfl
        rw [modifyBelow_eq_self change absent]
        apply ((ihn right mem).append_left under.elements).trans
        rw [← List.append_assoc]
        exact List.perm_append_comm.append_right _

theorem perm_insertBefore (added row : Forest) (reference : ElementId) :
    (insertBefore added reference row).elements.Perm (added.elements ++ row.elements) := by
  induction row with
  | nil => simp [insertBefore, elements]
  | tree r under next _ ihn =>
    unfold insertBefore
    split
    · rw [elements_append]
    · simp only [elements]
      refine List.Perm.trans ?_ List.perm_middle.symm
      refine List.Perm.cons r ((ihn.append_left under.elements).trans ?_)
      rw [← List.append_assoc, ← List.append_assoc]
      exact List.perm_append_comm.append_right _

end Forest

/-! ## Documents -/

namespace Document

/-- The root is there, and every element stands in the forest once at most. -/
structure WellFormed (doc : Document) : Prop where
  root : doc.contains .root
  distinct : doc.forest.elements.Nodup
  created : ∀ el ∈ doc.forest.elements, el.number < doc.size

theorem WellFormed.new : Document.new.WellFormed :=
  ⟨rfl, by decide, by decide⟩

/-- Attached elements are the root and all that is below it. -/
theorem WellFormed.isAttached_iff {doc : Document} (h : doc.WellFormed) (el : ElementId) :
    doc.isAttached el ↔ el ∈ ElementId.root :: doc.descendants .root := by
  have above : .root ∈ (doc.forest.above? el).getD [] ↔
      el ∈ ((doc.forest.below? .root).getD .nil).elements := Forest.mem_above_iff h.distinct
  unfold isAttached isWithin ancestors descendants below
  simp only [Bool.or_eq_true, Bool.and_eq_true, beq_iff_eq, List.contains_iff_mem, above,
    List.mem_cons]
  refine or_congr_left ⟨And.left, fun same => ⟨same, same ▸ h.root⟩⟩

/-- What an element and all below it are, apart from the rest. -/
theorem WellFormed.erase {doc : Document} (h : doc.WellFormed) {child : ElementId}
    (there : doc.contains child) :
    (child :: (doc.below child).elements ++ (doc.forest.erase child).elements).Nodup ∧
      ∀ el ∈ child :: (doc.below child).elements ++ (doc.forest.erase child).elements,
        el.number < doc.size := by
  have rest := doc.forest.sublist_erase child
  have subtree : (child :: (doc.below child).elements).Nodup ∧
      ∀ el ∈ child :: (doc.below child).elements, el.number < doc.size := by
    unfold below
    cases found : doc.forest.below? child with
    | none =>
      refine ⟨List.pairwise_singleton .., fun el mem => ?_⟩
      rw [List.mem_singleton.mp mem]
      exact of_decide_eq_true there
    | some below =>
      have sublist := Forest.sublist_below found
      exact ⟨h.distinct.sublist sublist, fun el mem => h.created el (sublist.subset mem)⟩
  refine ⟨List.nodup_append.mpr ⟨subtree.1, h.distinct.sublist rest, ?_⟩, fun el mem => ?_⟩
  · rintro el mem other mem' rfl
    rcases List.mem_cons.mp mem with rfl | mem
    · exact Forest.not_mem_elements_erase doc.forest el mem'
    · exact Forest.not_mem_below_of_mem_erase h.distinct mem' mem
  · rcases List.mem_append.mp mem with mem | mem
    · exact subtree.2 el mem
    · exact h.created el (rest.subset mem)

/-- A subtree that is moved stands in its new place only. -/
theorem WellFormed.move {doc : Document} (h : doc.WellFormed) {parent child : ElementId}
    (there : doc.contains child) {place : Forest → Forest → Forest}
    (adds : ∀ added g, (place added g).elements.Perm (added.elements ++ g.elements)) :
    { doc with forest := doc.moved parent child place }.WellFormed := by
  obtain ⟨distinct, created⟩ := h.erase there
  have rest : (doc.forest.erase child).elements.Nodup :=
    h.distinct.sublist (doc.forest.sublist_erase child)
  by_cases target : parent ∈ (doc.forest.erase child).elements
  · have perm : (doc.moved parent child place).elements.Perm
        (child :: (doc.below child).elements ++ (doc.forest.erase child).elements) := by
      apply Forest.perm_modifyBelow rest target
      intro g
      have put := adds (.single child (doc.below child)) g
      rwa [Forest.elements_single] at put
    exact ⟨h.root, perm.nodup_iff.mpr distinct, fun el mem => created el (perm.subset mem)⟩
  · have same : doc.moved parent child place = doc.forest.erase child :=
      Forest.modifyBelow_eq_self _ target
    exact ⟨h.root, same ▸ rest, fun el mem =>
      created el (List.mem_append_right _ (show el ∈ (doc.forest.erase child).elements from
        same ▸ mem))⟩

/-- Documents of the same shape are in order together. -/
theorem WellFormed.of_eq {doc doc' : Document} (h : doc.WellFormed)
    (forest : doc'.forest = doc.forest) (size : doc'.size = doc.size) : doc'.WellFormed := by
  refine ⟨?_, forest ▸ h.distinct, fun el mem => ?_⟩
  · unfold contains
    rw [size]
    exact h.root
  · rw [size]
    exact h.created el (forest ▸ mem)

theorem size_modify (doc : Document) (el : ElementId) (change : Element → Element) :
    (doc.modify el change).size = doc.size :=
  Array.size_modify ..

section
variable {doc : Document}

theorem WellFormed.modify (h : doc.WellFormed) (el : ElementId) (change : Element → Element) :
    (doc.modify el change).WellFormed :=
  h.of_eq rfl (doc.size_modify el change)

theorem WellFormed.create (h : doc.WellFormed) (tag : String) : (doc.create tag).1.WellFormed := by
  have size : (doc.create tag).1.size = doc.size + 1 := Array.size_push ..
  have elements : (doc.create tag).1.forest.elements = doc.forest.elements ++ [⟨doc.size⟩] :=
    Forest.elements_append ..
  refine ⟨decide_eq_true (Nat.lt_of_lt_of_eq (Nat.succ_pos _) size.symm), ?_, fun el mem => ?_⟩
  · rw [elements]
    refine List.nodup_append.mpr ⟨h.distinct, List.pairwise_singleton .., ?_⟩
    rintro el mem other mem' rfl
    have old := h.created el mem
    rw [List.mem_singleton.mp mem'] at old
    exact Nat.lt_irrefl _ old
  · rw [elements] at mem
    rw [size]
    rcases List.mem_append.mp mem with mem | mem
    · exact Nat.lt_succ_of_lt (h.created el mem)
    · rw [List.mem_singleton.mp mem]
      exact Nat.lt_succ_self _

theorem WellFormed.append (h : doc.WellFormed) (parent child : ElementId) :
    (doc.append parent child).1.WellFormed := by
  unfold Document.append
  split
  · next may =>
    simp only [canAdopt, Bool.and_eq_true] at may
    apply h.move may.1.1.2
    intro added g
    rw [Forest.elements_append]
    exact List.perm_append_comm
  · exact h

theorem WellFormed.insertBefore (h : doc.WellFormed) (parent child reference : ElementId) :
    (doc.insertBefore parent child reference).1.WellFormed := by
  unfold Document.insertBefore
  split
  · next may =>
    simp only [canAdopt, Bool.and_eq_true] at may
    exact h.move may.1.1.1.2 fun added g => Forest.perm_insertBefore added g reference
  · exact h

theorem WellFormed.remove (h : doc.WellFormed) (el : ElementId) :
    (doc.remove el).1.WellFormed := by
  unfold Document.remove
  split
  · next placed =>
    have there : doc.contains el := by
      have found : (doc.forest.above? el).isSome := by
        cases above : doc.forest.above? el with
        | none => simp [parent?, ancestors, above] at placed
        | some chain => rfl
      exact decide_eq_true (h.created el ((doc.forest.isSome_above? el).mp found))
    obtain ⟨distinct, created⟩ := h.erase there
    have elements : ((doc.forest.erase el).append (.single el (doc.below el))).elements =
        (doc.forest.erase el).elements ++ el :: (doc.below el).elements := by
      rw [Forest.elements_append, Forest.elements_single]
    have perm : ((doc.forest.erase el).append (.single el (doc.below el))).elements.Perm
        (el :: (doc.below el).elements ++ (doc.forest.erase el).elements) :=
      elements ▸ List.perm_append_comm
    exact ⟨h.root, perm.nodup_iff.mpr distinct, fun other mem => created other (perm.subset mem)⟩
  · exact h

theorem WellFormed.trigger (h : doc.WellFormed) (el : ElementId) (kind : EventKind) :
    (doc.trigger el kind).WellFormed := by
  unfold Document.trigger
  split
  · exact h.of_eq rfl rfl
  · exact h

theorem WellFormed.markReady (h : doc.WellFormed) (el : ElementId) :
    (doc.markReady el).WellFormed := by
  unfold Document.markReady
  split
  · exact (h.modify el _).trigger el .componentReady
  · exact h

theorem WellFormed.nextEvent (h : doc.WellFormed) : doc.nextEvent.1.WellFormed := by
  unfold Document.nextEvent
  split
  · exact h
  · exact h.of_eq rfl rfl

/-- Whatever the host does keeps a document in order. -/
theorem WellFormed.edit (h : doc.WellFormed) (edit : Edit) : (doc.edit edit).WellFormed := by
  cases edit with
  | create tag => exact h.create tag
  | append parent child => exact h.append parent child
  | insertBefore parent child reference => exact h.insertBefore parent child reference
  | remove el => exact h.remove el
  | setAttribute el => exact h.modify el _
  | removeAttribute el => exact h.modify el _
  | setChecked el => exact h.modify el _
  | setValue el => exact h.modify el _
  | setPending el => exact h.modify el _
  | markReady el => exact h.markReady el
  | trigger el kind => exact h.trigger el kind
  | nextEvent => exact h.nextEvent
  | takeEvents => exact h.of_eq rfl rfl

end

theorem WellFormed.editAll {doc : Document} (h : doc.WellFormed) (edits : List Edit) :
    (doc.editAll edits).WellFormed := by
  induction edits generalizing doc with
  | nil => exact h
  | cons edit rest ih => exact ih (h.edit edit)

structure SameTree (doc doc' : Document) : Prop where
  forest : doc'.forest = doc.forest
  size : doc'.size = doc.size

namespace SameTree
variable {doc doc' doc'' : Document}

theorem trans (first : SameTree doc doc') (second : SameTree doc' doc'') : SameTree doc doc'' :=
  ⟨second.forest.trans first.forest, second.size.trans first.size⟩

theorem isAttached (h : SameTree doc doc') (el : ElementId) :
    doc'.isAttached el = doc.isAttached el := by
  unfold Document.isAttached isWithin contains ancestors
  rw [h.forest, h.size]

theorem ancestors (h : SameTree doc doc') (el : ElementId) :
    doc'.ancestors el = doc.ancestors el := by
  unfold Document.ancestors
  rw [h.forest]

theorem descendants (h : SameTree doc doc') (el : ElementId) :
    doc'.descendants el = doc.descendants el := by
  unfold Document.descendants below
  rw [h.forest]

end SameTree

end Document

end FormDependencies
