import FormDependencies.Proofs.Document.Forest

/-!
Attached elements. The root stands above everything that it is the root of, so that an element is
attached as soon as one above it is, and all elements above an attached one are attached.
-/

namespace FormDependencies

namespace Forest

theorem mem_elements_of_mem_roots {f : Forest} {r : ElementId} (mem : r ∈ f.roots) :
    r ∈ f.elements := by
  induction f with
  | nil => exact absurd mem List.not_mem_nil
  | tree top under next _ ih =>
    rcases List.mem_cons.mp mem with rfl | mem
    · exact List.mem_cons_self
    · exact List.mem_cons_of_mem _ (List.mem_append_right _ (ih mem))

/-- Nothing is above a root. -/
theorem above?_of_mem_roots {f : Forest} (distinct : f.elements.Nodup) {r : ElementId}
    (mem : r ∈ f.roots) : f.above? r = some [] := by
  induction f with
  | nil => exact absurd mem List.not_mem_nil
  | tree top under next _ ih =>
    obtain ⟨fresh, rest⟩ := List.nodup_cons.mp distinct
    obtain ⟨-, right, apart⟩ := List.nodup_append.mp rest
    unfold above?
    rcases List.mem_cons.mp mem with rfl | mem
    · exact if_pos rfl
    · have there := mem_elements_of_mem_roots mem
      have other : top ≠ r := fun same => fresh (same ▸ List.mem_append_right _ there)
      have absent : under.above? r = none :=
        above?_eq_none.mpr fun mem' => apart r mem' r there rfl
      rw [if_neg other, absent]
      exact ih right mem

/-- What is above an element that is above another is what comes after it there. -/
theorem above?_of_append {f : Forest} (distinct : f.elements.Nodup) {el top : ElementId}
    {before after : List ElementId} (found : f.above? el = some (before ++ top :: after)) :
    f.above? top = some after := by
  induction f generalizing before after with
  | nil => cases found
  | tree r under next ihb ihn =>
    obtain ⟨fresh, rest⟩ := List.nodup_cons.mp distinct
    obtain ⟨left, right, apart⟩ := List.nodup_append.mp rest
    unfold above? at found
    split at found
    · simp at found
    · cases inside : under.above? el with
      | some above =>
        rw [inside] at found
        have chain : above ++ [r] = before ++ top :: after := Option.some.inj found
        rcases List.eq_nil_or_concat after with rfl | ⟨tail, last, rfl⟩
        · obtain ⟨-, rfl⟩ := List.append_inj' chain rfl |>.imp_right List.singleton_inj.mp
          unfold above?
          exact if_pos rfl
        · rw [List.concat_eq_append, ← List.cons_append, ← List.append_assoc] at chain
          obtain ⟨rfl, same⟩ := List.append_inj' chain rfl
          obtain rfl := List.singleton_inj.mp same
          have there : top ∈ under.elements := by
            have above : top ∈ (under.above? el).getD [] := by simp [inside]
            exact mem_of_mem_above above
          have other : r ≠ top := fun same => fresh (same ▸ List.mem_append_left _ there)
          unfold above?
          rw [if_neg other, ihb left inside, List.concat_eq_append]
      | none =>
        rw [inside] at found
        have found : next.above? el = some (before ++ top :: after) := found
        have there : top ∈ next.elements := by
          have above : top ∈ (next.above? el).getD [] := by simp [found]
          exact mem_of_mem_above above
        have other : r ≠ top := fun same => fresh (same ▸ List.mem_append_right _ there)
        have absent : under.above? top = none :=
          above?_eq_none.mpr fun mem => apart top mem top there rfl
        unfold above?
        rw [if_neg other, absent]
        exact ihn right found

theorem mem_roots_erase {f : Forest} {r el : ElementId} (mem : r ∈ f.roots) (other : r ≠ el) :
    r ∈ (f.erase el).roots := by
  induction f with
  | nil => exact absurd mem List.not_mem_nil
  | tree top under next _ ih =>
    unfold erase
    rcases List.mem_cons.mp mem with rfl | mem
    · rw [if_neg other]
      exact List.mem_cons_self
    · split
      · exact ih mem
      · exact List.mem_cons_of_mem _ (ih mem)

@[simp] theorem roots_modifyBelow (f : Forest) (el : ElementId) (change : Forest → Forest) :
    (f.modifyBelow el change).roots = f.roots := by
  induction f with
  | nil => rfl
  | tree top under next _ ih => simp [modifyBelow, roots, ih]

end Forest

namespace Document

/-- A document in order whose root is not below anything. -/
structure Rooted (doc : Document) : Prop extends doc.WellFormed where
  top : .root ∈ doc.forest.roots

instance (doc : Document) : Decidable doc.Rooted :=
  decidable_of_iff
    (doc.contains .root ∧ doc.forest.elements.Nodup ∧
      (∀ el ∈ doc.forest.elements, el.number < doc.size) ∧ .root ∈ doc.forest.roots)
    ⟨fun ⟨root, distinct, created, top⟩ => ⟨⟨root, distinct, created⟩, top⟩,
      fun h => ⟨h.root, h.distinct, h.created, h.top⟩⟩

namespace Rooted
variable {doc : Document}

theorem ancestors_root (h : doc.Rooted) : doc.ancestors .root = [] := by
  unfold ancestors
  rw [Forest.above?_of_mem_roots h.distinct h.top]
  rfl

theorem mem_descendants_iff (h : doc.Rooted) {el top : ElementId} :
    el ∈ doc.descendants top ↔ top ∈ doc.ancestors el :=
  (Forest.mem_above_iff h.distinct).symm

theorem ancestors_of_append (h : doc.Rooted) {el top : ElementId} {before after : List ElementId}
    (chain : doc.ancestors el = before ++ top :: after) : doc.ancestors top = after := by
  unfold ancestors at chain ⊢
  cases found : doc.forest.above? el with
  | none =>
    rw [found] at chain
    simp at chain
  | some above =>
    rw [found] at chain
    rw [Forest.above?_of_append h.distinct (found.trans (congrArg some chain))]
    rfl

/-- Above an element stand its parent and all that is above the parent. -/
theorem ancestors_of_parent? (h : doc.Rooted) {el parent : ElementId}
    (placed : doc.parent? el = some parent) :
    doc.ancestors el = parent :: doc.ancestors parent := by
  cases chain : doc.ancestors el with
  | nil => simp [parent?, chain] at placed
  | cons top rest =>
    obtain rfl : top = parent := by simpa [parent?, chain] using placed
    rw [h.ancestors_of_append (show _ = [] ++ top :: rest from chain)]

theorem nodup_within (h : doc.Rooted) (top : ElementId) : (top :: doc.descendants top).Nodup := by
  unfold descendants below
  cases found : doc.forest.below? top with
  | none => exact List.pairwise_singleton ..
  | some below => exact h.distinct.sublist (Forest.sublist_below found)

/-- Of two elements with something below both, one is on the path upwards from the other. -/
theorem mem_descendants_of_common (h : doc.Rooted) {el other part : ElementId}
    (apart : other ∉ el :: doc.ancestors el) (mem : part ∈ doc.descendants el)
    (mem' : part ∈ doc.descendants other) : other ∈ doc.descendants el := by
  rw [h.mem_descendants_iff] at mem mem' ⊢
  obtain ⟨before, after, chain⟩ := List.append_of_mem mem
  have above := h.ancestors_of_append chain
  rw [chain] at mem'
  rcases List.mem_append.mp mem' with nearer | there
  · obtain ⟨first, last, split⟩ := List.append_of_mem nearer
    rw [split, List.append_assoc] at chain
    rw [h.ancestors_of_append chain]
    exact List.mem_append_right _ List.mem_cons_self
  · exact absurd (above.symm ▸ there) apart

/-- What is above an element is above all that is below it. -/
theorem ancestors_subset (h : doc.Rooted) {el top : ElementId} (mem : top ∈ doc.ancestors el) :
    doc.ancestors top ⊆ doc.ancestors el := by
  obtain ⟨before, after, chain⟩ := List.append_of_mem mem
  rw [h.ancestors_of_append chain, chain]
  intro other there
  simp [there]

/-- An element stands at or below another when that one is on its path upwards. -/
theorem mem_path_iff (h : doc.Rooted) {el top : ElementId} :
    el ∈ top :: doc.descendants top ↔ top ∈ el :: doc.ancestors el := by
  rw [List.mem_cons, List.mem_cons, h.mem_descendants_iff, eq_comm]

/-- No element is above itself, and none is twice above another. -/
theorem nodup_ancestors (h : doc.Rooted) (el : ElementId) : (el :: doc.ancestors el).Nodup := by
  generalize chain : doc.ancestors el = above
  induction above generalizing el with
  | nil => exact List.pairwise_singleton ..
  | cons top rest ih =>
    have first : doc.ancestors el = [] ++ top :: rest := chain
    have next := h.ancestors_of_append first
    refine List.nodup_cons.mpr ⟨fun mem => ?_, ih top next⟩
    obtain ⟨before, after, split⟩ := List.append_of_mem mem
    have again := h.ancestors_of_append (chain.trans split)
    rw [chain, split] at again
    have shorter := congrArg List.length again
    simp only [List.length_append, List.length_cons] at shorter
    omega

/-- What is below an element is not on its path upwards. -/
theorem not_mem_path (h : doc.Rooted) {el other : ElementId} (below : other ∈ doc.descendants el) :
    other ∉ el :: doc.ancestors el := by
  have above := h.mem_descendants_iff.mp below
  have fresh := (List.nodup_cons.mp (h.nodup_ancestors el)).1
  intro path
  rcases List.mem_cons.mp path with rfl | mem
  · exact fresh above
  · exact fresh (h.ancestors_subset mem above)

theorem isAttached_iff_root (h : doc.Rooted) {el : ElementId} :
    doc.isAttached el ↔ el = .root ∨ .root ∈ doc.ancestors el := by
  unfold isAttached isWithin
  simp only [Bool.or_eq_true, Bool.and_eq_true, beq_iff_eq, List.contains_iff_mem]
  apply or_congr_left
  constructor
  · exact And.left
  · rintro rfl
    exact ⟨rfl, h.root⟩

theorem contains_of_isAttached (h : doc.Rooted) {el : ElementId} (attached : doc.isAttached el) :
    doc.contains el := by
  rcases List.mem_cons.mp ((h.isAttached_iff el).mp attached) with rfl | below
  · exact h.root
  · exact decide_eq_true (h.created el (Forest.mem_of_mem_below below).2)

/-- All that is above an attached element is attached. -/
theorem isAttached_of_mem_ancestors (h : doc.Rooted) {el top : ElementId}
    (attached : doc.isAttached el) (mem : top ∈ doc.ancestors el) : doc.isAttached top := by
  rw [h.isAttached_iff_root] at attached ⊢
  rcases attached with rfl | above
  · rw [h.ancestors_root] at mem
    exact absurd mem List.not_mem_nil
  · obtain ⟨before, after, chain⟩ := List.append_of_mem mem
    rw [h.ancestors_of_append chain]
    rw [chain] at above
    rcases List.mem_append.mp above with above | above
    · -- the root would have something above it
      obtain ⟨first, last, split⟩ := List.append_of_mem above
      rw [split, List.append_assoc] at chain
      have none := h.ancestors_of_append chain
      rw [h.ancestors_root] at none
      simp at none
    · exact (List.mem_cons.mp above).imp_left Eq.symm

/-- All that is below an attached element is attached. -/
theorem isAttached_of_mem_descendants (h : doc.Rooted) {el top : ElementId}
    (attached : doc.isAttached top) (mem : el ∈ top :: doc.descendants top) :
    doc.isAttached el := by
  rcases List.mem_cons.mp mem with rfl | mem
  · exact attached
  · have above := h.mem_descendants_iff.mp mem
    rw [h.isAttached_iff_root] at attached ⊢
    rcases attached with rfl | attached
    · exact .inr above
    · exact .inr (h.ancestors_subset above attached)

theorem isWithin_of_mem_descendants (h : doc.Rooted) {el top : ElementId}
    (there : doc.contains el) (mem : el ∈ top :: doc.descendants top) : doc.isWithin el top := by
  unfold isWithin
  rcases List.mem_cons.mp mem with rfl | mem
  · simp [there]
  · simp [h.mem_descendants_iff.mp mem]

/-- An element within another is that one or below it. -/
theorem mem_descendants_of_isWithin (h : doc.Rooted) {el top : ElementId}
    (within : doc.isWithin el top) : el ∈ top :: doc.descendants top := by
  unfold isWithin at within
  simp only [Bool.or_eq_true, Bool.and_eq_true, beq_iff_eq, List.contains_iff_mem] at within
  rcases within with ⟨rfl, -⟩ | above
  · exact List.mem_cons_self
  · exact List.mem_cons_of_mem _ (h.mem_descendants_iff.mpr above)

theorem isWithin_iff (h : doc.Rooted) {el top : ElementId} (there : doc.contains el) :
    doc.isWithin el top ↔ el ∈ top :: doc.descendants top :=
  ⟨h.mem_descendants_of_isWithin, h.isWithin_of_mem_descendants there⟩

/-- What is below an element within a container is within the container. -/
theorem descendants_subset (h : doc.Rooted) {inner outer : ElementId}
    (within : doc.isWithin inner outer) :
    inner :: doc.descendants inner ⊆ outer :: doc.descendants outer := by
  intro el mem
  have inside := h.mem_descendants_of_isWithin within
  rcases List.mem_cons.mp mem with rfl | mem
  · exact inside
  · rcases List.mem_cons.mp inside with rfl | inside
    · exact List.mem_cons_of_mem _ mem
    · have above := h.mem_descendants_iff.mp mem
      have beyond := h.mem_descendants_iff.mp inside
      exact List.mem_cons_of_mem _ (h.mem_descendants_iff.mpr (h.ancestors_subset above beyond))

/-- What stands below an element within an attached container is within the container as well. -/
theorem isWithin_of_path (h : doc.Rooted) {el top target : ElementId}
    (attached : doc.isAttached top) (inside : el ∈ top :: doc.descendants top)
    (path : el ∈ target :: doc.ancestors target) : doc.isWithin target top := by
  have there := h.contains_of_isAttached (h.isAttached_of_mem_descendants attached inside)
  have within := h.isWithin_of_mem_descendants there inside
  have below := h.descendants_subset within (h.mem_path_iff.mpr path)
  have attached := h.isAttached_of_mem_descendants attached below
  exact h.isWithin_of_mem_descendants (h.contains_of_isAttached attached) below

/-! ## Edits -/

theorem mem_roots_moved (h : doc.Rooted) {parent child : ElementId}
    (may : doc.canAdopt parent child) (place : Forest → Forest → Forest) :
    .root ∈ (doc.moved parent child place).roots := by
  simp only [canAdopt, Bool.and_eq_true, bne_iff_ne] at may
  unfold moved
  rw [Forest.roots_modifyBelow]
  exact Forest.mem_roots_erase h.top may.1.2.symm

/-- Whatever the host does keeps the root where it is. -/
theorem edit (h : doc.Rooted) (edit : Edit) : (doc.edit edit).Rooted := by
  refine ⟨h.toWellFormed.edit edit, ?_⟩
  cases edit with
  | create tag =>
    simp only [Document.edit, create, Forest.roots_append]
    exact List.mem_append_left _ h.top
  | append parent child =>
    simp only [Document.edit, append]
    split
    · next may => exact h.mem_roots_moved may fun added row => row.append added
    · exact h.top
  | insertBefore parent child reference =>
    simp only [Document.edit, insertBefore]
    split
    · next may =>
      exact h.mem_roots_moved (Bool.and_eq_true_iff.mp may).1
        fun added => Forest.insertBefore added reference
    · exact h.top
  | remove el =>
    simp only [Document.edit, remove]
    split
    · next placed =>
      have other : .root ≠ el := by
        rintro rfl
        simp [parent?, h.ancestors_root] at placed
      rw [Forest.roots_append]
      exact List.mem_append_left _ (Forest.mem_roots_erase h.top other)
    · exact h.top
  | setAttribute => exact h.top
  | removeAttribute => exact h.top
  | setChecked => exact h.top
  | setValue => exact h.top
  | setPending => exact h.top
  | markReady el =>
    simp only [Document.edit, markReady, trigger]
    split
    · split
      · exact h.top
      · exact h.top
    · exact h.top
  | trigger el kind =>
    simp only [Document.edit, trigger]
    split
    · exact h.top
    · exact h.top
  | nextEvent =>
    simp only [Document.edit, nextEvent]
    split
    · exact h.top
    · exact h.top
  | takeEvents => exact h.top

theorem editAll (h : doc.Rooted) (edits : List Edit) : (doc.editAll edits).Rooted := by
  induction edits generalizing doc with
  | nil => exact h
  | cons edit rest ih => exact ih (h.edit edit)

theorem new : Document.new.Rooted :=
  ⟨.new, List.mem_singleton.mpr rfl⟩

end Rooted

theorem SameTree.rooted {doc doc' : Document} (h : SameTree doc doc') (rooted : doc.Rooted) :
    doc'.Rooted :=
  ⟨rooted.toWellFormed.of_eq h.forest h.size, h.forest ▸ rooted.top⟩

end Document

end FormDependencies
