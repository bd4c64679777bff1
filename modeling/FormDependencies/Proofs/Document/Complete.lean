import FormDependencies.Proofs.Document.Relocation
import Mathlib.Data.List.Perm.Subperm

/-!
Documents in which every element stands somewhere. An edit that moves an element takes it from the
children of one element and puts it among those of another, and changes no other children.
-/

namespace FormDependencies

def Edit.keepsTree : Edit → Bool
  | .create _ | .append .. | .insertBefore .. | .remove _ => false
  | _ => true

namespace Document

structure Complete (doc : Document) : Prop extends doc.Rooted where
  stands : ∀ el, doc.contains el → el ∈ doc.forest.elements

theorem contains_of_canAdopt (doc : Document) {parent child : ElementId}
    (may : doc.canAdopt parent child) : doc.contains child := by
  simp only [canAdopt, Bool.and_eq_true] at may
  exact may.1.1.2

section
variable {doc : Document} {parent child : ElementId}

namespace Complete

theorem contains_iff (h : doc.Complete) (el : ElementId) :
    doc.contains el ↔ el ∈ doc.forest.elements :=
  ⟨h.stands el, fun mem => decide_eq_true (h.created el mem)⟩

theorem contains_of_parent? (h : doc.Complete) {el : ElementId} (placed : (doc.parent? el).isSome) :
    doc.contains el := by
  apply (h.contains_iff el).mpr
  apply (doc.forest.isSome_above? el).mp
  unfold parent? ancestors at placed
  cases found : doc.forest.above? el with
  | none => simp [found] at placed
  | some above => rfl

theorem length_elements (h : doc.Complete) : doc.forest.elements.length ≤ doc.size := by
  have distinct : (doc.forest.elements.map ElementId.number).Nodup :=
    List.Pairwise.map _ (fun _ _ apart same => apart (congrArg ElementId.mk same)) h.distinct
  have bounded : doc.forest.elements.map ElementId.number ⊆ List.range doc.size := by
    intro number mem
    obtain ⟨el, there, rfl⟩ := List.mem_map.mp mem
    exact List.mem_range.mpr (h.created el there)
  simpa using (List.Nodup.subperm distinct bounded).length_le

theorem length_ancestors (h : doc.Complete) (el : ElementId) :
    (doc.ancestors el).length < doc.size := by
  refine Nat.lt_of_lt_of_le ?_ h.length_elements
  unfold ancestors
  cases found : doc.forest.above? el with
  | none => exact List.length_pos_of_mem (h.stands .root h.root)
  | some above => exact Forest.length_above found

/-- Less is above the parent of an element than above the element. -/
theorem length_ancestors_of_parent? (h : doc.Complete) {el parent : ElementId}
    (above : doc.parent? el = some parent) :
    (doc.ancestors parent).length < (doc.ancestors el).length := by
  rw [h.ancestors_of_parent? above]
  exact Nat.lt_succ_self _

/-- In the subtree of an element no other element has it as a child. -/
theorem filter_children_within (h : doc.Complete) {el : ElementId}
    (inside : el ∈ child :: doc.descendants child) :
    (doc.children el).filter (· != child) = doc.children el := by
  refine Forest.filter_of_not_mem fun mem => ?_
  have above : doc.parent? child = some el := (Forest.mem_children_iff h.distinct).mp mem
  have path := h.ancestors_of_parent? above
  rcases List.mem_cons.mp inside with rfl | below
  · exact (List.nodup_cons.mp (h.nodup_ancestors el)).1 (path ▸ List.mem_cons_self)
  · exact h.not_mem_path below (List.mem_cons_of_mem _ (path ▸ List.mem_cons_self))

/-! ## Subtrees that move -/

theorem below_eq (h : doc.Complete) (there : doc.contains child) :
    doc.forest.below? child = some (doc.below child) := by
  obtain ⟨below, found⟩ :=
    Option.isSome_iff_exists.mp ((doc.forest.isSome_below? child).mpr (h.stands child there))
  unfold Document.below
  rw [found]
  rfl

/-- Where an element is taken out, what is left and what is taken have all elements together. -/
theorem perm_erase (h : doc.Complete) (there : doc.contains child) :
    doc.forest.elements.Perm
      ((Forest.single child (doc.below child)).elements ++ (doc.forest.erase child).elements) := by
  rw [Forest.elements_single]
  exact Forest.perm_erase h.distinct (h.below_eq there)

theorem distinct_erase (h : doc.Complete) (there : doc.contains child) :
    ((Forest.single child (doc.below child)).elements ++
      (doc.forest.erase child).elements).Nodup :=
  (h.perm_erase there).nodup_iff.mp h.distinct

theorem children_single (h : doc.Complete) (there : doc.contains child) {el : ElementId}
    (mem : el ∈ (Forest.single child (doc.below child)).elements) :
    (Forest.single child (doc.below child)).children el =
      (doc.children el).filter (· != child) := by
  have distinct := (List.nodup_append.mp (h.distinct_erase there)).1
  -- nothing that is taken has the element itself as a child, which is on top of it
  have absent : child ∉ (Forest.single child (doc.below child)).children el := by
    rw [Forest.mem_children_iff distinct]
    simp [Forest.single, Forest.above?]
  have same : (Forest.single child (doc.below child)).children el = doc.children el := by
    by_cases own : child = el
    · subst own
      rw [Forest.single, Forest.children_tree distinct, if_pos rfl]
      rfl
    · rw [Forest.elements_single] at mem
      have inside := (List.mem_cons.mp mem).resolve_left (Ne.symm own)
      rw [Forest.single, Forest.children_under distinct inside]
      exact Forest.children_below h.distinct (h.below_eq there) inside
  rw [same] at absent ⊢
  exact (Forest.filter_of_not_mem absent).symm

/-- The parent of an element that is moved is not moved with it. -/
theorem target_mem_erase (h : doc.Complete) (may : doc.canAdopt parent child) :
    parent ∈ (doc.forest.erase child).elements := by
  simp only [canAdopt, Bool.and_eq_true, Bool.not_eq_true'] at may
  obtain ⟨⟨⟨target, there⟩, -⟩, outside⟩ := may
  have mem := (h.perm_erase there).subset (h.stands parent target)
  refine (List.mem_append.mp mem).resolve_left fun inside => ?_
  rw [Forest.elements_single] at inside
  rw [h.isWithin_of_mem_descendants target inside] at outside
  cases outside

theorem children_erase (h : doc.Complete) {el : ElementId}
    (mem : el ∈ (doc.forest.erase child).elements) :
    (doc.forest.erase child).children el = (doc.children el).filter (· != child) :=
  Forest.children_erase h.distinct mem

theorem children_rest (h : doc.Complete) (there : doc.contains child) {el : ElementId}
    (outside : el ∉ (Forest.single child (doc.below child)).elements) :
    (doc.forest.erase child).children el = (doc.children el).filter (· != child) := by
  by_cases mem : el ∈ (doc.forest.erase child).elements
  · exact h.children_erase mem
  · have absent : el ∉ doc.forest.elements := fun whole =>
      (List.mem_append.mp ((h.perm_erase there).subset whole)).elim outside mem
    have none : doc.children el = [] := Forest.children_of_not_mem absent
    rw [Forest.children_of_not_mem mem, none]
    rfl

/-- An element that is taken out of its parent is no child afterwards. -/
theorem children_removed (h : doc.Complete) (there : doc.contains child) (el : ElementId) :
    ((doc.forest.erase child).append (.single child (doc.below child))).children el =
      (doc.children el).filter (· != child) := by
  have distinct := h.distinct_erase there
  rw [Forest.children_append (List.perm_append_comm.nodup_iff.mp distinct)]
  by_cases inside : el ∈ (Forest.single child (doc.below child)).elements
  · have absent : el ∉ (doc.forest.erase child).elements := fun mem =>
      (List.nodup_append.mp distinct).2.2 el inside el mem rfl
    rw [Forest.children_of_not_mem absent, List.nil_append, h.children_single there inside]
  · rw [Forest.children_of_not_mem inside, List.append_nil, h.children_rest there inside]

section
variable {place : Forest → Forest → Forest} {put : List ElementId → List ElementId}

theorem perm_moved (h : doc.Complete) (may : doc.canAdopt parent child)
    (adds : ∀ added, Forest.Adds added (place added)) :
    (doc.moved parent child place).elements.Perm doc.forest.elements := by
  have there := doc.contains_of_canAdopt may
  have rest := (List.nodup_append.mp (h.distinct_erase there)).2.1
  exact (Forest.perm_modifyBelow rest (h.target_mem_erase may) (adds _).elements).trans
    (h.perm_erase there).symm

/-- A moved element is put among the children of its new parent, and is no other child. -/
theorem children_moved (h : doc.Complete) (may : doc.canAdopt parent child)
    (adds : ∀ added, Forest.Adds added (place added))
    (puts : ∀ below row, (place (.single child below) row).roots = put row.roots)
    (el : ElementId) :
    (doc.moved parent child place).children el =
      if el = parent then put ((doc.children parent).filter (· != child))
      else (doc.children el).filter (· != child) := by
  have there := doc.contains_of_canAdopt may
  have distinct := h.distinct_erase there
  have target := h.target_mem_erase may
  unfold moved
  split
  · next own =>
    rw [own, Forest.children_modifyBelow_self (adds _) distinct target, puts]
    exact congrArg put (h.children_erase target)
  · next other =>
    by_cases inside : el ∈ (Forest.single child (doc.below child)).elements
    · rw [Forest.children_modifyBelow_new (adds _) distinct target inside]
      exact h.children_single there inside
    · rw [Forest.children_modifyBelow_old (adds _) distinct target inside other]
      exact h.children_rest there inside

end

end Complete

end

/-! ## Edits -/


section
variable {doc : Document}

theorem sameTree_modify (doc : Document) (el : ElementId) (change : Element → Element) :
    SameTree doc (doc.modify el change) :=
  ⟨rfl, doc.size_modify el change⟩

theorem sameTree_trigger (doc : Document) (el : ElementId) (kind : EventKind) :
    SameTree doc (doc.trigger el kind) := by
  unfold trigger
  split
  · exact ⟨rfl, rfl⟩
  · exact ⟨rfl, rfl⟩

theorem sameTree_markReady (doc : Document) (el : ElementId) :
    SameTree doc (doc.markReady el) := by
  unfold markReady
  split
  · exact (doc.sameTree_modify el _).trans (sameTree_trigger _ el _)
  · exact ⟨rfl, rfl⟩

theorem sameTree_nextEvent (doc : Document) : SameTree doc doc.nextEvent.1 := by
  unfold nextEvent
  split
  · exact ⟨rfl, rfl⟩
  · exact ⟨rfl, rfl⟩

theorem sameTree_edit (doc : Document) {edit : Edit} (keeps : edit.keepsTree) :
    SameTree doc (doc.edit edit) := by
  cases edit with
  | create | append | insertBefore | remove => cases keeps
  | setAttribute el | removeAttribute el | setChecked el | setValue el | setPending el =>
    exact doc.sameTree_modify el _
  | markReady el => exact doc.sameTree_markReady el
  | trigger el kind => exact doc.sameTree_trigger el kind
  | nextEvent => exact doc.sameTree_nextEvent
  | takeEvents => exact ⟨rfl, rfl⟩

theorem Complete.of_perm {doc' : Document} (h : doc.Complete) (rooted : doc'.Rooted)
    (size : doc'.size = doc.size) (perm : doc'.forest.elements.Perm doc.forest.elements) :
    doc'.Complete := by
  refine ⟨rooted, fun el there => perm.symm.subset (h.stands el ?_)⟩
  unfold contains at there ⊢
  rwa [size] at there

/-- Whatever the host does, every element stands in the document. -/
theorem Complete.edit (h : doc.Complete) (edit : Edit) : (doc.edit edit).Complete := by
  have rooted := h.toRooted.edit edit
  by_cases keeps : edit.keepsTree
  · have same := doc.sameTree_edit keeps
    exact h.of_perm rooted same.size (same.forest ▸ .refl _)
  cases edit with
  | create tag =>
    refine ⟨rooted, fun el there => ?_⟩
    have size : (doc.create tag).1.size = doc.size + 1 := Array.size_push ..
    have elements : (doc.create tag).1.forest.elements = doc.forest.elements ++ [⟨doc.size⟩] :=
      Forest.elements_append ..
    have bound : el.number < (doc.create tag).1.size := of_decide_eq_true there
    rw [size] at bound
    change el ∈ (doc.create tag).1.forest.elements
    rw [elements]
    rcases Nat.lt_succ_iff_lt_or_eq.mp bound with old | new
    · exact List.mem_append_left _ (h.stands el (decide_eq_true old))
    · obtain ⟨number⟩ := el
      obtain rfl : number = doc.size := new
      exact List.mem_append_right _ (List.mem_singleton.mpr rfl)
  | append parent child =>
    simp only [Document.edit, append] at rooted ⊢
    split at rooted
    · next may =>
      rw [if_pos may]
      exact h.of_perm rooted rfl (h.perm_moved may Forest.adds_append)
    · next may =>
      rw [if_neg may]
      exact h
  | insertBefore parent child reference =>
    simp only [Document.edit, insertBefore] at rooted ⊢
    split at rooted
    · next may =>
      rw [if_pos may]
      exact h.of_perm rooted rfl (h.perm_moved (Bool.and_eq_true_iff.mp may).1
        fun added => Forest.adds_insertBefore added reference)
    · next may =>
      rw [if_neg may]
      exact h
  | remove el =>
    simp only [Document.edit, remove] at rooted ⊢
    split at rooted
    · next placed =>
      rw [if_pos placed]
      refine h.of_perm rooted rfl ?_
      rw [Forest.elements_append]
      exact List.perm_append_comm.trans (h.perm_erase (h.contains_of_parent? placed)).symm
    · next placed =>
      rw [if_neg placed]
      exact h
  | _ => exact absurd rfl keeps

theorem Complete.editAll (h : doc.Complete) (edits : List Edit) : (doc.editAll edits).Complete := by
  induction edits generalizing doc with
  | nil => exact h
  | cons edit rest ih => exact ih (h.edit edit)

theorem Complete.new : Document.new.Complete where
  toRooted := .new
  stands el there := by
    have bound : el.number < 1 := of_decide_eq_true there
    obtain ⟨number⟩ := el
    obtain rfl : number = 0 := Nat.lt_one_iff.mp bound
    exact List.mem_singleton.mpr rfl

end

end Document

end FormDependencies
