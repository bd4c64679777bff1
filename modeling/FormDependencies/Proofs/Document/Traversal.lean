import FormDependencies.Proofs.Document.Agreement

/-!
Traversals of one tree. One way follows children and keeps a stack, the others follow parents; they
tell of the same subtrees. Taking an element out of its parent detaches its subtree and nothing
else, and leaves the subtree as it was.
-/

namespace FormDependencies.Document

namespace Rooted
variable {doc : Document}

/-- An element is attached as its parent is. -/
theorem isAttached_of_parent? (h : doc.Rooted) {el parent : ElementId}
    (placed : doc.parent? el = some parent) : doc.isAttached el ↔ doc.isAttached parent := by
  have other : el ≠ .root := by
    rintro rfl
    simp [parent?, h.ancestors_root] at placed
  rw [h.isAttached_iff_root, h.isAttached_iff_root, h.ancestors_of_parent? placed, List.mem_cons,
    or_iff_right other, eq_comm]

/-- Of the elements without a parent the root alone is attached. -/
theorem isAttached_of_parent?_eq_none (h : doc.Rooted) {el : ElementId}
    (top : doc.parent? el = none) : doc.isAttached el ↔ el = .root := by
  rw [h.isAttached_iff_root, List.head?_eq_none_iff.mp top, or_iff_left List.not_mem_nil]

/-- A container is ready when nothing within it is pending. -/
theorem isReady_iff (h : doc.Rooted) (el : ElementId) :
    doc.isReady el ↔ ∀ inner, doc.isWithin inner el → doc.isPending inner = false := by
  have ready : doc.isReady el ↔
      ∀ inner ∈ el :: doc.descendants el, doc.isPending inner = false := by
    simp [isReady]
  rw [ready]
  constructor
  · intro quiet inner within
    exact quiet inner (h.mem_descendants_of_isWithin within)
  · intro quiet inner mem
    by_cases there : doc.contains inner
    · exact quiet inner (h.isWithin_of_mem_descendants there mem)
    · -- an element that is not there has no properties
      have absent : doc.element? inner = none :=
        Array.getElem?_eq_none (Nat.le_of_not_lt fun less => there (decide_eq_true less))
      simp [isPending, absent]

end Rooted

/-! ## Removal -/

structure Detached (doc doc' : Document) (el : ElementId) : Prop where
  attached : ∀ other, doc'.isAttached other ↔
    doc.isAttached other ∧ other ∉ el :: doc.descendants el
  descendants : doc'.descendants el = doc.descendants el
  children : ∀ inner ∈ el :: doc.descendants el, doc'.children inner = doc.children inner
  parents : ∀ inner ∈ doc.descendants el, doc'.parent? inner = doc.parent? inner
  top : doc'.parent? el = none

namespace Complete
variable {doc : Document}

theorem parent?_remove (h : doc.Complete) (el other : ElementId) :
    (doc.remove el).1.parent? other = if other = el then none else doc.parent? other := by
  have next : (doc.remove el).1.Complete := h.edit (.remove el)
  rw [← next.parent?_links, ← h.links_remove, Links.parent?_detach, h.parent?_links]

theorem children_remove (h : doc.Complete) (el other : ElementId) :
    (doc.remove el).1.children other = (doc.children other).filter (· != el) := by
  have next : (doc.remove el).1.Complete := h.edit (.remove el)
  rw [← next.children_links, ← h.links_remove, h.agrees_links.children_detach, h.children_links]

/-- An element stays attached unless the one that is removed is on its path upwards. -/
theorem isAttached_remove (h : doc.Complete) {el : ElementId} (movable : el ≠ .root)
    (other : ElementId) :
    (doc.remove el).1.isAttached other ↔
      doc.isAttached other ∧ el ∉ other :: doc.ancestors other := by
  have next : (doc.remove el).1.Rooted := h.toRooted.edit (.remove el)
  -- the path is climbed in both documents at once
  generalize chain : doc.ancestors other = above
  induction above generalizing other with
  | nil =>
    have top : doc.parent? other = none := congrArg List.head? chain
    have top' : (doc.remove el).1.parent? other = none := by
      rw [h.parent?_remove, top, ite_self]
    rw [next.isAttached_of_parent?_eq_none top', h.isAttached_of_parent?_eq_none top,
      List.mem_singleton]
    constructor
    · rintro rfl
      exact ⟨rfl, movable⟩
    · exact And.left
  | cons parent rest ih =>
    by_cases own : other = el
    · subst own
      have top : (doc.remove other).1.parent? other = none := by rw [h.parent?_remove, if_pos rfl]
      rw [next.isAttached_of_parent?_eq_none top]
      simp [movable]
    · have placed : doc.parent? other = some parent := congrArg List.head? chain
      have placed' : (doc.remove el).1.parent? other = some parent := by
        rw [h.parent?_remove, if_neg own, placed]
      have path : doc.ancestors parent = rest :=
        h.ancestors_of_append (show _ = [] ++ parent :: rest from chain)
      have beyond : el ∈ other :: parent :: rest ↔ el ∈ parent :: rest :=
        List.mem_cons.trans (or_iff_right (Ne.symm own))
      rw [next.isAttached_of_parent? placed', h.isAttached_of_parent? placed, beyond]
      exact ih parent path

theorem detached_remove (h : doc.Complete) {el : ElementId} (movable : el ≠ .root) :
    Detached doc (doc.remove el).1 el := by
  have next : (doc.remove el).1.Complete := h.edit (.remove el)
  have rows : ∀ inner ∈ el :: doc.descendants el,
      (doc.remove el).1.children inner = doc.children inner := by
    intro inner mem
    rw [h.children_remove, h.filter_children_within mem]
  refine ⟨fun other => ?_, h.descendants_eq next.toWellFormed rows, rows, fun inner mem => ?_, ?_⟩
  · rw [h.isAttached_remove movable, h.mem_path_iff]
  · have other : inner ≠ el := by
      rintro rfl
      exact (List.nodup_cons.mp (h.nodup_within inner)).1 mem
    rw [h.parent?_remove, if_neg other]
  · rw [h.parent?_remove, if_pos rfl]

end Complete

/-! ## Agreement -/

/-- Whatever edits are made, all traversals agree. The loop over a stack meets the proper subtree
of an element in the order of a recursion over the children, each element once. The loops over the
parents find an element within another exactly when it is that one or is met below it, and find it
attached when it is within the root. A container is ready when nothing within it is pending, and
what is removed is detached with all below it and nothing else. -/
theorem traversals_agree (edits : List Edit) :
    let doc := Document.new.editAll edits
    ∃ l, Links.new.editAll? edits = some l ∧
      (∀ el, l.descendants? el = some (doc.descendants el) ∧
        Preorder doc.children (doc.children el) (doc.descendants el) ∧
        (el :: doc.descendants el).Nodup) ∧
      (∀ el inner, doc.contains inner →
        l.isWithin? inner el = some (doc.isWithin inner el) ∧
        (doc.isWithin inner el ↔ inner = el ∨ inner ∈ doc.descendants el)) ∧
      (∀ el, l.isAttached? el = some (doc.isAttached el) ∧
        l.isAttached? el = l.isWithin? el .root) ∧
      (∀ el, doc.isReady el ↔
        ∀ inner, doc.isWithin inner el → doc.isPending inner = false) ∧
      ∀ el, el ≠ .root → Detached doc (doc.remove el).1 el := by
  intro doc
  have h : doc.Complete := Complete.new.editAll edits
  refine ⟨doc.links, ?_, fun el => ?_, fun el inner there => ?_, fun el => ?_, h.isReady_iff,
    fun el => h.detached_remove⟩
  · rw [← links_new, Complete.new.links_editAll]
  · exact ⟨h.descendants?_links el, h.preorder_descendants el, h.nodup_within el⟩
  · exact ⟨h.isWithin?_links inner el, by rw [h.isWithin_iff there, List.mem_cons]⟩
  · exact ⟨h.isAttached?_links el, by rw [h.isAttached?_links, h.isWithin?_links]; rfl⟩

/-- A part of a section is attached with it, and is not once the section is removed. -/
theorem traversals_agree_section :
    let doc := Document.new.editAll
      [.create "div", .create "input", .append .root ⟨1⟩, .append ⟨1⟩ ⟨2⟩]
    doc.contains ⟨2⟩ ∧ (⟨1⟩ : ElementId) ≠ .root ∧
      (doc.isWithin ⟨2⟩ ⟨1⟩ ↔ (⟨2⟩ : ElementId) = ⟨1⟩ ∨ ⟨2⟩ ∈ doc.descendants ⟨1⟩) ∧
      Detached doc (doc.remove ⟨1⟩).1 ⟨1⟩ ∧ doc.isAttached ⟨2⟩ ∧
      ¬(doc.remove ⟨1⟩).1.isAttached ⟨2⟩ := by
  obtain ⟨_, _, _, within, _, _, removal⟩ := traversals_agree
    [.create "div", .create "input", .append .root ⟨1⟩, .append ⟨1⟩ ⟨2⟩]
  refine ⟨by decide, by decide, (within ⟨1⟩ ⟨2⟩ (by decide)).2, removal ⟨1⟩ (by decide),
    by decide, by decide⟩

end FormDependencies.Document
