import FormDependencies.Proofs.Document.Relocation

/-!
The order in which a recursion over the children meets the elements. It is determined by the
children alone, and a forest lists its elements in it.
-/

namespace FormDependencies

/-- The elements of a row with all that is below them: each element, then what is below it, then the
rest of the row. -/
inductive Preorder (children : ElementId → List ElementId) : List ElementId → List ElementId → Prop
  | nil : Preorder children [] []
  | cons {el : ElementId} {row below after : List ElementId} :
      Preorder children (children el) below → Preorder children row after →
      Preorder children (el :: row) (el :: (below ++ after))

namespace Preorder

variable {children children' : ElementId → List ElementId} {row els els' : List ElementId}

theorem unique (h : Preorder children row els) (h' : Preorder children row els') : els = els' := by
  induction h generalizing els' with
  | nil =>
    cases h'
    rfl
  | cons _ _ ihb iha =>
    cases h' with
    | cons below after => rw [ihb below, iha after]

/-- Only the children of the elements that are met matter. -/
theorem congr (h : Preorder children row els) (same : ∀ el ∈ els, children' el = children el) :
    Preorder children' row els := by
  induction h with
  | nil => exact .nil
  | @cons el row below after _ _ ihb iha =>
    obtain ⟨own, others⟩ := List.forall_mem_cons.mp same
    obtain ⟨sameBelow, sameAfter⟩ := List.forall_mem_append.mp others
    exact .cons (own ▸ ihb sameBelow) (iha sameAfter)

/-- A forest in which every element stands once is met in the order of its elements. -/
theorem of_forest {f : Forest} (distinct : f.elements.Nodup)
    (rows : ∀ el ∈ f.elements, children el = f.children el) :
    Preorder children f.roots f.elements := by
  induction f with
  | nil => exact .nil
  | tree r under next ihb ihn =>
    obtain ⟨left, right, -⟩ := List.nodup_append.mp (List.nodup_cons.mp distinct).2
    have own : children r = under.roots := by
      rw [rows r List.mem_cons_self, Forest.children_tree distinct, if_pos rfl]
    have below : Preorder children (children r) under.elements := by
      rw [own]
      refine ihb left fun el mem => ?_
      rw [rows el ((Forest.sublist_under r under next).subset mem),
        Forest.children_under distinct mem]
    have after : Preorder children next.roots next.elements := by
      refine ihn right fun el mem => ?_
      rw [rows el ((Forest.sublist_next r under next).subset mem),
        Forest.children_next distinct mem]
    exact .cons below after

end Preorder

/-- What is below an element is met by a recursion over its children. -/
theorem Document.WellFormed.preorder_descendants {doc : Document} (h : doc.WellFormed)
    (el : ElementId) : Preorder doc.children (doc.children el) (doc.descendants el) := by
  unfold Document.descendants children below
  cases found : doc.forest.below? el with
  | none => exact .nil
  | some below =>
    have distinct := h.distinct.sublist ((List.sublist_cons_self ..).trans
      (Forest.sublist_below found))
    exact .of_forest distinct fun _ mem => (Forest.children_below h.distinct found mem).symm

/-- The same is below an element when all of its subtree has the same children. -/
theorem Document.WellFormed.descendants_eq {doc doc' : Document} (h : doc.WellFormed)
    (h' : doc'.WellFormed) {el : ElementId}
    (same : ∀ c ∈ el :: doc.descendants el, doc'.children c = doc.children c) :
    doc'.descendants el = doc.descendants el := by
  obtain ⟨own, others⟩ := List.forall_mem_cons.mp same
  have met := (h.preorder_descendants el).congr others
  rw [← own] at met
  exact (h'.preorder_descendants el).unique met

end FormDependencies
