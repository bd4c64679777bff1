import FormDependencies.Proofs.Document.Agreement

/-!
Moves of elements. A move is refused before anything is changed; one that is made puts the element
where it was asked for, with its subtree, and changes nothing else.
-/

namespace FormDependencies

/-! ## Rows -/

section
variable {row before after : List ElementId} {child reference : ElementId}

theorem insertIdx_idxOf_append (first : reference ∉ before) :
    (before ++ reference :: after).insertIdx ((before ++ reference :: after).idxOf reference)
      child = before ++ child :: reference :: after := by
  induction before with
  | nil => simp
  | cons top rest ih =>
    obtain ⟨other, later⟩ := not_or.mp (mt List.mem_cons.mpr first)
    have place : (top :: (rest ++ reference :: after)).idxOf reference =
        (rest ++ reference :: after).idxOf reference + 1 := by
      rw [List.idxOf_cons, beq_false_of_ne (Ne.symm other), cond_false]
    rw [List.cons_append, place, List.insertIdx_succ_cons, ih later, List.cons_append]

theorem insertIdx_idxOf_of_not_mem (absent : reference ∉ row) :
    row.insertIdx (row.idxOf reference) child = row ++ [child] := by
  rw [List.idxOf_eq_length_iff.mpr absent, List.insertIdx_length_self]

/-- The order of the others stays when an element is put into a row. -/
theorem filter_insertIdx_idxOf (absent : child ∉ row) :
    (row.insertIdx (row.idxOf reference) child).filter (· != child) = row := by
  have same := Forest.filter_of_not_mem absent
  by_cases mem : reference ∈ row
  · obtain ⟨before, after, rfl, first⟩ := List.eq_append_cons_of_mem mem
    rw [insertIdx_idxOf_append first]
    rw [List.filter_append] at same ⊢
    rwa [List.filter_cons_of_neg (by simp)]
  · rw [insertIdx_idxOf_of_not_mem mem, List.filter_append, same]
    simp

end

namespace Document

def Refuses (doc : Document) (parent child : ElementId) : Prop :=
  ¬doc.contains parent ∨ ¬doc.contains child ∨ child = .root ∨
    parent ∈ child :: doc.descendants child

instance (doc : Document) (parent child : ElementId) : Decidable (doc.Refuses parent child) := by
  unfold Refuses
  infer_instance

/-- What a move leaves: the element has its new parent, and all else is as it was but for the one
row that it is put into. -/
structure Moved (doc doc' : Document) (parent child : ElementId) : Prop where
  placed : doc'.parent? child = some parent
  parents : ∀ el, el ≠ child → doc'.parent? el = doc.parent? el
  taken : ∀ el, el ≠ parent → doc'.children el = (doc.children el).filter (· != child)
  order : ∀ el, (doc'.children el).filter (· != child) = (doc.children el).filter (· != child)
  descendants : doc'.descendants child = doc.descendants child
  subtree : ∀ el ∈ child :: doc.descendants child, doc'.children el = doc.children el
  elements : doc'.elements = doc.elements
  outbox : doc'.outbox = doc.outbox

namespace Complete
variable {doc doc' : Document} {parent child reference : ElementId}

theorem canAdopt_iff (h : doc.Complete) :
    doc.canAdopt parent child ↔ ¬doc.Refuses parent child := by
  unfold canAdopt Refuses
  by_cases target : doc.contains parent
  · rw [← h.isWithin_iff target]
    simp [target, and_assoc]
  · simp [target]

/-- A move by links is a move, whatever place it has in the row of its new parent. -/
theorem moved_of_links (h : doc.Complete) (next : doc'.Complete) (may : doc.canAdopt parent child)
    (put : List ElementId → List ElementId) (links : doc.links.move parent child put = doc'.links)
    (keeps : ∀ row, child ∉ row → (put row).filter (· != child) = row)
    (elements : doc'.elements = doc.elements) (outbox : doc'.outbox = doc.outbox) :
    Moved doc doc' parent child ∧
      doc'.children parent = put ((doc.children parent).filter (· != child)) := by
  have allowed := h.canAdopt_iff.mp may
  simp only [Refuses, not_or, not_not] at allowed
  obtain ⟨target, there, -, outside⟩ := allowed
  have parents : ∀ el, doc'.parent? el = if el = child then some parent else doc.parent? el := by
    intro el
    rw [← next.parent?_links, ← links, Links.parent?_move ((doc.contains_links child).trans there),
      h.parent?_links]
  have children : ∀ el, doc'.children el =
      if el = parent then put ((doc.children parent).filter (· != child))
      else (doc.children el).filter (· != child) := by
    intro el
    rw [← next.children_links, ← links,
      h.agrees_links.children_move ((doc.contains_links parent).trans target), h.children_links,
      h.children_links]
  have taken : ∀ el, el ≠ parent → doc'.children el = (doc.children el).filter (· != child) :=
    fun el other => (children el).trans (if_neg other)
  have row := (children parent).trans (if_pos rfl)
  have subtree : ∀ el ∈ child :: doc.descendants child, doc'.children el = doc.children el := by
    intro el mem
    have other : el ≠ parent := fun same => outside (same ▸ mem)
    rw [taken el other, h.filter_children_within mem]
  refine ⟨⟨?_, fun el other => ?_, taken, fun el => ?_, ?_, subtree, elements, outbox⟩, row⟩
  · rw [parents, if_pos rfl]
  · rw [parents, if_neg other]
  · by_cases own : el = parent
    · subst own
      rw [row, keeps _ (by simp)]
    · rw [taken el own, List.filter_filter]
      simp
  · exact h.descendants_eq next.toWellFormed subtree

theorem moved_append (h : doc.Complete) (may : doc.canAdopt parent child) :
    Moved doc (doc.append parent child).1 parent child ∧
      (doc.append parent child).1.children parent =
        (doc.children parent).filter (· != child) ++ [child] := by
  have next : (doc.append parent child).1.Complete := h.edit (.append parent child)
  refine h.moved_of_links next may (· ++ [child]) (h.links_append may) (fun row absent => ?_) ?_ ?_
  · rw [List.filter_append, Forest.filter_of_not_mem absent]
    simp
  · simp only [append, if_pos may]
  · simp only [append, if_pos may]

theorem moved_insertBefore (h : doc.Complete) (may : doc.canAdopt parent child)
    (other : child ≠ reference) :
    Moved doc (doc.insertBefore parent child reference).1 parent child ∧
      let row := (doc.children parent).filter (· != child)
      (doc.insertBefore parent child reference).1.children parent =
        row.insertIdx (row.idxOf reference) child := by
  have next : (doc.insertBefore parent child reference).1.Complete :=
    h.edit (.insertBefore parent child reference)
  have may' : doc.canAdopt parent child && child != reference := by simp [may, other]
  refine h.moved_of_links next may (fun row => row.insertIdx (row.idxOf reference) child)
    (h.links_insertBefore may') (fun row => filter_insertIdx_idxOf) ?_ ?_
  · simp only [insertBefore, if_pos may']
  · simp only [insertBefore, if_pos may']

end Complete

/-- Whatever edits were made, a move is refused exactly when one of the elements is unknown, the
moved one is the root, or its new parent is in its subtree; an insertion also when the moved element
is its own reference. What is refused changes nothing. Any other move takes the element out of all
rows, puts it at the end of its new row or in front of a reference there, makes that the row of its
parent, and changes nothing else. -/
theorem moves_exact (edits : List Edit) (parent child reference : ElementId) :
    let doc := Document.new.editAll edits
    (doc.Refuses parent child → doc.append parent child = (doc, false)) ∧
      (¬doc.Refuses parent child →
        ∃ doc', doc.append parent child = (doc', true) ∧ Moved doc doc' parent child ∧
          doc'.children parent = (doc.children parent).filter (· != child) ++ [child]) ∧
      (doc.Refuses parent child ∨ child = reference →
        doc.insertBefore parent child reference = (doc, false)) ∧
      (¬(doc.Refuses parent child ∨ child = reference) →
        ∃ doc', doc.insertBefore parent child reference = (doc', true) ∧
          Moved doc doc' parent child ∧
          (reference ∉ doc.children parent →
            doc'.children parent = (doc.children parent).filter (· != child) ++ [child]) ∧
          ∀ before after, doc.children parent = before ++ reference :: after →
            doc'.children parent = before.filter (· != child) ++
              child :: reference :: after.filter (· != child)) := by
  intro doc
  have h : doc.Complete := Complete.new.editAll edits
  refine ⟨fun refused => ?_, fun allowed => ?_, fun refused => ?_, fun allowed => ?_⟩
  · exact if_neg fun may => h.canAdopt_iff.mp may refused
  · have may := h.canAdopt_iff.mpr allowed
    have answer : (doc.append parent child).2 = true := by rw [append, if_pos may]
    exact ⟨_, Prod.ext rfl answer, h.moved_append may⟩
  · refine if_neg fun may => ?_
    simp only [Bool.and_eq_true, bne_iff_ne] at may
    exact refused.elim (h.canAdopt_iff.mp may.1) may.2
  · obtain ⟨allowed, other⟩ := not_or.mp allowed
    have may := h.canAdopt_iff.mpr allowed
    obtain ⟨moved, row⟩ := h.moved_insertBefore may other
    have answer : (doc.insertBefore parent child reference).2 = true := by
      simp [insertBefore, may, other]
    refine ⟨_, Prod.ext rfl answer, moved, fun absent => ?_, fun before after split => ?_⟩
    · rw [row]
      exact insertIdx_idxOf_of_not_mem fun mem => absent (List.mem_filter.mp mem).1
    · have distinct : (before ++ reference :: after).Nodup :=
        split ▸ Forest.nodup_children h.distinct parent
      have first : reference ∉ before := fun mem =>
        (List.nodup_append.mp distinct).2.2 reference mem reference List.mem_cons_self rfl
      have rest : (doc.children parent).filter (· != child) =
          before.filter (· != child) ++ reference :: after.filter (· != child) := by
        rw [split, List.filter_append, List.filter_cons_of_pos (by simpa using Ne.symm other)]
      rw [row, rest]
      exact insertIdx_idxOf_append fun mem => first (List.mem_filter.mp mem).1

/-- The last of three children is put in front of the first, or to the end again when the reference
is elsewhere, and the root is not put under any. -/
theorem moves_exact_children :
    let doc := Document.new.editAll [.create "div", .create "div", .create "div",
      .append .root ⟨1⟩, .append .root ⟨2⟩, .append .root ⟨3⟩]
    (∃ doc', doc.append .root ⟨1⟩ = (doc', true) ∧ doc'.children .root = [⟨2⟩, ⟨3⟩, ⟨1⟩]) ∧
      (∃ doc', doc.insertBefore .root ⟨3⟩ ⟨1⟩ = (doc', true) ∧ Moved doc doc' .root ⟨3⟩ ∧
        doc'.children .root = [⟨3⟩, ⟨1⟩, ⟨2⟩]) ∧
      (∃ doc', doc.insertBefore .root ⟨1⟩ ⟨7⟩ = (doc', true) ∧
        doc'.children .root = [⟨2⟩, ⟨3⟩, ⟨1⟩]) ∧
      doc.append ⟨1⟩ .root = (doc, false) ∧
      doc.insertBefore .root ⟨2⟩ ⟨2⟩ = (doc, false) := by
  intro doc
  have moves := moves_exact [.create "div", .create "div", .create "div",
    .append .root ⟨1⟩, .append .root ⟨2⟩, .append .root ⟨3⟩]
  obtain ⟨_, last, _, _⟩ := moves .root ⟨1⟩ .root
  obtain ⟨_, _, _, front⟩ := moves .root ⟨3⟩ ⟨1⟩
  obtain ⟨_, _, _, elsewhere⟩ := moves .root ⟨1⟩ ⟨7⟩
  refine ⟨?_, ?_, ?_, ?_, ?_⟩
  · obtain ⟨doc', answer, _, row⟩ := last (by decide)
    exact ⟨doc', answer, row⟩
  · obtain ⟨doc', answer, moved, _, row⟩ := front (by decide)
    exact ⟨doc', answer, moved, row [] [⟨2⟩, ⟨3⟩] (by decide)⟩
  · obtain ⟨doc', answer, _, row, _⟩ := elsewhere (by decide)
    exact ⟨doc', answer, row (by decide)⟩
  · exact (moves ⟨1⟩ .root .root).1 (by decide)
  · exact (moves .root ⟨2⟩ ⟨2⟩).2.2.1 (.inr rfl)

end Document

end FormDependencies
