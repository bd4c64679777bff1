import FormDependencies.Proofs.Document.Attachment
import FormDependencies.Selector.Basic
import Mathlib.Data.List.Chain
import Mathlib.Data.List.Forall2
import Mathlib.Logic.Relation

/-!
What a selector means. The search for the compounds of a chain goes up from an element once and
never back, and yet finds elements for them whenever there are any: an element that a compound could
take later can always be exchanged for the nearest one.
-/

namespace FormDependencies

namespace Document
variable {doc : Document}

def Above (doc : Document) (top el : ElementId) : Prop :=
  Relation.TransGen (fun el parent => doc.parent? el = some parent) el top

theorem Rooted.mem_ancestors_iff_above (h : doc.Rooted) {top el : ElementId} :
    top ∈ doc.ancestors el ↔ doc.Above top el := by
  constructor
  · intro mem
    generalize chain : doc.ancestors el = above at mem
    induction above generalizing el with
    | nil => exact absurd mem List.not_mem_nil
    | cons parent rest ih =>
      have first : doc.parent? el = some parent := congrArg List.head? chain
      rcases List.mem_cons.mp mem with rfl | mem
      · exact .single first
      · have next := h.ancestors_of_append (show doc.ancestors el = [] ++ parent :: rest from chain)
        exact .head first (ih next mem)
  · intro climb
    induction climb with
    | single first => exact List.mem_of_head? first
    | tail _ next ih => exact h.ancestors_subset ih (List.mem_of_head? next)

/-- Elements that are met in this order on the way up from an element are each above the one
before. -/
theorem Rooted.sublist_ancestors_iff (h : doc.Rooted) {chosen : List ElementId} {el : ElementId} :
    chosen.Sublist (doc.ancestors el) ↔
      (el :: chosen).IsChain (fun inner outer => doc.Above outer inner) := by
  induction chosen generalizing el with
  | nil => simp
  | cons top rest ih =>
    rw [List.isChain_cons_cons, ← ih, ← h.mem_ancestors_iff_above]
    constructor
    · intro sub
      obtain ⟨near, far, chain, mem, sub⟩ := List.cons_sublist_iff.mp sub
      obtain ⟨before, after, rfl⟩ := List.append_of_mem mem
      rw [List.append_assoc, List.cons_append] at chain
      refine ⟨by simp [chain], ?_⟩
      rw [h.ancestors_of_append chain]
      exact sub.trans (List.sublist_append_right ..)
    · rintro ⟨mem, sub⟩
      obtain ⟨before, after, chain⟩ := List.append_of_mem mem
      rw [h.ancestors_of_append chain] at sub
      rw [chain]
      exact (sub.cons_cons top).trans (List.sublist_append_right ..)

end Document

namespace Chain
variable {doc : Document}

/-- The search succeeds as soon as some of the elements, in their order, meet the compounds one by
one. -/
theorem holdsAmong_iff {compounds : List Compound} {els : List ElementId} :
    holdsAmong doc compounds els = true ↔
      ∃ chosen, chosen.Sublist els ∧
        List.Forall₂ (fun (c : Compound) el => c.holds doc el = true) compounds chosen := by
  induction compounds, els using holdsAmong.induct doc with
  | case1 els => simp [holdsAmong]
  | case2 c cs =>
    simp only [holdsAmong, Bool.false_eq_true, false_iff]
    rintro ⟨chosen, sub, meets⟩
    rw [List.sublist_nil.mp sub] at meets
    cases meets
  | case3 c cs el els met ih =>
    rw [holdsAmong, if_pos met, ih]
    constructor
    · rintro ⟨chosen, sub, meets⟩
      exact ⟨el :: chosen, sub.cons_cons el, .cons met meets⟩
    · -- whichever element the compound takes, the others lie beyond the nearest one
      rintro ⟨_, sub, _ | ⟨_, meets⟩⟩
      exact ⟨_, sub.tail, meets⟩
  | case4 c cs el els missed ih =>
    rw [holdsAmong, if_neg missed, ih]
    constructor
    · rintro ⟨chosen, sub, meets⟩
      exact ⟨chosen, sub.cons el, meets⟩
    · rintro ⟨_, sub, _ | ⟨met, meets⟩⟩
      rcases sub with _ | ⟨_, sub⟩ | ⟨_, sub⟩
      · exact ⟨_, sub, .cons met meets⟩
      · exact absurd met missed

/-- The elements stand for the compounds of a chain, the last one for the last: each meets its
compound, and each but the last is above the next. -/
structure Meets (chain : Chain) (doc : Document) (els : List ElementId) : Prop where
  each : List.Forall₂ (fun (c : Compound) el => c.holds doc el = true) chain els
  descending : els.IsChain doc.Above

theorem holds_iff (rooted : doc.Rooted) {chain : Chain} {el : ElementId} :
    chain.holds doc el = true ↔ ∃ above, chain.Meets doc (above ++ [el]) := by
  rw [← chain.reverse_reverse]
  unfold holds
  rw [List.reverse_reverse]
  cases chain.reverse with
  | nil =>
    simp only [List.reverse_nil, Bool.false_eq_true, false_iff]
    rintro ⟨above, meets, -⟩
    exact absurd (List.forall₂_nil_left_iff.mp meets) (by simp)
  | cons subject rest =>
    simp only [Bool.and_eq_true, holdsAmong_iff, rooted.sublist_ancestors_iff]
    constructor
    · rintro ⟨own, chosen, climbs, meets⟩
      refine ⟨chosen.reverse, ?_, ?_⟩
      · rw [← List.reverse_cons, List.forall₂_reverse_iff]
        exact .cons own meets
      · rw [← List.reverse_cons, List.isChain_reverse]
        exact climbs
    · rintro ⟨above, meets, climbs⟩
      rw [← above.reverse_reverse, ← List.reverse_cons] at meets climbs
      rw [List.forall₂_reverse_iff, List.forall₂_cons] at meets
      exact ⟨meets.1, above.reverse, List.isChain_reverse.mp climbs, meets.2⟩

end Chain

/-- In whatever document the host builds, a selector means exactly the elements for which one of its
alternatives is met: the element meets the last compound, and there are elements above it that meet
the others, each above the next. No choice among the elements above is missed. -/
theorem Selector.holds_iff_meets (edits : List Edit) (s : Selector) (el : ElementId) :
    let doc := Document.new.editAll edits
    s.holds doc el = true ↔
      ∃ chain ∈ s.alternatives, ∃ above, Chain.Meets chain doc (above ++ [el]) := by
  intro doc
  have rooted : doc.Rooted := Document.Rooted.new.editAll edits
  unfold Selector.holds
  simp only [List.any_eq_true, Chain.holds_iff rooted]

end FormDependencies
