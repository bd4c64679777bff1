import FormDependencies.Proofs.Document.Attachment

/-!
The children of the elements of a forest, and what becomes of them when a tree is taken out and put
somewhere else. Only the place where it stood and the place where it is put have other children
afterwards.
-/

namespace FormDependencies.Forest

def children (f : Forest) (el : ElementId) : List ElementId :=
  ((f.below? el).getD .nil).roots

theorem sublist_roots (f : Forest) : f.roots.Sublist f.elements := by
  induction f with
  | nil => exact .refl _
  | tree r under next _ ih => exact (ih.trans (List.sublist_append_right ..)).cons_cons r

theorem children_of_not_mem {f : Forest} {el : ElementId} (absent : el ∉ f.elements) :
    f.children el = [] := by
  rw [children, below?_eq_none.mpr absent]
  rfl

theorem children_subset (f : Forest) (el : ElementId) : f.children el ⊆ f.elements := by
  unfold children
  cases found : f.below? el with
  | none => exact List.nil_subset _
  | some below =>
    have inside := (sublist_below found).subset
    exact fun c mem => inside (List.mem_cons_of_mem _ (below.sublist_roots.subset mem))

theorem nodup_children {f : Forest} (distinct : f.elements.Nodup) (el : ElementId) :
    (f.children el).Nodup := by
  unfold children
  cases found : f.below? el with
  | none => exact List.nodup_nil
  | some below =>
    exact distinct.sublist ((below.sublist_roots.cons el).trans (sublist_below found))

section
variable {r : ElementId} {under next : Forest}

theorem children_tree (distinct : (tree r under next).elements.Nodup) (el : ElementId) :
    (tree r under next).children el =
      if r = el then under.roots else under.children el ++ next.children el := by
  obtain ⟨-, rest⟩ := List.nodup_cons.mp distinct
  obtain ⟨-, -, apart⟩ := List.nodup_append.mp rest
  unfold children
  rw [below?]
  split
  · rfl
  · cases inside : under.below? el with
    | none => simp [roots]
    | some below =>
      have there : el ∈ under.elements := (under.isSome_below? el).mp (by rw [inside]; rfl)
      have absent : el ∉ next.elements := fun mem => apart el there el mem rfl
      simp [below?_eq_none.mpr absent, roots]

theorem children_under (distinct : (tree r under next).elements.Nodup) {el : ElementId}
    (mem : el ∈ under.elements) : (tree r under next).children el = under.children el := by
  obtain ⟨fresh, rest⟩ := List.nodup_cons.mp distinct
  obtain ⟨-, -, apart⟩ := List.nodup_append.mp rest
  have other : r ≠ el := fun same => fresh (same ▸ List.mem_append_left _ mem)
  have absent : el ∉ next.elements := fun mem' => apart el mem el mem' rfl
  rw [children_tree distinct, if_neg other, children_of_not_mem absent, List.append_nil]

theorem children_next (distinct : (tree r under next).elements.Nodup) {el : ElementId}
    (mem : el ∈ next.elements) : (tree r under next).children el = next.children el := by
  obtain ⟨fresh, rest⟩ := List.nodup_cons.mp distinct
  obtain ⟨-, -, apart⟩ := List.nodup_append.mp rest
  have other : r ≠ el := fun same => fresh (same ▸ List.mem_append_right _ mem)
  have absent : el ∉ under.elements := fun mem' => apart el mem' el mem rfl
  rw [children_tree distinct, if_neg other, children_of_not_mem absent, List.nil_append]

end

/-! ## Parents -/

theorem mem_roots_iff {f : Forest} (distinct : f.elements.Nodup) {el : ElementId} :
    el ∈ f.roots ↔ f.above? el = some [] := by
  refine ⟨above?_of_mem_roots distinct, fun top => ?_⟩
  induction f with
  | nil => cases top
  | tree r under next _ ih =>
    obtain ⟨-, right, -⟩ := List.nodup_append.mp (List.nodup_cons.mp distinct).2
    unfold above? at top
    split at top
    · next own => exact own ▸ List.mem_cons_self
    · cases inside : under.above? el with
      | some above => simp [inside] at top
      | none =>
        rw [inside] at top
        exact List.mem_cons_of_mem _ (ih right top)

section
variable {r : ElementId} {under next : Forest}

theorem mem_children_tree (distinct : (tree r under next).elements.Nodup)
    {parent el : ElementId} :
    el ∈ (tree r under next).children parent ↔
      r = parent ∧ el ∈ under.roots ∨ el ∈ under.children parent ∨
        el ∈ next.children parent := by
  have fresh := (List.nodup_cons.mp distinct).1
  rw [children_tree distinct]
  split
  · next own =>
    subst own
    have notUnder : r ∉ under.elements := fun mem => fresh (List.mem_append_left _ mem)
    have notNext : r ∉ next.elements := fun mem => fresh (List.mem_append_right _ mem)
    simp [children_of_not_mem notUnder, children_of_not_mem notNext]
  · next other => simp [other]

theorem head?_above_tree (distinct : (tree r under next).elements.Nodup)
    {parent el : ElementId} :
    (((tree r under next).above? el).getD []).head? = some parent ↔
      r = parent ∧ el ∈ under.roots ∨ ((under.above? el).getD []).head? = some parent ∨
        ((next.above? el).getD []).head? = some parent := by
  obtain ⟨fresh, rest⟩ := List.nodup_cons.mp distinct
  obtain ⟨left, -, apart⟩ := List.nodup_append.mp rest
  rw [above?]
  by_cases own : r = el
  · subst own
    have notUnder : r ∉ under.elements := fun mem => fresh (List.mem_append_left _ mem)
    have notNext : r ∉ next.elements := fun mem => fresh (List.mem_append_right _ mem)
    have notRoot : r ∉ under.roots := fun mem => notUnder (mem_elements_of_mem_roots mem)
    simp [above?_eq_none.mpr notUnder, above?_eq_none.mpr notNext, notRoot]
  · rw [if_neg own]
    cases inside : under.above? el with
    | none =>
      have notRoot : el ∉ under.roots := fun mem =>
        above?_eq_none.mp inside (mem_elements_of_mem_roots mem)
      simp [notRoot]
    | some above =>
      have there : el ∈ under.elements := (under.isSome_above? el).mp (by rw [inside]; rfl)
      have notNext : el ∉ next.elements := fun mem => apart el there el mem rfl
      have top : el ∈ under.roots ↔ above = [] := by
        rw [mem_roots_iff left, inside, Option.some.injEq]
      rw [top, above?_eq_none.mpr notNext]
      cases above with
      | nil => simp
      | cons first rest => simp

end

/-- The children of an element are those whose parent it is. -/
theorem mem_children_iff {f : Forest} (distinct : f.elements.Nodup) {parent el : ElementId} :
    el ∈ f.children parent ↔ ((f.above? el).getD []).head? = some parent := by
  induction f with
  | nil => simp [children, below?, above?, roots]
  | tree r under next ihb ihn =>
    obtain ⟨left, right, -⟩ := List.nodup_append.mp (List.nodup_cons.mp distinct).2
    rw [mem_children_tree distinct, head?_above_tree distinct, ihb left, ihn right]

theorem length_above {f : Forest} {el : ElementId} {above : List ElementId}
    (found : f.above? el = some above) : above.length < f.elements.length := by
  induction f generalizing above with
  | nil => cases found
  | tree r under next ihb ihn =>
    simp only [elements, List.length_cons, List.length_append]
    unfold above? at found
    split at found
    · obtain rfl := Option.some.inj found
      exact Nat.succ_pos _
    · cases inside : under.above? el with
      | some inner =>
        rw [inside] at found
        obtain rfl := Option.some.inj found
        have bound := ihb inside
        rw [List.length_append, List.length_singleton]
        omega
      | none =>
        rw [inside] at found
        have bound := ihn found
        omega

/-! ## Taking a tree out -/

theorem filter_of_not_mem {row : List ElementId} {el : ElementId} (absent : el ∉ row) :
    row.filter (· != el) = row :=
  List.filter_eq_self.mpr fun _ mem => bne_iff_ne.mpr fun same => absent (same ▸ mem)

theorem erase_eq_self {f : Forest} {el : ElementId} (absent : el ∉ f.elements) :
    f.erase el = f := by
  induction f with
  | nil => rfl
  | tree r under next ihb ihn =>
    simp only [elements, List.mem_cons, List.mem_append, not_or] at absent
    rw [erase, if_neg (Ne.symm absent.1), ihb absent.2.1, ihn absent.2.2]

theorem roots_erase (f : Forest) (el : ElementId) :
    (f.erase el).roots = f.roots.filter (· != el) := by
  induction f with
  | nil => rfl
  | tree r under next _ ih =>
    unfold erase
    split
    · next own => simp [roots, own, ih]
    · next other => simp [roots, other, ih]

/-- A tree and what is left without it are the whole. -/
theorem perm_erase {f below : Forest} (distinct : f.elements.Nodup) {el : ElementId}
    (found : f.below? el = some below) :
    f.elements.Perm (el :: below.elements ++ (f.erase el).elements) := by
  induction f with
  | nil => cases found
  | tree r under next ihb ihn =>
    obtain ⟨fresh, rest⟩ := List.nodup_cons.mp distinct
    obtain ⟨left, right, apart⟩ := List.nodup_append.mp rest
    rw [below?] at found
    rw [erase]
    split at found
    · next own =>
      obtain rfl := Option.some.inj found
      have absent : el ∉ next.elements := fun mem => fresh (own ▸ List.mem_append_right _ mem)
      rw [if_pos own, erase_eq_self absent, elements, own]
      exact .refl _
    · next other =>
      rw [if_neg other, List.perm_iff_count]
      intro counted
      cases inside : under.below? el with
      | some part =>
        rw [inside] at found
        obtain rfl : part = below := Option.some.inj found
        have there : el ∈ under.elements := (under.isSome_below? el).mp (by rw [inside]; rfl)
        have absent : el ∉ next.elements := fun mem => apart el there el mem rfl
        have count := (ihb left inside).count_eq counted
        rw [erase_eq_self absent]
        simp only [elements, List.count_append, List.count_cons] at count ⊢
        omega
      | none =>
        rw [inside] at found
        have count := (ihn right found).count_eq counted
        rw [erase_eq_self (below?_eq_none.mp inside)]
        simp only [elements, List.count_append, List.count_cons] at count ⊢
        omega

/-- Where the tree stood it is missing; other elements keep their children. -/
theorem children_erase {f : Forest} (distinct : f.elements.Nodup) {el other : ElementId}
    (mem : other ∈ (f.erase el).elements) :
    (f.erase el).children other = (f.children other).filter (· != el) := by
  induction f with
  | nil => exact absurd mem List.not_mem_nil
  | tree r under next ihb ihn =>
    obtain ⟨left, right, -⟩ := List.nodup_append.mp (List.nodup_cons.mp distinct).2
    have inNext := (next.sublist_erase el).subset
    have inUnder := (under.sublist_erase el).subset
    have remains := distinct.sublist ((tree r under next).sublist_erase el)
    unfold erase at mem remains ⊢
    split at mem
    · next own =>
      rw [if_pos own, children_next distinct (inNext mem)]
      exact ihn right mem
    · next own =>
      rw [if_neg own] at remains ⊢
      rcases List.mem_cons.mp mem with rfl | mem
      · rw [children_tree remains, children_tree distinct, if_pos rfl, if_pos rfl]
        exact under.roots_erase el
      · rcases List.mem_append.mp mem with mem | mem
        · rw [children_under remains mem, children_under distinct (inUnder mem)]
          exact ihb left mem
        · rw [children_next remains mem, children_next distinct (inNext mem)]
          exact ihn right mem

/-- In the tree that is taken out all have the children that they had. -/
theorem children_below {f below : Forest} (distinct : f.elements.Nodup) {top el : ElementId}
    (found : f.below? top = some below) (mem : el ∈ below.elements) :
    below.children el = f.children el := by
  induction f with
  | nil => cases found
  | tree r under next ihb ihn =>
    obtain ⟨left, right, -⟩ := List.nodup_append.mp (List.nodup_cons.mp distinct).2
    rw [below?] at found
    split at found
    · obtain rfl := Option.some.inj found
      exact (children_under distinct mem).symm
    · cases inside : under.below? top with
      | some part =>
        rw [inside] at found
        obtain rfl : part = below := Option.some.inj found
        have there := (sublist_below inside).subset (List.mem_cons_of_mem _ mem)
        exact (ihb left inside).trans (children_under distinct there).symm
      | none =>
        rw [inside] at found
        have there := (sublist_below found).subset (List.mem_cons_of_mem _ mem)
        exact (ihn right found).trans (children_next distinct there).symm

/-! ## Putting a row somewhere else -/

/-- The change puts a row somewhere into another one, and leaves both as they are otherwise. -/
structure Adds (added : Forest) (change : Forest → Forest) : Prop where
  elements : ∀ g, (change g).elements.Perm (added.elements ++ g.elements)
  old : ∀ g, (added.elements ++ g.elements).Nodup → ∀ el ∉ added.elements,
    (change g).children el = g.children el
  new : ∀ g, (added.elements ++ g.elements).Nodup → ∀ el ∈ added.elements,
    (change g).children el = added.children el

section
variable {f added : Forest} {change : Forest → Forest} {r parent : ElementId} {under next : Forest}

theorem sublist_under (r : ElementId) (under next : Forest) :
    under.elements.Sublist (tree r under next).elements :=
  (List.sublist_append_left ..).cons r

theorem sublist_next (r : ElementId) (under next : Forest) :
    next.elements.Sublist (tree r under next).elements :=
  (List.sublist_append_right ..).cons r

/-- A change below one element changes one of the parts. -/
theorem modifyBelow_tree (distinct : (tree r under next).elements.Nodup)
    (there : parent ∈ (tree r under next).elements) (change : Forest → Forest) :
    (r = parent ∧ (tree r under next).modifyBelow parent change = tree r (change under) next) ∨
      (r ≠ parent ∧ parent ∈ under.elements ∧ parent ∉ next.elements ∧
        (tree r under next).modifyBelow parent change =
          tree r (under.modifyBelow parent change) next) ∨
      (r ≠ parent ∧ parent ∉ under.elements ∧ parent ∈ next.elements ∧
        (tree r under next).modifyBelow parent change =
          tree r under (next.modifyBelow parent change)) := by
  obtain ⟨fresh, rest⟩ := List.nodup_cons.mp distinct
  obtain ⟨-, -, apart⟩ := List.nodup_append.mp rest
  rw [modifyBelow]
  by_cases own : r = parent
  · have absent : parent ∉ next.elements := fun mem => fresh (own ▸ List.mem_append_right _ mem)
    exact .inl ⟨own, by rw [if_pos own, modifyBelow_eq_self change absent]⟩
  · rw [if_neg own]
    rcases List.mem_append.mp ((List.mem_cons.mp there).resolve_left (Ne.symm own)) with mem | mem
    · have absent : parent ∉ next.elements := fun mem' => apart parent mem parent mem' rfl
      exact .inr (.inl ⟨own, mem, absent, by rw [modifyBelow_eq_self change absent]⟩)
    · have absent : parent ∉ under.elements := fun mem' => apart parent mem' parent mem rfl
      exact .inr (.inr ⟨own, absent, mem, by rw [modifyBelow_eq_self change absent]⟩)

theorem nodup_modifyBelow (adds : Adds added change)
    (distinct : (added.elements ++ f.elements).Nodup) (there : parent ∈ f.elements) :
    (f.modifyBelow parent change).elements.Nodup :=
  (perm_modifyBelow (List.nodup_append.mp distinct).2.1 there adds.elements).nodup_iff.mpr distinct

/-- The element below which the row is put has its children changed. -/
theorem children_modifyBelow_self (adds : Adds added change)
    (distinct : (added.elements ++ f.elements).Nodup) (there : parent ∈ f.elements) :
    (f.modifyBelow parent change).children parent =
      (change ((f.below? parent).getD .nil)).roots := by
  induction f with
  | nil => exact absurd there List.not_mem_nil
  | tree r under next ihb ihn =>
    have result := nodup_modifyBelow adds distinct there
    have left := distinct.sublist ((sublist_under r under next).append_left added.elements)
    have right := distinct.sublist ((sublist_next r under next).append_left added.elements)
    rcases modifyBelow_tree (List.nodup_append.mp distinct).2.1 there change with
      ⟨own, same⟩ | ⟨other, mem, absent, same⟩ | ⟨other, absent, mem, same⟩
    · rw [same] at result ⊢
      rw [children_tree result, if_pos own, below?, if_pos own]
      rfl
    · obtain ⟨below, found⟩ := Option.isSome_iff_exists.mp ((under.isSome_below? parent).mpr mem)
      rw [same] at result ⊢
      rw [children_tree result, if_neg other, children_of_not_mem absent, List.append_nil,
        ihb left mem, below?, if_neg other, found]
      rfl
    · rw [same] at result ⊢
      rw [children_tree result, if_neg other, children_of_not_mem absent, List.nil_append,
        ihn right mem, below?, if_neg other, below?_eq_none.mpr absent]
      rfl

/-- Other elements have the children that they had. -/
theorem children_modifyBelow_old (adds : Adds added change)
    (distinct : (added.elements ++ f.elements).Nodup) {el : ElementId}
    (there : parent ∈ f.elements) (absent : el ∉ added.elements) (other : el ≠ parent) :
    (f.modifyBelow parent change).children el = f.children el := by
  induction f with
  | nil => rfl
  | tree r under next ihb ihn =>
    have result := nodup_modifyBelow adds distinct there
    have whole := (List.nodup_append.mp distinct).2.1
    have left := distinct.sublist ((sublist_under r under next).append_left added.elements)
    have right := distinct.sublist ((sublist_next r under next).append_left added.elements)
    rcases modifyBelow_tree whole there change with
      ⟨own, same⟩ | ⟨-, mem, -, same⟩ | ⟨-, -, mem, same⟩
    · have different : r ≠ el := fun same => other (same.symm.trans own)
      rw [same] at result ⊢
      rw [children_tree result, children_tree whole, if_neg different, if_neg different,
        adds.old under left el absent]
    · rw [same] at result ⊢
      rw [children_tree result, children_tree whole, roots_modifyBelow, ihb left mem]
    · rw [same] at result ⊢
      rw [children_tree result, children_tree whole, ihn right mem]

/-- So have those of the row. -/
theorem children_modifyBelow_new (adds : Adds added change)
    (distinct : (added.elements ++ f.elements).Nodup) {el : ElementId}
    (there : parent ∈ f.elements) (mem : el ∈ added.elements) :
    (f.modifyBelow parent change).children el = added.children el := by
  induction f with
  | nil => exact absurd there List.not_mem_nil
  | tree r under next ihb ihn =>
    have result := nodup_modifyBelow adds distinct there
    obtain ⟨-, whole, outside⟩ := List.nodup_append.mp distinct
    have left := distinct.sublist ((sublist_under r under next).append_left added.elements)
    have right := distinct.sublist ((sublist_next r under next).append_left added.elements)
    have notUnder : el ∉ under.elements := fun mem' =>
      outside el mem el ((sublist_under r under next).subset mem') rfl
    have notNext : el ∉ next.elements := fun mem' =>
      outside el mem el ((sublist_next r under next).subset mem') rfl
    have other : r ≠ el := fun same => outside el mem el (same ▸ List.mem_cons_self) rfl
    rcases modifyBelow_tree whole there change with
      ⟨-, same⟩ | ⟨-, inside, -, same⟩ | ⟨-, -, inside, same⟩
    · rw [same] at result ⊢
      rw [children_tree result, if_neg other, children_of_not_mem notNext, List.append_nil,
        adds.new under left el mem]
    · rw [same] at result ⊢
      rw [children_tree result, if_neg other, children_of_not_mem notNext, List.append_nil,
        ihb left inside]
    · rw [same] at result ⊢
      rw [children_tree result, if_neg other, children_of_not_mem notUnder, List.nil_append,
        ihn right inside]

end

/-! ## Ways to put a row -/

theorem children_append {f g : Forest} (distinct : (f.elements ++ g.elements).Nodup)
    (el : ElementId) : (f.append g).children el = f.children el ++ g.children el := by
  induction f with
  | nil => rfl
  | tree r under next _ ih =>
    have whole := (List.nodup_append.mp distinct).1
    have right := distinct.sublist ((sublist_next r under next).append_right g.elements)
    have result : (tree r under (next.append g)).elements.Nodup := by
      rwa [← append, elements_append]
    rw [append, children_tree result, children_tree whole]
    split
    · next own =>
      have absent : el ∉ g.elements := fun mem =>
        (List.nodup_append.mp distinct).2.2 el (own ▸ List.mem_cons_self) el mem rfl
      rw [children_of_not_mem absent, List.append_nil]
    · rw [ih right, List.append_assoc]

theorem adds_append (added : Forest) : Adds added fun row => row.append added where
  elements g := by
    rw [elements_append]
    exact List.perm_append_comm
  old g distinct el absent := by
    rw [children_append (List.perm_append_comm.nodup_iff.mp distinct), children_of_not_mem absent,
      List.append_nil]
  new g distinct el mem := by
    have absent : el ∉ g.elements := fun mem' =>
      (List.nodup_append.mp distinct).2.2 el mem el mem' rfl
    rw [children_append (List.perm_append_comm.nodup_iff.mp distinct), children_of_not_mem absent,
      List.nil_append]

theorem children_insertBefore {added row : Forest}
    (distinct : (added.elements ++ row.elements).Nodup) (reference el : ElementId) :
    (insertBefore added reference row).children el =
      if el ∈ added.elements then added.children el else row.children el := by
  induction row with
  | nil =>
    rw [insertBefore]
    split
    · rfl
    · next absent => exact children_of_not_mem absent
  | tree r under next _ ih =>
    obtain ⟨-, whole, apart⟩ := List.nodup_append.mp distinct
    have result := (perm_insertBefore added (tree r under next) reference).nodup_iff.mpr distinct
    have right := distinct.sublist ((sublist_next r under next).append_left added.elements)
    unfold insertBefore at result ⊢
    split
    · rw [children_append distinct]
      split
      · next mem =>
        rw [children_of_not_mem fun mem' => apart el mem el mem' rfl, List.append_nil]
      · next absent => rw [children_of_not_mem absent, List.nil_append]
    · next other =>
      rw [if_neg other] at result
      rw [children_tree result, children_tree whole, ih right]
      split
      · next own =>
        rw [if_neg fun mem => apart el mem el (own ▸ List.mem_cons_self) rfl]
      · split
        · next mem =>
          have absent : el ∉ under.elements := fun mem' =>
            apart el mem el ((sublist_under r under next).subset mem') rfl
          rw [children_of_not_mem absent, List.nil_append]
        · rfl

theorem adds_insertBefore (added : Forest) (reference : ElementId) :
    Adds added (insertBefore added reference) where
  elements g := perm_insertBefore added g reference
  old g distinct el absent := by rw [children_insertBefore distinct, if_neg absent]
  new g distinct el mem := by rw [children_insertBefore distinct, if_pos mem]

/-- The place in front of an element is the one at which it stands, the last one when it is
missing. -/
theorem roots_insertBefore (el reference : ElementId) (below row : Forest) :
    (insertBefore (.single el below) reference row).roots =
      row.roots.insertIdx (row.roots.idxOf reference) el := by
  induction row with
  | nil => simp [insertBefore, single, roots]
  | tree r under next _ ih =>
    unfold insertBefore
    split
    · next own => simp [single, append, roots, own]
    · next other =>
      have place : (r :: next.roots).idxOf reference = next.roots.idxOf reference + 1 := by
        rw [List.idxOf_cons, beq_false_of_ne other, cond_false]
      rw [roots, roots, place, List.insertIdx_succ_cons, ih]

end FormDependencies.Forest
