import FormDependencies.Proofs.Document.Links
import FormDependencies.Selector.Basic

/-!
Documents and links. A document gives every element a parent and children, and these are what edits
that write single links come to. So the links are in order after any edits, and every loop over
them ends with what the document answers.
-/

namespace FormDependencies.Document

/-! ## Links of a document -/

def links (doc : Document) : Links where
  node? el := if doc.contains el then some ⟨doc.parent? el, doc.children el⟩ else none
  nextId := doc.size

@[simp] theorem nextId_links (doc : Document) : doc.links.nextId = doc.size := rfl

@[simp] theorem contains_links (doc : Document) (el : ElementId) :
    doc.links.contains el = doc.contains el := by
  unfold Links.contains links
  by_cases there : doc.contains el <;> simp [there]

theorem SameTree.links {doc doc' : Document} (h : SameTree doc doc') : doc'.links = doc.links := by
  unfold Document.links parent? Document.ancestors children below contains
  rw [h.forest, h.size]

namespace Complete
variable {doc : Document}

theorem parent?_links (h : doc.Complete) (el : ElementId) :
    doc.links.parent? el = doc.parent? el := by
  unfold Links.parent? links
  by_cases there : doc.contains el
  · simp [there]
  · have absent : doc.parent? el = none :=
      Option.not_isSome_iff_eq_none.mp fun placed => there (h.contains_of_parent? placed)
    simp [there, absent]

theorem children_links (h : doc.Complete) (el : ElementId) :
    doc.links.children el = doc.children el := by
  unfold Links.children links
  by_cases there : doc.contains el
  · simp [there]
  · have absent : doc.children el = [] :=
      Forest.children_of_not_mem fun mem => there ((h.contains_iff el).mpr mem)
    simp [there, absent]

theorem agrees_links (h : doc.Complete) : doc.links.Agrees := by
  intro parent el
  rw [h.children_links, h.parent?_links]
  exact Forest.mem_children_iff h.distinct

/-! ## Loops over the links -/

theorem climbs_parent? (h : doc.Complete) (el : ElementId) :
    doc.links.Climbs (doc.links.parent? el) (doc.ancestors el) := by
  rw [h.parent?_links]
  generalize chain : doc.ancestors el = above
  induction above generalizing el with
  | nil => exact congrArg List.head? chain
  | cons top rest ih =>
    have parent : doc.parent? el = some top := congrArg List.head? chain
    refine ⟨parent, ?_⟩
    rw [h.parent?_links]
    exact ih top (h.ancestors_of_append (show _ = [] ++ top :: rest from chain))

theorem climbs_self (h : doc.Complete) (el : ElementId) :
    doc.links.Climbs (some el) (el :: doc.ancestors el) :=
  ⟨rfl, h.climbs_parent? el⟩

theorem ancestors?_links (h : doc.Complete) (el : ElementId) :
    doc.links.ancestors? el = some (doc.ancestors el) :=
  Links.chain?_eq (h.climbs_parent? el) (Nat.le_of_lt (h.length_ancestors el))

theorem isSome_find? (row : List ElementId) (el : ElementId) :
    (row.find? (· == el)).isSome = row.contains el := by
  rw [Bool.eq_iff_iff, List.find?_isSome]
  simp

theorem isWithin?_links (h : doc.Complete) (el ancestor : ElementId) :
    doc.links.isWithin? el ancestor = some (doc.isWithin el ancestor) := by
  unfold Links.isWithin? isWithin
  rw [contains_links, nextId_links,
    Links.climb?_eq (h.climbs_parent? el) (Nat.le_of_lt (h.length_ancestors el))]
  split
  · next own => rw [own, Bool.true_or]
  · next other =>
    rw [Bool.not_eq_true] at other
    rw [other, Bool.false_or, Option.map_some, isSome_find?]

theorem isAttached?_links (h : doc.Complete) (el : ElementId) :
    doc.links.isAttached? el = some (doc.isAttached el) := by
  unfold Links.isAttached?
  rw [contains_links, nextId_links,
    Links.climb?_eq (h.climbs_self el) (h.length_ancestors el)]
  split
  · next there =>
    unfold isAttached isWithin
    rw [Option.map_some, isSome_find?, there, Bool.and_true, List.contains_cons, Bool.beq_comm]
  · next absent =>
    have detached : doc.isAttached el = false :=
      Bool.eq_false_iff.mpr fun attached => absent (h.contains_of_isAttached attached)
    rw [detached]

theorem closest?_links (h : doc.Complete) (el : ElementId) (s : Selector) :
    doc.links.closest? el (s.holds doc) = some (doc.closest? el s) := by
  unfold Links.closest? closest?
  rw [contains_links, nextId_links,
    Links.climb?_eq (h.climbs_self el) (h.length_ancestors el)]
  split
  · rfl
  · rfl

theorem length_descendants (h : doc.Complete) (el : ElementId) :
    (doc.descendants el).length ≤ doc.size := by
  refine Nat.le_trans ?_ h.length_elements
  unfold descendants below
  cases found : doc.forest.below? el with
  | none => exact Nat.zero_le _
  | some below =>
    exact ((List.sublist_cons_self ..).trans (Forest.sublist_below found)).length_le

theorem descendants?_links (h : doc.Complete) (el : ElementId) :
    doc.links.descendants? el = some (doc.descendants el) := by
  have met : Preorder doc.links.children (doc.links.children el) (doc.descendants el) := by
    rw [h.children_links]
    exact (h.preorder_descendants el).congr fun c _ => h.children_links c
  obtain ⟨rest, enough⟩ := Nat.exists_eq_add_of_le (h.length_descendants el)
  have walk := Links.walk?_of_preorder met rest []
  rwa [List.append_nil, ← enough, Links.walk?, Option.map_some, List.append_nil] at walk

theorem canAdopt?_links (h : doc.Complete) (parent child : ElementId) :
    doc.links.canAdopt? parent child = some (doc.canAdopt parent child) := by
  unfold Links.canAdopt? canAdopt
  rw [h.isWithin?_links, contains_links, contains_links]
  split
  · next may => rw [may, Bool.true_and, Option.map_some]
  · next may =>
    rw [Bool.not_eq_true] at may
    rw [may, Bool.false_and]

/-! ## Edits of the links -/

theorem links_create (h : doc.Complete) (tag : String) :
    doc.links.create = (doc.create tag).1.links := by
  have next : (doc.create tag).1.Complete := h.edit (.create tag)
  have size : (doc.create tag).1.size = doc.size + 1 := Array.size_push ..
  have fresh : doc.links.node? ⟨doc.links.nextId⟩ = none :=
    if_neg fun there => Nat.lt_irrefl _ (of_decide_eq_true there)
  refine Links.ext_children size.symm (fun el => ?_) (fun el => ?_) (h.agrees_links.create fresh)
    next.agrees_links
  · rw [Links.contains_create, contains_links, contains_links, nextId_links]
    unfold contains
    rw [size, Bool.eq_iff_iff]
    obtain ⟨number⟩ := el
    simp
    omega
  · rw [Links.children_create fresh, h.children_links, next.children_links]
    have distinct : (doc.forest.elements ++ (Forest.single ⟨doc.size⟩ .nil).elements).Nodup :=
      Forest.elements_append .. ▸ next.distinct
    have row : (doc.create tag).1.children el =
        doc.children el ++ (Forest.single ⟨doc.size⟩ .nil).children el :=
      Forest.children_append distinct el
    have leaf : (Forest.single ⟨doc.size⟩ .nil).children el = [] := by
      unfold Forest.children Forest.single
      simp only [Forest.below?]
      split
      · rfl
      · rfl
    rw [row, leaf, List.append_nil]

/-- Both ways to move an element come to the same links. -/
theorem links_move (h : doc.Complete) {parent child : ElementId}
    (may : doc.canAdopt parent child) {place : Forest → Forest → Forest}
    {put : List ElementId → List ElementId} (adds : ∀ added, Forest.Adds added (place added))
    (puts : ∀ below row, (place (.single child below) row).roots = put row.roots)
    (members : ∀ row el, el ∈ put row ↔ el = child ∨ el ∈ row)
    (next : { doc with forest := doc.moved parent child place }.Complete) :
    doc.links.move parent child put =
      { doc with forest := doc.moved parent child place }.links := by
  obtain ⟨target, there⟩ : doc.links.contains parent ∧ doc.links.contains child := by
    simp only [canAdopt, Bool.and_eq_true] at may
    simpa using may.1.1
  refine Links.ext_children ?_ (fun el => ?_) (fun el => ?_)
    (h.agrees_links.move target there members) next.agrees_links
  · exact Links.nextId_move ..
  · rw [Links.contains_move, contains_links, contains_links]
    rfl
  · rw [h.agrees_links.children_move target, next.children_links, h.children_links,
      h.children_links]
    exact (h.children_moved may adds puts el).symm

theorem links_remove (h : doc.Complete) (el : ElementId) :
    doc.links.detach el = (doc.remove el).1.links := by
  have next : (doc.remove el).1.Complete := h.edit (.remove el)
  refine Links.ext_children ?_ (fun other => ?_) (fun other => ?_) (h.agrees_links.detach el)
    next.agrees_links
  · rw [Links.nextId_detach]
    unfold remove
    split
    · rfl
    · rfl
  · rw [Links.contains_detach, contains_links, contains_links]
    unfold remove
    split
    · rfl
    · rfl
  · rw [h.agrees_links.children_detach, h.children_links, next.children_links]
    unfold remove
    split
    · next placed => exact (h.children_removed (h.contains_of_parent? placed) other).symm
    · next alone =>
      refine Forest.filter_of_not_mem fun mem => alone ?_
      have parent : doc.parent? el = some other := (Forest.mem_children_iff h.distinct).mp mem
      rw [parent]
      rfl

theorem links_append (h : doc.Complete) {parent child : ElementId}
    (may : doc.canAdopt parent child) :
    doc.links.move parent child (· ++ [child]) = (doc.append parent child).1.links := by
  have next := h.edit (.append parent child)
  simp only [Document.edit, append, if_pos may] at next ⊢
  refine h.links_move may Forest.adds_append (fun below row => ?_) (fun row el => ?_) next
  · rw [Forest.roots_append]
    rfl
  · rw [List.mem_append, List.mem_singleton, or_comm]

theorem links_insertBefore (h : doc.Complete) {parent child reference : ElementId}
    (may : doc.canAdopt parent child && child != reference) :
    (doc.links.move parent child fun row => row.insertIdx (row.idxOf reference) child) =
      (doc.insertBefore parent child reference).1.links := by
  have next := h.edit (.insertBefore parent child reference)
  simp only [Document.edit, insertBefore, if_pos may] at next ⊢
  refine h.links_move (Bool.and_eq_true_iff.mp may).1
    (fun added => Forest.adds_insertBefore added reference)
    (Forest.roots_insertBefore child reference) (fun row el => ?_) next
  exact List.mem_insertIdx List.idxOf_le_length

/-- What an edit does to links is what it does to the document. -/
theorem links_edit (h : doc.Complete) (edit : Edit) :
    doc.links.edit? edit = some (doc.edit edit).links := by
  by_cases keeps : edit.keepsTree
  · rw [doc.links.edit?_of_keepsTree keeps, (doc.sameTree_edit keeps).links]
  cases edit with
  | create tag => exact congrArg some (h.links_create tag)
  | append parent child =>
    simp only [Links.edit?, h.canAdopt?_links, Option.bind_eq_bind, Option.bind_some]
    split
    · next may => exact congrArg some (h.links_append may)
    · next may => simp [Document.edit, append, may]
  | insertBefore parent child reference =>
    simp only [Links.edit?, h.canAdopt?_links, Option.bind_eq_bind, Option.bind_some]
    split
    · next may => exact congrArg some (h.links_insertBefore may)
    · next may => simp [Document.edit, insertBefore, may]
  | remove el =>
    simp only [Links.edit?]
    split
    · next own => simp [Document.edit, remove, own, parent?, h.ancestors_root]
    · exact congrArg some (h.links_remove el)
  | _ => exact absurd rfl keeps

theorem links_editAll (h : doc.Complete) (edits : List Edit) :
    doc.links.editAll? edits = some (doc.editAll edits).links := by
  induction edits generalizing doc with
  | nil => rfl
  | cons edit rest ih =>
    have first : doc.links.editAll? (edit :: rest) =
        (doc.links.edit? edit).bind fun l => l.editAll? rest := List.foldlM_cons ..
    rw [first, h.links_edit edit, Option.bind_some, ih (h.edit edit)]
    rfl

/-! ## The invariant -/

theorem sound_links (h : doc.Complete) : doc.links.Sound where
  root := (doc.contains_links .root).trans h.root
  top := by
    rw [h.parent?_links, parent?, h.ancestors_root]
    rfl
  below el there := of_decide_eq_true ((doc.contains_links el).symm.trans there)
  known parent el mem := by
    rw [h.children_links] at mem
    rw [contains_links]
    exact decide_eq_true (h.created el (Forest.children_subset _ parent mem))
  distinct parent := by
    rw [h.children_links]
    exact Forest.nodup_children h.distinct parent
  agrees := h.agrees_links
  unique parent parent' el mem mem' :=
    Option.some.inj
      (((h.agrees_links parent el).mp mem).symm.trans ((h.agrees_links parent' el).mp mem'))
  acyclic el cycle := by
    suffices ∀ other, Relation.TransGen (fun el parent => doc.links.parent? el = some parent)
        el other → (doc.ancestors other).length < (doc.ancestors el).length from
      Nat.lt_irrefl _ (this el cycle)
    intro other climb
    induction climb with
    | single above => exact h.length_ancestors_of_parent? (h.parent?_links _ ▸ above)
    | tail _ above ih =>
      exact Nat.lt_trans (h.length_ancestors_of_parent? (h.parent?_links _ ▸ above)) ih

end Complete

theorem links_new : Document.new.links = Links.new := by
  have nodes : Document.new.links.node? = Links.new.node? := by
    funext ⟨number⟩
    unfold links Links.new
    cases number with
    | zero => rfl
    | succ before => rfl
  exact congrArg (Links.mk · 1) nodes

/-- Whatever edits are made, those that write single links come to the links of the document. These
are links of a forest, so that every loop over them ends, from any element, and answers what the
document answers. -/
theorem links_sound (edits : List Edit) :
    let doc := Document.new.editAll edits
    ∃ l, Links.new.editAll? edits = some l ∧ l.Sound ∧
      (∀ el, l.contains el = doc.contains el ∧ l.parent? el = doc.parent? el ∧
        l.children el = doc.children el ∧
        l.ancestors? el = some (doc.ancestors el) ∧
        l.isAttached? el = some (doc.isAttached el) ∧
        l.descendants? el = some (doc.descendants el)) ∧
      (∀ el ancestor, l.isWithin? el ancestor = some (doc.isWithin el ancestor)) ∧
      ∀ el (s : Selector), l.closest? el (s.holds doc) = some (doc.closest? el s) := by
  intro doc
  have h : doc.Complete := Complete.new.editAll edits
  refine ⟨doc.links, ?_, h.sound_links, fun el => ?_, h.isWithin?_links, h.closest?_links⟩
  · rw [← links_new, Complete.new.links_editAll]
  · exact ⟨doc.contains_links el, h.parent?_links el, h.children_links el, h.ancestors?_links el,
      h.isAttached?_links el, h.descendants?_links el⟩

end FormDependencies.Document
