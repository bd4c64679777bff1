import Mathlib.Data.List.Nodup
import FormDependencies.Proofs.Binding.Standing
import FormDependencies.Proofs.Binding.Truth

/-!
Groups that agree with the references. When they are computed anew, or read for the first time, they
have the members that the references of their scope make, and hold what these hold.
-/

namespace FormDependencies

namespace Bindings
variable {ν : Type}

def stored (b : Bindings ν) (el : ElementId) : Value :=
  match b.reference? el with
  | some r => b.read r.slot
  | none => .undefined

/-- A group has for members the elements within its scope that have references of its name, in
document order. It holds what these hold, and counts as many as it hands out. -/
structure Coherent (b : Bindings ν) (doc : Document) (g : Group) : Prop where
  ordered : g.members.Sublist (g.scope :: doc.descendants g.scope)
  members : ∀ el, el ∈ g.members ↔ el ∈ g.scope :: doc.descendants g.scope ∧
    ∃ r ∈ b.references, r.element = el ∧ r.name = g.name
  value : (b.read g.slot == .list (g.members.map b.stored)) = true
  count : (b.snapshot g).count = (b.snapshot g).values.length

section
variable {b : Bindings ν} {doc : Document} {scope : ElementId} {name : String} {g : Group}

theorem map_element_namedWithin (b : Bindings ν) (doc : Document) (scope : ElementId)
    (name : String) : (b.namedWithin doc scope name).map (·.element) =
      (scope :: doc.descendants scope).filter fun el => (b.reference? el).any (·.name == name) := by
  unfold namedWithin
  generalize scope :: doc.descendants scope = els
  induction els with
  | nil => rfl
  | cons el rest ih =>
    cases found : b.reference? el with
    | none => simpa [found] using ih
    | some r =>
      have own := element_of_reference? found
      by_cases same : r.name = name
      · simpa [found, same, own] using ih
      · simpa [found, same] using ih

theorem stored_of_mem (placed : b.Placed) {r : Reference} (mem : r ∈ b.references) :
    b.stored r.element = b.read r.slot := by
  unfold stored
  rw [reference?_of_mem placed mem]

theorem groupValues_eq (placed : b.Placed) (doc : Document) (g : Group) :
    b.groupValues doc g =
      .list (((b.namedWithin doc g.scope g.name).map (·.element)).map b.stored) := by
  unfold groupValues memberValues
  rw [List.map_map]
  congr 1
  apply List.map_congr_left
  intro r mem
  exact (stored_of_mem placed (mem_references_of_mem_namedWithin mem)).symm

theorem mem_filter_named_iff (placed : b.Placed) {el : ElementId} :
    (b.reference? el).any (·.name == name) ↔
      ∃ r ∈ b.references, r.element = el ∧ r.name = name := by
  constructor
  · intro named
    obtain ⟨r, found, same⟩ := Option.any_eq_true .. |>.mp named
    exact ⟨r, mem_of_reference? found, element_of_reference? found, beq_iff_eq.mp same⟩
  · rintro ⟨r, mem, rfl, rfl⟩
    rw [reference?_of_mem placed mem]
    exact beq_self_eq_true r.name

/-- Coherent groups are those that are as the document has them. -/
theorem coherent_iff_computed (placed : b.Placed) (rooted : doc.Rooted) :
    b.Coherent doc g ↔ b.Computed doc g := by
  have named := b.map_element_namedWithin doc g.scope g.name
  have values := groupValues_eq placed doc g
  constructor
  · intro h
    have members : (b.namedWithin doc g.scope g.name).map (·.element) = g.members := by
      rw [named]
      have distinct := rooted.nodup_within g.scope
      apply (distinct.perm_iff_eq_of_sublist List.filter_sublist h.ordered).mp
      rw [List.perm_ext_iff_of_nodup (distinct.filter _) (distinct.sublist h.ordered)]
      intro el
      rw [List.mem_filter, h.members, mem_filter_named_iff placed]
    constructor
    · unfold recomputed
      rw [members]
    · rw [values, members]
      exact h.value
  · intro h
    have members : (b.namedWithin doc g.scope g.name).map (·.element) = g.members :=
      congrArg Group.members h.members
    obtain ⟨items, held, length⟩ := h.holds
    constructor
    · rw [← members, named]
      exact List.filter_sublist
    · intro el
      rw [← members, named, List.mem_filter, mem_filter_named_iff placed]
    · rw [← members, ← values]
      exact h.values
    · unfold snapshot
      rw [held]
      exact length.symm

end

/-! ## Computing anew -/

/-- To compute the groups anew keeps those whose scope is attached and makes them coherent. The
slots of the others are cleared. -/
theorem coherent_actualizeGroups {b : Bindings ν} {doc : Document} (separate : b.Separate)
    (rooted : doc.Rooted) :
    let c := (b.actualizeGroups doc).1
    let key := fun g : Group => (g.name, g.scope, g.slot)
    c.groups.map key = (b.groups.filter fun g => doc.isAttached g.scope).map key ∧
      (∀ g ∈ b.groups, doc.isAttached g.scope = false → c.read g.slot = .undefined) ∧
      ∀ g ∈ c.groups, c.Coherent doc g := by
  intro c key
  have placed : c.Placed := (Announces.actualizeGroups b doc).placed separate.placed
  have computed := (computed_actualizeGroups separate doc).2
  obtain ⟨cleared, d, after, clears, refreshes, notes⟩ := refreshes_actualizeGroups separate doc
  have sources : SameSources { d with groups := after } c := .notes notes
  refine ⟨?_, fun g mem loose => ?_, fun g mem => ?_⟩
  · rw [sources.groups]
    exact refreshes.map_eq key fun _ => rfl
  · have gone : g ∈ b.groups.filter fun g => !doc.isAttached g.scope :=
      List.mem_filter.mpr ⟨mem, by simp [loose]⟩
    have kept : d.read g.slot = cleared.read g.slot :=
      refreshes.reads g.slot fun g' mem' _ => (separate.dropped_ne gone mem').symm
    rw [sources.reads]
    refine kept.trans ?_
    rw [clears.reads, if_pos ⟨⟨g, gone, rfl⟩, separate.placed.groups g mem⟩]
  · exact (coherent_iff_computed placed rooted).mpr (computed g mem).2

/-- Where the groups whose scope is attached are computed, to compute the groups anew changes no
value. -/
theorem actualizeGroups_of_computed {b : Bindings ν} {doc : Document} (separate : b.Separate)
    (computed : ∀ g ∈ b.groups, doc.isAttached g.scope → b.Computed doc g) :
    (b.actualizeGroups doc).2 = 0 := by
  let live := b.groups.filter fun g => doc.isAttached g.scope
  let gone := b.groups.filter fun g => !doc.isAttached g.scope
  let cleared := gone.foldl (fun b g => (b.write g.slot .undefined).1) b
  have clears : Clears b gone cleared := clears_foldl gone b
  have same := clears.sameReferences separate fun g mem => (List.mem_filter.mp mem).1
  have stays : ∀ g ∈ live, cleared.Computed doc g := by
    intro g mem
    obtain ⟨there, attached⟩ := List.mem_filter.mp mem
    apply (computed g there attached).congr same.references same.reads
    exact clears.read_of_free fun g' mem' => separate.dropped_ne mem' mem
  unfold actualizeGroups
  rw [partition_groups]
  exact congrArg (·.2.2) (refreshEach_of_computed (fun _ => true) stays)

/-- To read a group that is there changes nothing. One that is not there is added, coherent. -/
theorem coherent_resolveGroup {b : Bindings ν} {doc : Document} (separate : b.Separate)
    (rooted : doc.Rooted) (name : String) (scope : ElementId) :
    let c := (b.resolveGroup doc name scope).1
    let g := (b.resolveGroup doc name scope).2
    g.name = name ∧ g.scope = scope ∧
      ((∃ g' ∈ b.groups, g'.name = name ∧ g'.scope = scope) → c = b ∧ g ∈ b.groups) ∧
      ((¬∃ g' ∈ b.groups, g'.name = name ∧ g'.scope = scope) →
        c.groups = b.groups ++ [g] ∧ SameReferences b c ∧ c.Coherent doc g) := by
  intro c g
  have placed : c.Placed := (Announces.resolveGroup b doc name scope).placed separate.placed
  cases found : b.group? name scope with
  | some known =>
    obtain ⟨mem, own, inside⟩ := mem_of_group? found
    have same : b.resolveGroup doc name scope = (b, known) := by
      unfold resolveGroup
      rw [found]
    unfold c g
    rw [same]
    exact ⟨own, inside, fun _ => ⟨rfl, mem⟩, fun absent => absurd ⟨known, mem, own, inside⟩ absent⟩
  | none =>
    have created := creates_resolveGroup separate.placed found doc
    refine ⟨created.key.1, created.key.2, fun ⟨g', mem, own, inside⟩ => ?_, fun _ => ?_⟩
    · have other := List.find?_eq_none.mp found g' mem
      simp [own, inside] at other
    · refine ⟨created.groups, ⟨created.references, fun r mem => ?_⟩, ?_⟩
      · exact created.reads r.slot (separate.placed.references r mem)
      · exact (coherent_iff_computed placed rooted).mpr created.fresh.computed

end Bindings

end FormDependencies
