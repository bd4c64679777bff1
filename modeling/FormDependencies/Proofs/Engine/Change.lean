import FormDependencies.Proofs.Binding.Coherence
import FormDependencies.Proofs.Binding.Extension
import FormDependencies.Proofs.Engine.Step

/-!
Changes at one element. References above it are read again, and of the groups around it those whose
name has changed are computed anew. This is enough for all groups whose scope is attached.
-/

namespace FormDependencies.Engine
variable {ν : Type}

open Bindings (Rereads Refreshes SameSources)

/-- Whether a change of the references of some names at an element reaches a group. -/
def reaches (doc : Document) (target : ElementId) (names : List String) (g : Group) : Bool :=
  names.contains g.name && doc.isWithin target g.scope

/-- References are read again, and then groups are computed anew. -/
theorem elementChanged_shape {e : Engine ν} {doc : Document} (rooted : doc.Rooted)
    (separate : e.bindings.Separate) (target : ElementId) :
    ∃ b c names after,
      Rereads e.bindings doc e.accessors (target :: doc.ancestors target) b names ∧
        Refreshes b doc (reaches doc target names) b.groups c after ∧
        SameSources { c with groups := after } (e.elementChanged doc target).bindings := by
  have rereads := Bindings.rereads_referencesChanged separate rooted e.accessors target
  generalize changed : e.bindings.referencesChanged doc e.accessors target = r at rereads
  obtain ⟨b, names⟩ := r
  have separate := rereads.separate separate
  have refreshes := Bindings.refreshes_refreshEach doc (reaches doc target names) separate.groups
    separate.apart separate.placed.groups
  unfold elementChanged
  rw [changed]
  dsimp only
  split
  · next none =>
    -- no group is reached when no name has changed
    obtain rfl := List.isEmpty_iff.mp none
    refine ⟨b, b, [], b.groups, rereads, ?_, .queueWhere b _⟩
    have spared : ∀ g, ¬reaches doc target [] g := by simp [reaches]
    exact ⟨by simp [spared], rfl, rfl, fun _ _ => rfl, fun g _ picked => absurd picked (spared g)⟩
  · exact ⟨b, _, names, _, rereads, refreshes, .queueWhere _ _⟩

/-- A group with an attached scope that is not reached has members that hold what they held. -/
theorem read_of_not_reached {b c : Bindings ν} {doc : Document} {accessors : AccessorTable}
    {target : ElementId} {names : List String} (rooted : doc.Rooted) (separate : b.Separate)
    (rereads : Rereads b doc accessors (target :: doc.ancestors target) c names) {g : Group}
    (attached : doc.isAttached g.scope) (spared : ¬reaches doc target names g) {r : Reference}
    (mem : r ∈ b.namedWithin doc g.scope g.name) : c.read r.slot = b.read r.slot := by
  obtain ⟨there, named⟩ := List.mem_filter.mp mem
  obtain ⟨el, inside, found⟩ := List.mem_filterMap.mp there
  obtain rfl := Bindings.element_of_reference? found
  apply rereads.read_of_not_mem separate (Bindings.mem_of_reference? found)
  by_contra changed
  obtain ⟨listed, path⟩ := not_or.mp changed |>.imp not_not.mp not_not.mp
  apply spared
  rw [beq_iff_eq.mp named] at listed
  exact Bool.and_eq_true_iff.mpr ⟨List.contains_iff_mem.mpr listed,
    rooted.isWithin_of_path attached inside path⟩

/-- A group with an attached scope that is not reached stays computed. -/
theorem computed_of_not_reached {b c : Bindings ν} {doc : Document} {accessors : AccessorTable}
    {target : ElementId} {names : List String} (rooted : doc.Rooted) (separate : b.Separate)
    (rereads : Rereads b doc accessors (target :: doc.ancestors target) c names) {g : Group}
    (mem : g ∈ b.groups) (attached : doc.isAttached g.scope) (spared : ¬reaches doc target names g)
    (computed : b.Computed doc g) : c.Computed doc g where
  members := (Bindings.recomputed_congr rereads.references doc g).trans computed.members
  values := by
    have own := rereads.kept g.slot fun r mem' _ => separate.apart r mem' g mem
    have held : c.groupValues doc g = b.groupValues doc g := by
      unfold Bindings.groupValues
      rw [Bindings.namedWithin_congr rereads.references]
      apply Bindings.memberValues_congr
      exact fun r => read_of_not_reached rooted separate rereads attached spared
    rw [own, held]
    exact computed.values

/-- A change at an element leaves all groups computed whose scope is attached. -/
theorem computed_elementChanged {e : Engine ν} {doc : Document} (rooted : doc.Rooted)
    (separate : e.bindings.Separate) (target : ElementId)
    (computed : ∀ g ∈ e.bindings.groups, doc.isAttached g.scope → e.bindings.Computed doc g) :
    let c := (e.elementChanged doc target).bindings
    c.Separate ∧ ∀ g ∈ c.groups, doc.isAttached g.scope → c.Computed doc g := by
  intro c
  obtain ⟨b, d, names, after, rereads, refreshes, same⟩ :=
    elementChanged_shape rooted separate target
  have between := rereads.separate separate
  have refreshed : { d with groups := after }.Separate := between.refresh refreshes
  refine ⟨refreshed.of_eq same.size same.references same.groups, fun g mem attached => ?_⟩
  have mem : g ∈ after := by
    rw [same.groups] at mem
    exact mem
  rw [refreshes.after] at mem
  obtain ⟨g', there, rfl⟩ := List.mem_map.mp mem
  by_cases picked : reaches doc target names g'
  · rw [if_pos picked]
    exact (refreshes.computed between.apart there picked).congr same.references
      (fun r _ => same.reads r.slot) (same.reads _)
  · rw [if_neg picked] at attached ⊢
    have there' : g' ∈ e.bindings.groups := rereads.groups ▸ there
    have stored := computed_of_not_reached rooted separate rereads there' attached picked
      (computed g' there' attached)
    exact stored.congr (same.references.trans refreshes.references)
      (fun r mem => (same.reads r.slot).trans (refreshes.reads_references between.apart r mem))
      ((same.reads g'.slot).trans (refreshes.read_spared between.groups there picked))

/-- Groups are coherent whenever they have been computed anew, when they are first read, and, those
whose scope is attached, after a change of what is read at an element when they were before. To
compute them anew would then change nothing. -/
theorem groups_coherent {e : Engine ν} {doc : Document} (rooted : doc.Rooted)
    (separate : e.bindings.Separate) :
    let b := e.bindings
    let key := fun g : Group => (g.name, g.scope, g.slot)
    (let c := (b.actualizeGroups doc).1
     c.groups.map key = (b.groups.filter fun g => doc.isAttached g.scope).map key ∧
        (∀ g ∈ b.groups, doc.isAttached g.scope = false → c.read g.slot = .undefined) ∧
        ∀ g ∈ c.groups, c.Coherent doc g) ∧
      (∀ name scope,
        let c := (b.resolveGroup doc name scope).1
        let g := (b.resolveGroup doc name scope).2
        g.name = name ∧ g.scope = scope ∧
          ((∃ g' ∈ b.groups, g'.name = name ∧ g'.scope = scope) → c = b ∧ g ∈ b.groups) ∧
          ((¬∃ g' ∈ b.groups, g'.name = name ∧ g'.scope = scope) →
            c.groups = b.groups ++ [g] ∧ c.Coherent doc g)) ∧
      ∀ doc' target, doc.SameTree doc' →
        (∀ g ∈ b.groups, doc.isAttached g.scope → b.Coherent doc g) →
        let c := (e.elementChanged doc' target).bindings
        c.groups.map key = b.groups.map key ∧
          (∀ g ∈ c.groups, doc'.isAttached g.scope → c.Coherent doc' g) ∧
          (c.actualizeGroups doc').2 = 0 := by
  intro b key
  refine ⟨Bindings.coherent_actualizeGroups separate rooted, fun name scope => ?_,
    fun doc' target tree coherent => ?_⟩
  · obtain ⟨own, inside, known, added⟩ := Bindings.coherent_resolveGroup separate rooted name scope
    exact ⟨own, inside, known, fun absent => ⟨(added absent).1, (added absent).2.2⟩⟩
  · have rooted' := tree.rooted rooted
    have computed : ∀ g ∈ b.groups, doc'.isAttached g.scope → b.Computed doc' g := by
      intro g mem attached
      rw [tree.isAttached] at attached
      have there := (Bindings.coherent_iff_computed separate.placed rooted).mp
        (coherent g mem attached)
      exact .of_sameTree ⟨tree.forest.symm, tree.size.symm⟩ there
    obtain ⟨separate', computed'⟩ := computed_elementChanged rooted' separate target computed
    obtain ⟨_, _, _, after, rereads, refreshes, same⟩ :=
      elementChanged_shape rooted' separate target
    refine ⟨?_, fun g mem attached => ?_, Bindings.actualizeGroups_of_computed separate' computed'⟩
    · have keys := refreshes.map_eq key fun _ => rfl
      rw [rereads.groups] at keys
      rw [same.groups]
      exact keys
    · exact (Bindings.coherent_iff_computed separate'.placed rooted').mpr (computed' g mem attached)

def choiceEngine : Engine Unit where
  config := .standard
  collection := Accessor.radioGroupSelector
  evaluator := .script .first
  bindings := (Bindings.choiceBindings.resolveGroup Bindings.choiceForm "second" .root).1

theorem allotted_choiceEngine : choiceEngine.bindings.Allotted := by
  have extension : Bindings.Extends Bindings.choiceForm .root Bindings.choiceBindings
      choiceEngine.bindings := .resolveGroup Bindings.allotted_choiceBindings "second" (.inl rfl)
  exact extension.allotted

/-- To check the second button changes the group of its name. -/
theorem groups_coherent_choiceMade :
    let checked := Bindings.choiceForm.setChecked ⟨4⟩ true
    let c := (choiceEngine.elementChanged checked ⟨4⟩).bindings
    (∀ g ∈ choiceEngine.bindings.groups, choiceEngine.bindings.Coherent Bindings.choiceForm g) ∧
      (∀ g ∈ c.groups, checked.isAttached g.scope → c.Coherent checked g) ∧
      (c.actualizeGroups checked).2 = 0 ∧ c.groups.map (·.members) = [[⟨4⟩]] ∧
      ∀ g ∈ c.groups, (c.read g.slot == .list [.bool true]) = true := by
  intro checked c
  have rooted : Bindings.choiceForm.Rooted := by decide +kernel
  have first := Bindings.coherent_resolveGroup Bindings.allotted_choiceBindings.separate rooted
    "second" .root
  have coherent : ∀ g ∈ choiceEngine.bindings.groups,
      choiceEngine.bindings.Coherent Bindings.choiceForm g := by
    obtain ⟨groups, -, coherent⟩ := first.2.2.2 (by decide +kernel)
    intro g mem
    have mem : g ∈ Bindings.choiceBindings.groups ++ _ := groups ▸ mem
    obtain rfl : g = _ := List.mem_singleton.mp mem
    exact coherent
  have tree : Bindings.choiceForm.SameTree checked := Bindings.choiceForm.sameTree_modify ⟨4⟩ _
  have holds := groups_coherent rooted allotted_choiceEngine.separate
  obtain ⟨-, after, unchanged⟩ := holds.2.2 checked ⟨4⟩ tree fun g mem _ => coherent g mem
  exact ⟨coherent, after, unchanged, by decide +kernel, by decide +kernel⟩

end FormDependencies.Engine
