import FormDependencies.Proofs.Binding.Settlement
import FormDependencies.Proofs.Binding.Slots

/-!
What evaluations add. A group that is read for the first time is computed in the document that is
there. All references and groups that were there before stay as they are, with what their slots
hold.
-/

namespace FormDependencies

/-- Whether a scope can bound what an element reads: it is the root, or a selector means it upwards
from the element. -/
def Document.Bounds (doc : Document) (el scope : ElementId) : Prop :=
  scope = .root ∨ ∃ selector, doc.closest? el selector = some scope

namespace Bindings
variable {ν : Type}

structure Fresh (b : Bindings ν) (doc : Document) (g : Group) : Prop where
  members : b.recomputed doc g = g
  values : b.read g.slot = b.groupValues doc g

theorem Fresh.computed {b : Bindings ν} {doc : Document} {g : Group} (h : b.Fresh doc g) :
    b.Computed doc g := by
  refine ⟨h.members, ?_⟩
  rw [h.values]
  exact ReflBEq.rfl

theorem Fresh.congr {b c : Bindings ν} {doc : Document} {g : Group} (h : b.Fresh doc g)
    (references : c.references = b.references)
    (reads : ∀ r ∈ b.references, c.read r.slot = b.read r.slot)
    (read : c.read g.slot = b.read g.slot) : c.Fresh doc g where
  members := (recomputed_congr references doc g).trans h.members
  values := by
    rw [read, groupValues_congr references reads]
    exact h.values

/-- A group with a slot and a key of its own may be added. -/
theorem Allotted.addGroup {b : Bindings ν} (h : b.Allotted) {g : Group}
    (there : b.Has (.slot g.slot)) (free : ∀ r ∈ b.references, r.slot ≠ g.slot)
    (own : ∀ g' ∈ b.groups, g'.slot ≠ g.slot) (new : b.group? g.name g.scope = none)
    (holds : b.Holds g) : { b with groups := b.groups ++ [g] }.Allotted where
  placed :=
    { ascending := h.placed.ascending
      references := h.placed.references
      groups := by
        intro g' mem
        rcases List.mem_append.mp mem with mem | mem
        · exact h.placed.groups g' mem
        · rw [List.mem_singleton.mp mem]
          exact there }
  references := h.references
  groups := by
    rw [List.map_append, List.nodup_append]
    refine ⟨h.groups, List.pairwise_singleton .., ?_⟩
    intro slot mem other mem' same
    obtain ⟨g', listed, rfl⟩ := List.mem_map.mp mem
    exact own g' listed (same.trans (List.mem_singleton.mp mem'))
  apart r mem g' mem' := by
    rcases List.mem_append.mp mem' with mem' | mem'
    · exact h.apart r mem g' mem'
    · rw [List.mem_singleton.mp mem']
      exact free r mem
  keys := by
    rw [List.map_append, List.nodup_append]
    refine ⟨h.keys, List.pairwise_singleton .., ?_⟩
    intro key mem other mem' same
    obtain ⟨g', listed, rfl⟩ := List.mem_map.mp mem
    have key := same.trans (List.mem_singleton.mp mem')
    have different := List.find?_eq_none.mp new g' listed
    simp only [Prod.mk.injEq] at key
    simp [key] at different
  holds g' mem := by
    rcases List.mem_append.mp mem with mem | mem
    · exact h.holds g' mem
    · rw [List.mem_singleton.mp mem]
      exact holds

/-- Groups may have been added that are bounded by what an element reads and have been computed in
the document. Nothing else has changed about references, groups and what slots hold. -/
structure Extends (doc : Document) (el : ElementId) (b c : Bindings ν) : Prop where
  allotted : c.Allotted
  references : c.references = b.references
  size : b.slots.size ≤ c.slots.size
  reads : ∀ id, b.Has (.slot id) → c.read id = b.read id
  groups : ∃ added, c.groups = b.groups ++ added ∧
    ∀ g ∈ added, c.Fresh doc g ∧ doc.Bounds el g.scope

namespace Extends
variable {doc : Document} {el : ElementId} {b c d : Bindings ν}

theorem of_same (h : b.Allotted) (same : SameSources b c) : Extends doc el b c where
  allotted := h.same same
  references := same.references
  size := Nat.le_of_eq same.size.symm
  reads id _ := same.reads id
  groups := ⟨[], same.groups.trans (List.append_nil _).symm,
    fun _ none => absurd none List.not_mem_nil⟩

theorem refl (h : b.Allotted) : Extends doc el b b := .of_same h (.refl b)

theorem trans (first : Extends doc el b c) (second : Extends doc el c d) : Extends doc el b d where
  allotted := second.allotted
  references := second.references.trans first.references
  size := Nat.le_trans first.size second.size
  reads id there := (second.reads id (there.mono first.size)).trans (first.reads id there)
  groups := by
    obtain ⟨earlier, groups, fresh⟩ := first.groups
    obtain ⟨later, groups', fresh'⟩ := second.groups
    refine ⟨earlier ++ later, by rw [groups', groups, List.append_assoc], fun g mem => ?_⟩
    rcases List.mem_append.mp mem with mem | mem
    · have listed : g ∈ c.groups := groups ▸ List.mem_append_right _ mem
      have read := second.reads g.slot (first.allotted.placed.groups g listed)
      have members : ∀ r ∈ c.references, d.read r.slot = c.read r.slot := fun r mem =>
        second.reads r.slot (first.allotted.placed.references r mem)
      exact ⟨(fresh g mem).1.congr second.references members read, (fresh g mem).2⟩
    · exact fresh' g mem

theorem then_same (h : Extends doc el b c) (same : SameSources c d) : Extends doc el b d :=
  h.trans (.of_same h.allotted same)

/-- What was read of references is read of them still. -/
theorem reads_references (h : Extends doc el b c) (placed : b.Placed) :
    ∀ r ∈ b.references, c.read r.slot = b.read r.slot :=
  fun r mem => h.reads r.slot (placed.references r mem)

/-- A group that is there is found still. -/
theorem group?_eq_some (h : Extends doc el b c) {name : String} {scope : ElementId} {g : Group}
    (found : b.group? name scope = some g) : c.group? name scope = some g := by
  obtain ⟨added, groups, -⟩ := h.groups
  unfold group? at found ⊢
  rw [groups, List.find?_append, found, Option.some_or]

/-- A group that was not there has been computed in the document. -/
theorem fresh_of_new (h : Extends doc el b c) {name : String} {scope : ElementId} {g : Group}
    (absent : b.group? name scope = none) (found : c.group? name scope = some g) :
    c.Fresh doc g := by
  obtain ⟨added, groups, fresh⟩ := h.groups
  unfold group? at absent found
  rw [groups, List.find?_append, absent, Option.none_or] at found
  exact (fresh g (List.mem_of_find?_eq_some found)).1

end Extends

/-! ## New groups -/

def store (b : Bindings ν) (items : List Value) : Bindings ν :=
  ((b.newSlot (.list [])).1.write ⟨b.slots.size⟩ (.list items)).1

section
variable (b : Bindings ν) (items : List Value)

theorem size_store : (b.store items).slots.size = b.slots.size + 1 :=
  (size_write ..).trans (Array.size_push ..)

theorem references_store : (b.store items).references = b.references := references_write ..

theorem groups_store : (b.store items).groups = b.groups := groups_write ..

theorem read_store_of_has {id : SlotId} (there : b.Has (.slot id)) :
    (b.store items).read id = b.read id := by
  have inside : id.index < b.slots.size := there
  have other : (⟨b.slots.size⟩ : SlotId) ≠ id := fun same =>
    Nat.ne_of_gt inside (congrArg SlotId.index same)
  unfold store
  rw [read_write, if_neg fun same => other same.1, read_newSlot, if_neg (Nat.ne_of_lt inside)]

theorem read_store : (b.store items).read ⟨b.slots.size⟩ = .list items := by
  have inside : b.slots.size < (b.newSlot (.list [])).1.slots.size := by simp [newSlot]
  have empty : (b.newSlot (.list [])).1.read ⟨b.slots.size⟩ = .list [] := by simp [read_newSlot]
  unfold store
  rw [read_write]
  split
  · rfl
  · next same =>
    -- no list but the empty one agrees with what the slot holds
    have agrees : (Value.list [] == .list items) = true := by simpa [inside, empty] using same
    obtain ⟨others, same, length⟩ := Value.eq_list_of_beq agrees
    obtain rfl := Value.list.inj same
    rw [empty, List.length_eq_zero_iff.mp length.symm]

end

/-- The first time that a group is read its members are looked up and their values stored. -/
theorem resolveGroup_of_absent {b : Bindings ν} {name : String} {scope : ElementId}
    (absent : b.group? name scope = none) (doc : Document) :
    let members := b.namedWithin doc scope name
    let g : Group := ⟨name, scope, members.map (·.element), ⟨b.slots.size⟩⟩
    ∃ event : LogEvent, b.resolveGroup doc name scope =
      ({ (b.store (members.map fun r => (b.newSlot (.list [])).1.read r.slot)).log event with
          groups := (b.store (members.map fun r => (b.newSlot (.list [])).1.read r.slot)).groups ++
            [g] }, g) := by
  unfold resolveGroup
  rw [absent]
  exact ⟨_, rfl⟩

structure Creates (b : Bindings ν) (doc : Document) (name : String) (scope : ElementId)
    (c : Bindings ν) (g : Group) : Prop where
  key : g.name = name ∧ g.scope = scope
  slot : g.slot = ⟨b.slots.size⟩
  references : c.references = b.references
  groups : c.groups = b.groups ++ [g]
  size : b.slots.size < c.slots.size
  reads : ∀ id, b.Has (.slot id) → c.read id = b.read id
  fresh : c.Fresh doc g

theorem creates_resolveGroup {b : Bindings ν} (placed : b.Placed) {name : String}
    {scope : ElementId} (absent : b.group? name scope = none) (doc : Document) :
    Creates b doc name scope (b.resolveGroup doc name scope).1
      (b.resolveGroup doc name scope).2 := by
  let members := b.namedWithin doc scope name
  let g : Group := ⟨name, scope, members.map (·.element), ⟨b.slots.size⟩⟩
  obtain ⟨event, same⟩ := resolveGroup_of_absent absent doc
  have old : members.map (fun r => (b.newSlot (.list [])).1.read r.slot) =
      members.map fun r => b.read r.slot := by
    apply List.map_congr_left
    intro r mem
    rw [read_newSlot, if_neg]
    exact Nat.ne_of_lt (placed.references r (mem_references_of_mem_namedWithin mem))
  rw [same, old]
  let items := members.map fun r => b.read r.slot
  have references : (b.store items).references = b.references := b.references_store items
  have reads : ∀ id, b.Has (.slot id) → (b.store items).read id = b.read id := fun id =>
    b.read_store_of_has items
  refine ⟨⟨rfl, rfl⟩, rfl, references, congrArg (· ++ [g]) (b.groups_store items),
    Nat.lt_of_lt_of_eq (Nat.lt_succ_self _) (b.size_store items).symm, reads, ⟨?_, ?_⟩⟩
  · exact recomputed_congr (b := b) references doc g
  · refine (b.read_store items).trans (Eq.symm ?_)
    exact groupValues_congr (b := b) references
      (fun r mem => reads r.slot (placed.references r mem)) doc g

theorem Allotted.resolveGroup {b : Bindings ν} (h : b.Allotted) (doc : Document) (name : String)
    (scope : ElementId) : (b.resolveGroup doc name scope).1.Allotted := by
  cases found : b.group? name scope with
  | some g =>
    have same : b.resolveGroup doc name scope = (b, g) := by
      simp only [Bindings.resolveGroup, found]
    rw [same]
    exact h
  | none =>
    have created := creates_resolveGroup h.placed found doc
    generalize b.resolveGroup doc name scope = r at created ⊢
    obtain ⟨c, g⟩ := r
    obtain ⟨rfl, rfl⟩ := created.key
    let kept : Bindings ν := { c with groups := b.groups }
    have free : ∀ r ∈ kept.references, r.slot ≠ g.slot := by
      intro r mem same
      rw [created.slot] at same
      exact Nat.ne_of_lt (h.placed.references r (created.references ▸ mem))
        (congrArg SlotId.index same)
    have own : ∀ g' ∈ kept.groups, g'.slot ≠ g.slot := by
      intro g' mem same
      rw [created.slot] at same
      exact Nat.ne_of_lt (h.placed.groups g' mem) (congrArg SlotId.index same)
    have there : kept.Has (.slot g.slot) := created.slot ▸ created.size
    have grown : kept.Allotted := h.grow created.references rfl (Nat.le_of_lt created.size)
      fun g' mem => created.reads g'.slot (h.placed.groups g' mem)
    have added := grown.addGroup there free own found created.fresh.computed.holds
    exact added.same (.of_slots rfl created.groups rfl)

theorem Extends.resolveGroup {doc : Document} {el : ElementId} {b : Bindings ν} (h : b.Allotted)
    (name : String) {scope : ElementId} (bounds : doc.Bounds el scope) :
    Extends doc el b (b.resolveGroup doc name scope).1 := by
  have allotted := h.resolveGroup doc name scope
  cases found : b.group? name scope with
  | some g =>
    have same : b.resolveGroup doc name scope = (b, g) := by
      simp only [Bindings.resolveGroup, found]
    rw [same]
    exact refl h
  | none =>
    have created := creates_resolveGroup h.placed found doc
    refine ⟨allotted, created.references, Nat.le_of_lt created.size, created.reads, [_],
      created.groups, fun g mem => ?_⟩
    obtain rfl := List.mem_singleton.mp mem
    exact ⟨created.fresh, created.key.2.symm ▸ bounds⟩

/-! ## Looking up -/

section
variable {doc : Document} {el : ElementId} {b : Bindings ν} {l : Lookup ν}

theorem Extends.watchEpoch (h : Extends doc el b l.bindings) (name : String) (id : ObserverId) :
    Extends doc el b (l.watchEpoch name id).bindings :=
  h.then_same (.subscribeEpoch l.bindings name id)

theorem Extends.watchSlot (h : Extends doc el b l.bindings) (slot : SlotId) (id : ObserverId) :
    Extends doc el b (l.watchSlot slot id).bindings :=
  h.then_same (.subscribeSlot l.bindings slot (.observer id))

theorem Extends.simple (h : Extends doc el b l.bindings) (id : ObserverId)
    (token : ReferenceToken) (scope : Option ElementId) :
    Extends doc el b (l.simple doc el id token scope).bindings := by
  have watched := h.watchEpoch token.name id
  unfold Lookup.simple
  dsimp only
  cases (l.watchEpoch token.name id).bindings.resolve doc el token.name scope with
  | none => exact watched
  | some r => exact watched.watchSlot r.slot id

theorem Extends.group (h : Extends doc el b l.bindings) (id : ObserverId)
    (token : ReferenceToken) {scope : ElementId} (bounds : doc.Bounds el scope) :
    Extends doc el b (l.group doc id token scope).bindings := by
  have watched := h.watchEpoch token.name id
  have resolved := watched.trans (.resolveGroup watched.allotted token.name bounds)
  exact Extends.watchSlot
    (l := { l.watchEpoch token.name id with
      bindings := ((l.watchEpoch token.name id).bindings.resolveGroup doc token.name scope).1 })
    resolved _ id

theorem Extends.this (h : Extends doc el b l.bindings) (accessors : AccessorTable)
    (token : ReferenceToken) : Extends doc el b (l.this doc accessors el token).bindings :=
  h.then_same (.notes (notes_logCast l.bindings (accessors.castFailure? doc el .auto)))

theorem Extends.outOfScope (h : Extends doc el b l.bindings) (id : ObserverId)
    (token : ReferenceToken) : Extends doc el b (l.outOfScope id token).bindings := by
  have watched := h.watchEpoch token.name id
  unfold Lookup.outOfScope
  dsimp only
  split
  · exact watched
  · exact watched

theorem Extends.token (h : Extends doc el b l.bindings) (accessors : AccessorTable)
    (id : ObserverId) (token : ReferenceToken) :
    Extends doc el b (l.token doc accessors el id token).bindings := by
  have within : ∀ scope : Option ElementId, doc.Bounds el (scope.getD .root) →
      Extends doc el b (l.within doc accessors el id token scope).bindings := by
    intro scope bounds
    unfold Lookup.within
    cases token.kind with
    | simple => exact h.simple id token scope
    | group => exact h.group id token bounds
    | this => exact h.this accessors token
  unfold Lookup.token
  cases token.scope with
  | none => exact within none (.inl rfl)
  | some selector =>
    dsimp only
    cases found : doc.closest? el selector with
    | none => exact h.outOfScope id token
    | some root => exact within (some root) (.inr ⟨selector, found⟩)

end

/-- What looking up the references of a query adds, token after token. -/
theorem extends_lookUp {b : Bindings ν} (h : b.Allotted) (doc : Document)
    (accessors : AccessorTable) (o : Observer ν) :
    Extends doc o.element b (b.lookUp doc accessors o).bindings := by
  have each : ∀ (tokens : List ReferenceToken) (l : Lookup ν),
      Extends doc o.element b l.bindings →
      Extends doc o.element b (tokens.foldl
        (fun l token => l.token doc accessors o.element o.id token) l).bindings := by
    intro tokens
    induction tokens with
    | nil => exact fun _ h => h
    | cons token rest ih => exact fun l h => ih _ (h.token accessors o.id token)
  exact each o.query.references { bindings := b } (.refl h)

theorem extends_rebind {b : Bindings ν} (h : b.Allotted) (doc : Document)
    (accessors : AccessorTable) (o : Observer ν) :
    Extends doc o.element b (b.rebind doc accessors o).1 := by
  let l := b.lookUp doc accessors o
  have looked := extends_lookUp h doc accessors o
  have recorded : SameSources l.bindings (l.bindings.record (.lookedUp o.id l.readings)) :=
    .of_slots rfl rfl rfl
  have ended := recorded.trans (.unsubscribeAll _ o.subscriptions)
  exact looked.then_same (ended.trans (.of_slots rfl rfl rfl))

/-- What an evaluation does to references, groups and slots is what its look-up does. -/
theorem extends_evaluateObserver {b : Bindings ν} (h : b.Allotted) (doc : Document)
    (env : Environment) (o : Observer ν) :
    Extends doc o.element b (b.evaluateObserver doc env o).1 := by
  obtain ⟨change, added, same, -⟩ := b.evaluateObserver_eq doc env o
  rw [same]
  exact (extends_rebind h doc env.accessors o).then_same (.of_slots rfl rfl rfl)

theorem Allotted.attempt {b c : Bindings ν} {doc doc' : Document} {env : Environment}
    {id : ObserverId} (h : b.Allotted) (attempted : Attempted b doc env id c doc') :
    c.Allotted := by
  have counted : (b.countTurn id).Allotted := h.same (.of_slots rfl rfl rfl)
  cases attempted with
  | refused => exact h.same (.of_slots rfl rfl rfl)
  | missing => exact counted
  | detached _ o => exact counted.same (.destroyElement _ o.element)
  | evaluated _ o => exact (extends_evaluateObserver counted doc env o).allotted

end Bindings

end FormDependencies
