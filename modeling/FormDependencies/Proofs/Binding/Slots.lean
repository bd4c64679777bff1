import Mathlib.Data.List.Nodup
import FormDependencies.Proofs.Binding.Evaluation
import FormDependencies.Proofs.Value.Same

/-!
Slots and what they hold. Each reference and each group has a slot of its own, so that what is
written for one is never read for another, and the slot of a group holds one value for each member.
-/

namespace FormDependencies.Bindings
variable {ν : Type}

/-! ## Reading and writing -/

theorem read_newSlot (b : Bindings ν) (value : Value) (id : SlotId) :
    (b.newSlot value).1.read id = if id.index = b.slots.size then value else b.read id := by
  unfold read
  rw [slot_newSlot]
  split <;> rfl

theorem slots_push (b : Bindings ν) (id : ObserverId) : (b.push id).slots = b.slots :=
  push_keeps (·.slots) (fun _ _ => rfl) b id

/-- A value that agrees with what a slot holds is not written; any other one is stored. -/
theorem slots_write (b : Bindings ν) (id : SlotId) (value : Value) :
    (b.write id value).1.slots =
      if b.read id == value then b.slots
      else b.slots.setIfInBounds id.index ((b.slot id).set value).1 := by
  have called : ∀ (b : Bindings ν) (entry : Nat × Listener ν),
      (b.call value entry.2).slots = b.slots := by
    intro b entry
    cases entry.2 with
    | observer id => exact b.slots_push id
    | host note => rfl
  have differs := (b.slot id).set_snd value
  unfold write
  cases changed : (b.slot id).set value with
  | mk o changes =>
    rw [changed] at differs
    cases changes with
    | false =>
      have same : (b.read id == value) = true := by simpa [read] using differs
      rw [if_pos same]
      rfl
    | true =>
      have different : ¬(b.read id == value) = true := by simpa [read] using differs
      rw [if_neg different]
      exact foldl_keeps (·.slots) _ called _ _

theorem size_write (b : Bindings ν) (id : SlotId) (value : Value) :
    (b.write id value).1.slots.size = b.slots.size := by
  rw [slots_write]
  split
  · rfl
  · simp

theorem read_write (b : Bindings ν) (id other : SlotId) (value : Value) :
    (b.write id value).1.read other =
      if id = other ∧ id.index < b.slots.size ∧ (b.read id == value) = false then value
      else b.read other := by
  have read_eq : (b.write id value).1.read other =
      ({ b with slots := (b.write id value).1.slots } : Bindings ν).read other := rfl
  rw [read_eq, slots_write]
  by_cases same : (b.read id == value) = true
  · rw [if_pos same, if_neg fun h => by simp [same] at h]
  · have differs : ((b.slot id).value == value) = false := by simpa [read] using same
    have stored : ((b.slot id).set value).1.value = value := by
      simp [Observable.set, differs]
    rw [if_neg same]
    simp only [read, slot_setIfInBounds]
    simp only [differs, and_true]
    split
    · exact stored
    · rfl

/-- What is written agrees with what is read afterwards. -/
theorem read_write_self {b : Bindings ν} {id : SlotId} (there : b.Has (.slot id)) (value : Value) :
    ((b.write id value).1.read id == value) = true := by
  have inside : id.index < b.slots.size := there
  rw [read_write]
  split
  · exact ReflBEq.rfl
  · next h => simpa [inside] using h

theorem write_of_same {b : Bindings ν} {id : SlotId} {value : Value}
    (same : (b.read id == value) = true) : b.write id value = (b, false) := by
  have kept : (b.slot id).set value = (b.slot id, false) := by
    unfold Observable.set
    exact if_pos same
  unfold write
  simp [kept]

/-! ## What leaves references, groups and slots alone -/

structure SameSources (b c : Bindings ν) : Prop where
  references : c.references = b.references
  groups : c.groups = b.groups
  size : c.slots.size = b.slots.size
  reads : ∀ id, c.read id = b.read id

namespace SameSources
variable {b c d : Bindings ν}

theorem of_slots (references : c.references = b.references) (groups : c.groups = b.groups)
    (slots : c.slots = b.slots) : SameSources b c where
  references := references
  groups := groups
  size := congrArg Array.size slots
  reads id := by simp only [read, slot, slots]

theorem refl (b : Bindings ν) : SameSources b b := .of_slots rfl rfl rfl

theorem trans (first : SameSources b c) (second : SameSources c d) : SameSources b d where
  references := second.references.trans first.references
  groups := second.groups.trans first.groups
  size := second.size.trans first.size
  reads id := (second.reads id).trans (first.reads id)

theorem notes (h : Notes b c) : SameSources b c := by
  obtain ⟨added, rfl, -⟩ := h
  exact .of_slots rfl rfl rfl

theorem push (b : Bindings ν) (id : ObserverId) : SameSources b (b.push id) := by
  apply of_slots
  · exact push_keeps (·.references) (fun _ _ => rfl) b id
  · exact push_keeps (·.groups) (fun _ _ => rfl) b id
  · exact b.slots_push id

theorem foldl {α : Type} (step : Bindings ν → α → Bindings ν)
    (each : ∀ b a, SameSources b (step b a)) (entries : List α) (b : Bindings ν) :
    SameSources b (entries.foldl step b) := by
  induction entries generalizing b with
  | nil => exact refl b
  | cons entry rest ih => exact (each b entry).trans (ih _)

theorem pushes {α : Type} (name : α → ObserverId) (entries : List α) (b : Bindings ν) :
    SameSources b (entries.foldl (fun b entry => b.push (name entry)) b) :=
  foldl _ (fun b entry => push b (name entry)) entries b

theorem bump (b : Bindings ν) (name : String) : SameSources b (b.bump name) := by
  unfold Bindings.bump
  split
  · exact refl b
  · next o _ =>
    have stored : SameSources b (b.modifyEpoch name fun o => (o.set (o.value + 1)).1) :=
      of_slots rfl rfl rfl
    exact stored.trans (pushes (·.2) o.subscribers _)

theorem subscribeEpoch (b : Bindings ν) (name : String) (id : ObserverId) :
    SameSources b (b.subscribeEpoch name id).1 := by
  apply of_slots
  · exact Lookup.Faithful.openEpoch_keeps (·.references) (fun _ _ => rfl) b name
  · exact Lookup.Faithful.openEpoch_keeps (·.groups) (fun _ _ => rfl) b name
  · exact Lookup.Faithful.openEpoch_keeps (·.slots) (fun _ _ => rfl) b name

/-- The subscribers of a slot do not change what it holds. -/
theorem modifySlot (b : Bindings ν) (id : SlotId)
    (change : Observable Value (Listener ν) → Observable Value (Listener ν))
    (value : ∀ o, (change o).value = o.value) :
    SameSources b { b with slots := b.slots.modify id.index change } where
  references := rfl
  groups := rfl
  size := Array.size_modify ..
  reads other := by
    simp only [read, slot_modifySlot]
    split
    · exact value _
    · rfl

theorem subscribeSlot (b : Bindings ν) (id : SlotId) (listener : Listener ν) :
    SameSources b (b.subscribeSlot id listener).1 :=
  (modifySlot b id (·.subscribe b.nextSubscription listener) fun _ => rfl).trans
    (of_slots rfl rfl rfl)

theorem unsubscribe (b : Bindings ν) (s : Subscription) : SameSources b (b.unsubscribe s) := by
  obtain ⟨source, number⟩ := s
  cases source with
  | epoch name => exact of_slots rfl rfl rfl
  | slot id => exact modifySlot b id (·.unsubscribe number) fun _ => rfl

theorem unsubscribeAll (b : Bindings ν) (ended : List Subscription) :
    SameSources b (b.unsubscribeAll ended) :=
  foldl _ unsubscribe ended b

theorem destroyElement (b : Bindings ν) (el : ElementId) :
    SameSources b (b.destroyElement el).1 := by
  unfold Bindings.destroyElement
  split
  · exact refl b
  · exact (unsubscribeAll b _).trans (of_slots rfl rfl rfl)

theorem actualizeObservers (b : Bindings ν) (doc : Document) :
    SameSources b (b.actualizeObservers doc).1 := by
  apply actualizeObservers_keeps (SameSources b) _ _ (refl b)
  · intro c el _ same
    exact same.trans (destroyElement c el)
  · intro c count live same
    exact same.trans (of_slots rfl rfl rfl)

theorem init (b : Bindings ν) (doc : Document) (el : ElementId) (actions : ActionTable ν)
    (config : Config) : SameSources b (b.init doc el actions config).1 := by
  rcases b.init_cases doc el actions config with
    ⟨-, same⟩ | ⟨-, ⟨error, same, -⟩ | ⟨target, prepared, -, -, same⟩⟩
  · rw [same]
    exact refl b
  · rw [same]
    exact destroyElement b el
  · rw [same]
    exact (destroyElement b el).trans (of_slots rfl rfl rfl)

theorem queueWhere (b : Bindings ν) (chosen : Observer ν → Bool) :
    SameSources b (b.queueWhere chosen).1 :=
  pushes Observer.id (b.observers.filter chosen) b

end SameSources

theorem memberValues_congr {b c : Bindings ν} {members : List Reference}
    (reads : ∀ r ∈ members, c.read r.slot = b.read r.slot) :
    c.memberValues members = b.memberValues members := by
  unfold memberValues
  rw [List.map_congr_left reads]

theorem namedWithin_congr {b c : Bindings ν} (references : c.references = b.references)
    (doc : Document) (scope : ElementId) (name : String) :
    c.namedWithin doc scope name = b.namedWithin doc scope name := by
  unfold namedWithin reference?
  rw [references]

theorem element_of_reference? {b : Bindings ν} {el : ElementId} {r : Reference}
    (found : b.reference? el = some r) : r.element = el := by
  have named := List.find?_some (p := fun r : Reference => r.element == el) found
  exact beq_iff_eq.mp named

theorem mem_references_of_mem_namedWithin {b : Bindings ν} {doc : Document} {scope : ElementId}
    {name : String} {r : Reference} (mem : r ∈ b.namedWithin doc scope name) :
    r ∈ b.references := by
  obtain ⟨el, -, found⟩ := List.mem_filterMap.mp (List.mem_filter.mp mem).1
  exact mem_of_reference? found

/-! ## The allotment of slots -/

def Holds (b : Bindings ν) (g : Group) : Prop :=
  ∃ values, b.read g.slot = .list values ∧ values.length = g.members.length

structure Separate (b : Bindings ν) : Prop where
  placed : b.Placed
  references : (b.references.map (·.slot)).Nodup
  groups : (b.groups.map (·.slot)).Nodup
  apart : ∀ r ∈ b.references, ∀ g ∈ b.groups, r.slot ≠ g.slot

theorem Separate.of_eq {b c : Bindings ν} (h : b.Separate) (size : c.slots.size = b.slots.size)
    (references : c.references = b.references) (groups : c.groups = b.groups) : c.Separate where
  placed := h.placed.of_eq (Nat.le_of_eq size.symm) references groups
  references := references ▸ h.references
  groups := groups ▸ h.groups
  apart := references ▸ groups ▸ h.apart

/-- No slot belongs to two references or groups, no two groups are of one name and scope, and groups
hold the values of their members. -/
structure Allotted (b : Bindings ν) : Prop where
  placed : b.Placed
  references : (b.references.map (·.slot)).Nodup
  groups : (b.groups.map (·.slot)).Nodup
  apart : ∀ r ∈ b.references, ∀ g ∈ b.groups, r.slot ≠ g.slot
  keys : (b.groups.map fun g => (g.name, g.scope)).Nodup
  holds : ∀ g ∈ b.groups, b.Holds g

theorem Allotted.separate {b : Bindings ν} (h : b.Allotted) : b.Separate :=
  ⟨h.placed, h.references, h.groups, h.apart⟩

theorem Allotted.start : (Bindings.empty : Bindings ν).Allotted where
  placed := ⟨.nil, fun _ none => absurd none List.not_mem_nil,
    fun _ none => absurd none List.not_mem_nil⟩
  references := List.nodup_nil
  groups := List.nodup_nil
  apart _ none := absurd none List.not_mem_nil
  keys := List.nodup_nil
  holds _ none := absurd none List.not_mem_nil

section
variable {b c : Bindings ν}

/-- Slots may be added, and what belongs to no group may change. -/
theorem Allotted.grow (h : b.Allotted) (references : c.references = b.references)
    (groups : c.groups = b.groups) (size : b.slots.size ≤ c.slots.size)
    (reads : ∀ g ∈ b.groups, c.read g.slot = b.read g.slot) : c.Allotted where
  placed := h.placed.of_eq size references groups
  references := references ▸ h.references
  groups := groups ▸ h.groups
  apart := references ▸ groups ▸ h.apart
  keys := groups ▸ h.keys
  holds g mem := by
    obtain ⟨values, held, length⟩ := h.holds g (groups ▸ mem)
    exact ⟨values, (reads g (groups ▸ mem)).trans held, length⟩

theorem Allotted.same (h : b.Allotted) (same : SameSources b c) : c.Allotted :=
  h.grow same.references same.groups (Nat.le_of_eq same.size.symm) fun g _ => same.reads g.slot

/-- A slot that belongs to no group may be written. -/
theorem Allotted.write (h : b.Allotted) {id : SlotId} (free : ∀ g ∈ b.groups, id ≠ g.slot)
    (value : Value) : (b.write id value).1.Allotted := by
  apply h.grow (b.references_write id value) (b.groups_write id value)
    (Nat.le_of_eq (b.size_write id value).symm)
  intro g mem
  rw [read_write, if_neg fun same => free g mem same.1]

/-- References may go. -/
theorem Allotted.withReferences (h : b.Allotted) {references : List Reference}
    (fewer : references.Sublist b.references) : { b with references }.Allotted where
  placed :=
    { ascending := h.placed.ascending.sublist fewer
      references := fun r mem => h.placed.references r (fewer.subset mem)
      groups := h.placed.groups }
  references := h.references.sublist (fewer.map _)
  groups := h.groups
  apart r mem := h.apart r (fewer.subset mem)
  keys := h.keys
  holds := h.holds

theorem nodup_placeReference {added : Reference} {references : List Reference}
    (nodup : (references.map (·.slot)).Nodup) (new : ∀ r ∈ references, r.slot ≠ added.slot) :
    ((placeReference added references).map (·.slot)).Nodup := by
  induction references with
  | nil => exact List.pairwise_singleton ..
  | cons first rest ih =>
    obtain ⟨own, nodup⟩ := List.nodup_cons.mp nodup
    obtain ⟨other, others⟩ := List.forall_mem_cons.mp new
    have absent : added.slot ∉ rest.map (·.slot) := by
      intro mem
      obtain ⟨r, there, same⟩ := List.mem_map.mp mem
      exact others r there same
    unfold placeReference
    split
    · exact List.nodup_cons.mpr ⟨absent, nodup⟩
    · split
      · rw [List.map_cons, List.nodup_cons, List.map_cons, List.mem_cons]
        refine ⟨?_, List.nodup_cons.mpr ⟨own, nodup⟩⟩
        rintro (same | mem)
        · exact other same.symm
        · exact absent mem
      · rw [List.map_cons, List.nodup_cons]
        refine ⟨fun mem => ?_, ih nodup others⟩
        obtain ⟨r, there, same⟩ := List.mem_map.mp mem
        rcases mem_placeReference there with rfl | there
        · exact other same.symm
        · exact own (List.mem_map.mpr ⟨r, there, same⟩)

theorem Allotted.addReference (h : b.Allotted) (el : ElementId) (name : String) (type : RefType)
    (value : Value) : (b.addReference el name type value).Allotted := by
  let r : Reference := ⟨el, name, type, ⟨b.slots.size⟩⟩
  have below : ∀ r' ∈ b.references, r'.slot ≠ r.slot := by
    intro r' mem same
    have inside := h.placed.references r' mem
    rw [same] at inside
    exact Nat.lt_irrefl _ inside
  have belowGroup : ∀ g ∈ b.groups, g.slot ≠ r.slot := by
    intro g mem same
    have inside := h.placed.groups g mem
    rw [same] at inside
    exact Nat.lt_irrefl _ inside
  have added : Allotted
      { (b.newSlot value).1 with references := placeReference r b.references } := by
    constructor
    · have announced := Announces.addReference b el name type value
      exact (announced.placed h.placed).of_eq
        (Nat.le_of_eq (SameSources.bump _ name).size)
        (SameSources.bump _ name).references.symm (SameSources.bump _ name).groups.symm
    · exact nodup_placeReference h.references below
    · exact h.groups
    · intro r' mem g mem'
      rcases mem_placeReference mem with rfl | mem
      · exact (belowGroup g mem').symm
      · exact h.apart r' mem g mem'
    · exact h.keys
    · intro g mem
      obtain ⟨values, held, length⟩ := h.holds g mem
      refine ⟨values, ?_, length⟩
      have old : g.slot.index ≠ b.slots.size := fun same =>
        belowGroup g mem (congrArg SlotId.mk same)
      exact (b.read_newSlot value g.slot).trans ((if_neg old).trans held)
  exact added.same (.bump _ name)

theorem Allotted.dropReference (h : b.Allotted) {r : Reference}
    (free : ∀ g ∈ b.groups, r.slot ≠ g.slot) : (b.dropReference r).Allotted := by
  have fewer := h.withReferences
    (List.filter_sublist (p := fun other => other.element != r.element))
  exact (fewer.write free .undefined).same (.bump _ r.name)

theorem groups_dropReference (b : Bindings ν) (r : Reference) :
    (b.dropReference r).groups = b.groups :=
  (SameSources.bump _ r.name).groups.trans (groups_write ..)

/-- A relation between what is there and what is still to be reclaimed that the end of each reference
carries on holds when all of them are gone. -/
theorem actualizeReferences_keeps {doc : Document} (P : Bindings ν → List Reference → Prop)
    (drop : ∀ b r rest, P b (r :: rest) → P (b.dropReference r) rest)
    (log : ∀ b count live, P b [] → P (b.log (.reclaimed count live)) []) {b : Bindings ν}
    (h : P b (b.references.filter fun r => !doc.isAttached r.element)) :
    P (b.actualizeReferences doc).1 [] := by
  have each : ∀ (stale : List Reference) (b : Bindings ν), P b stale →
      P (stale.foldl dropReference b) [] := by
    intro stale
    induction stale with
    | nil => exact fun _ h => h
    | cons r rest ih => exact fun b h => ih _ (drop b r rest h)
  have all := each _ b h
  unfold actualizeReferences
  dsimp only
  split
  · exact all
  · exact log _ _ _ all

theorem Allotted.actualizeReferences (h : b.Allotted) (doc : Document) :
    (b.actualizeReferences doc).1.Allotted := by
  let P := fun (b : Bindings ν) (stale : List Reference) =>
    b.Allotted ∧ ∀ r ∈ stale, ∀ g ∈ b.groups, r.slot ≠ g.slot
  have last : P (b.actualizeReferences doc).1 [] := by
    apply actualizeReferences_keeps P
    · rintro b r rest ⟨h, free⟩
      obtain ⟨first, others⟩ := List.forall_mem_cons.mp free
      refine ⟨h.dropReference first, ?_⟩
      rw [groups_dropReference]
      exact others
    · rintro b count live ⟨h, free⟩
      exact ⟨h.same (.of_slots rfl rfl rfl), free⟩
    · exact ⟨h, fun r mem => h.apart r (List.mem_filter.mp mem).1⟩
  exact last.1

theorem Allotted.placeDeclaration (h : b.Allotted) (el : ElementId) (name : String)
    (type : RefType) (value : Value) : (b.placeDeclaration el name type value).Allotted := by
  unfold Bindings.placeDeclaration
  split
  · next r found =>
    have free := h.apart r (mem_of_reference? found)
    split
    · exact h.write free value
    · have logged : (b.log (.redeclared el r.name name)).Allotted := h.same (.of_slots rfl rfl rfl)
      exact (logged.dropReference free).addReference el name type value
  · have logged : (b.log (.registered el name type)).Allotted := h.same (.of_slots rfl rfl rfl)
    exact logged.addReference el name type value

theorem notes_declaredType (b : Bindings ν) (doc : Document) (el : ElementId) (config : Config) :
    Notes b (b.declaredType doc el config).1 := by
  unfold declaredType
  split
  · exact .refl b
  · split
    · exact .refl b
    · exact .record b rfl

theorem notes_logCast (b : Bindings ν) (failure : Option String) : Notes b (b.logCast failure) := by
  cases failure with
  | none => exact .refl b
  | some text => exact .record b rfl

theorem Allotted.register (h : b.Allotted) (doc : Document) (accessors : AccessorTable)
    (config : Config) (el : ElementId) : (b.register doc accessors config el).1.Allotted := by
  unfold Bindings.register
  dsimp only
  split
  · exact h.same (.of_slots rfl rfl rfl)
  · have typed := h.same (.notes (b.notes_declaredType doc el config))
    exact (typed.same (.notes (notes_logCast _ _))).placeDeclaration el _ _ _

theorem Allotted.reread (h : b.Allotted) (doc : Document) (accessors : AccessorTable)
    {r : Reference} (mem : r ∈ b.references) : (b.reread doc accessors r).1.Allotted := by
  have cast := b.notes_logCast (accessors.castFailure? doc r.element r.type)
  have plain : (Entry.log (ν := ν)
      (.reread r.element r.name (accessors.getTyped doc r.element r.type))).isPlain := rfl
  have logged := h.same (.notes (cast.trans (.record _ plain)))
  refine logged.write ?_ _
  intro g there
  apply h.apart r mem g
  exact (SameSources.notes cast).groups ▸ there

/-- What reading a reference again keeps, a change keeps. -/
theorem referencesChanged_keeps {doc : Document} {accessors : AccessorTable}
    (P : Bindings ν → Prop)
    (reread : ∀ b, ∀ r ∈ b.references, P b → P (b.reread doc accessors r).1) {b : Bindings ν}
    (h : P b) (target : ElementId) : P (b.referencesChanged doc accessors target).1 := by
  unfold referencesChanged
  generalize target :: doc.ancestors target = els
  induction els generalizing b with
  | nil => exact h
  | cons el rest ih =>
    unfold rereadEach
    cases found : b.reference? el with
    | none => exact ih h
    | some r => exact ih (reread b r (mem_of_reference? found) h)

theorem Allotted.referencesChanged (h : b.Allotted) (doc : Document) (accessors : AccessorTable)
    (target : ElementId) : (b.referencesChanged doc accessors target).1.Allotted :=
  referencesChanged_keeps Allotted (fun _ _ mem h => h.reread doc accessors mem) h target

end

/-! ## Groups -/

def recomputed (b : Bindings ν) (doc : Document) (g : Group) : Group :=
  { g with members := (b.namedWithin doc g.scope g.name).map (·.element) }

def groupValues (b : Bindings ν) (doc : Document) (g : Group) : Value :=
  b.memberValues (b.namedWithin doc g.scope g.name)

structure Computed (b : Bindings ν) (doc : Document) (g : Group) : Prop where
  members : b.recomputed doc g = g
  values : (b.read g.slot == b.groupValues doc g) = true

/-- What belongs to groups may change as long as nothing else does. -/
theorem recomputed_congr {b c : Bindings ν} (references : c.references = b.references)
    (doc : Document) (g : Group) : c.recomputed doc g = b.recomputed doc g := by
  unfold recomputed
  rw [namedWithin_congr references]

theorem groupValues_congr {b c : Bindings ν} (references : c.references = b.references)
    (reads : ∀ r ∈ b.references, c.read r.slot = b.read r.slot) (doc : Document) (g : Group) :
    c.groupValues doc g = b.groupValues doc g := by
  unfold groupValues
  rw [namedWithin_congr references]
  exact memberValues_congr fun r mem => reads r (mem_references_of_mem_namedWithin mem)

theorem Computed.congr {b c : Bindings ν} {doc : Document} {g : Group} (h : b.Computed doc g)
    (references : c.references = b.references)
    (reads : ∀ r ∈ b.references, c.read r.slot = b.read r.slot)
    (read : c.read g.slot = b.read g.slot) : c.Computed doc g where
  members := (recomputed_congr references doc g).trans h.members
  values := by
    rw [read, groupValues_congr references reads]
    exact h.values

theorem Computed.holds {b : Bindings ν} {doc : Document} {g : Group} (h : b.Computed doc g) :
    b.Holds g := by
  obtain ⟨values, held, length⟩ := Value.eq_list_of_beq h.values
  have count := congrArg (·.members.length) h.members
  simp only [recomputed, List.length_map] at count
  refine ⟨values, held, ?_⟩
  rw [length, List.length_map]
  exact count

/-- The chosen ones among some groups have been computed anew, and nothing else changed. -/
structure Refreshes (b : Bindings ν) (doc : Document) (chosen : Group → Bool)
    (groups : List Group) (c : Bindings ν) (after : List Group) : Prop where
  after : after = groups.map fun g => if chosen g then b.recomputed doc g else g
  references : c.references = b.references
  size : c.slots.size = b.slots.size
  reads : ∀ id, (∀ g ∈ groups, chosen g → g.slot ≠ id) → c.read id = b.read id
  values : ∀ g ∈ groups, chosen g → (c.read g.slot == b.groupValues doc g) = true

theorem refreshes_refreshEach {b : Bindings ν} {groups : List Group} (doc : Document)
    (chosen : Group → Bool) (distinct : (groups.map (·.slot)).Nodup)
    (apart : ∀ r ∈ b.references, ∀ g ∈ groups, r.slot ≠ g.slot)
    (has : ∀ g ∈ groups, b.Has (.slot g.slot)) :
    Refreshes b doc chosen groups (b.refreshEach doc chosen groups).1
      (b.refreshEach doc chosen groups).2.1 := by
  induction groups generalizing b with
  | nil => exact ⟨rfl, rfl, rfl, fun _ _ => rfl, fun _ none => absurd none List.not_mem_nil⟩
  | cons g rest ih =>
    obtain ⟨own, distinct⟩ := List.nodup_cons.mp distinct
    obtain ⟨there, others⟩ := List.forall_mem_cons.mp has
    have different : ∀ g' ∈ rest, g'.slot ≠ g.slot := fun g' mem same =>
      own (List.mem_map.mpr ⟨g', mem, same⟩)
    have apart' : ∀ r ∈ b.references, ∀ g' ∈ rest, r.slot ≠ g'.slot := fun r mem g' mem' =>
      apart r mem g' (List.mem_cons_of_mem _ mem')
    unfold refreshEach
    by_cases picked : chosen g
    · rw [if_pos picked]
      let value := b.groupValues doc g
      let written := (b.write g.slot value).1
      have references : written.references = b.references := b.references_write g.slot value
      have unread : ∀ id, g.slot ≠ id → written.read id = b.read id := by
        intro id other
        rw [read_write, if_neg fun same => other same.1]
      have members : ∀ r ∈ b.references, written.read r.slot = b.read r.slot := fun r mem =>
        unread r.slot (apart r mem g List.mem_cons_self).symm
      have later := ih (b := written) distinct (references ▸ apart') fun g' mem =>
        (others g' mem).mono (Nat.le_of_eq (b.size_write g.slot value).symm)
      constructor
      · simp only [List.map_cons, picked, if_true]
        congr 1
        refine later.after.trans ?_
        simp only [recomputed_congr references]
      · exact later.references.trans references
      · exact later.size.trans (b.size_write g.slot value)
      · intro id free
        obtain ⟨first, rest⟩ := List.forall_mem_cons.mp free
        exact (later.reads id rest).trans (unread id (first picked))
      · intro g' mem picked'
        rcases List.mem_cons.mp mem with rfl | mem
        · have kept := later.reads g'.slot fun other mem _ => different other mem
          have held := read_write_self there value
          rw [← kept] at held
          exact held
        · rw [← groupValues_congr references members]
          exact later.values g' mem picked'
    · rw [if_neg picked]
      have later := ih distinct apart' others
      constructor
      · simp only [List.map_cons, picked, Bool.false_eq_true, if_false]
        rw [later.after]
      · exact later.references
      · exact later.size
      · intro id free
        exact later.reads id (List.forall_mem_cons.mp free).2
      · intro g' mem picked'
        rcases List.mem_cons.mp mem with rfl | mem
        · exact absurd picked' picked
        · exact later.values g' mem picked'

/-- Groups that have been computed anew keep their slots and names. -/
theorem Refreshes.map_eq {b c : Bindings ν} {doc : Document} {chosen : Group → Bool}
    {groups after : List Group} (h : Refreshes b doc chosen groups c after) {β : Type}
    (view : Group → β) (stable : ∀ g, view (b.recomputed doc g) = view g) :
    after.map view = groups.map view := by
  rw [h.after, List.map_map]
  apply List.map_congr_left
  intro g _
  simp only [Function.comp_apply]
  split
  · exact stable g
  · rfl

/-- What is read of the slots that references have does not change. -/
theorem Refreshes.reads_references {b c : Bindings ν} {doc : Document} {chosen : Group → Bool}
    {groups after : List Group} (h : Refreshes b doc chosen groups c after)
    (apart : ∀ r ∈ b.references, ∀ g ∈ groups, r.slot ≠ g.slot) :
    ∀ r ∈ b.references, c.read r.slot = b.read r.slot :=
  fun r mem => h.reads r.slot fun g mem' _ => (apart r mem g mem').symm

theorem Refreshes.computed {b c : Bindings ν} {doc : Document} {chosen : Group → Bool}
    {groups after : List Group} (h : Refreshes b doc chosen groups c after)
    (apart : ∀ r ∈ b.references, ∀ g ∈ groups, r.slot ≠ g.slot) {g : Group} (mem : g ∈ groups)
    (picked : chosen g) : c.Computed doc (b.recomputed doc g) where
  members := recomputed_congr h.references doc g
  values := by
    have same := groupValues_congr h.references (h.reads_references apart) doc g
    exact (congrArg (c.read g.slot == ·) same).trans (h.values g mem picked)

theorem Separate.refresh {b c : Bindings ν} {doc : Document} {chosen : Group → Bool}
    {groups after : List Group} (h : { b with groups }.Separate)
    (refreshes : Refreshes b doc chosen groups c after) : { c with groups := after }.Separate := by
  have slots : after.map (·.slot) = groups.map (·.slot) := refreshes.map_eq (·.slot) fun _ => rfl
  have known : ∀ g ∈ after, ∃ g' ∈ groups, g'.slot = g.slot := fun g mem =>
    List.mem_map.mp (slots ▸ List.mem_map_of_mem mem)
  have size := Nat.le_of_eq refreshes.size.symm
  refine ⟨⟨refreshes.references ▸ h.placed.ascending, fun r mem => ?_, fun g mem => ?_⟩,
    refreshes.references ▸ h.references, slots ▸ h.groups, fun r mem g mem' => ?_⟩
  · rw [refreshes.references] at mem
    exact Nat.lt_of_lt_of_le (h.placed.references r mem) size
  · obtain ⟨g', there, same⟩ := known g mem
    rw [← same]
    exact Nat.lt_of_lt_of_le (h.placed.groups g' there) size
  · rw [refreshes.references] at mem
    obtain ⟨g', there, same⟩ := known g mem'
    exact same ▸ h.apart r mem g' there

/-- A group that is not chosen keeps what its slot holds. -/
theorem Refreshes.read_spared {b c : Bindings ν} {doc : Document} {chosen : Group → Bool}
    {groups after : List Group} (h : Refreshes b doc chosen groups c after)
    (distinct : (groups.map (·.slot)).Nodup) {g : Group} (mem : g ∈ groups)
    (spared : ¬chosen g) : c.read g.slot = b.read g.slot :=
  h.reads g.slot fun _ mem' picked shared =>
    spared (List.inj_on_of_nodup_map distinct mem' mem shared ▸ picked)

theorem Allotted.refresh {b c : Bindings ν} {doc : Document} {chosen : Group → Bool}
    {groups after : List Group} (h : { b with groups }.Allotted)
    (refreshes : Refreshes b doc chosen groups c after) : { c with groups := after }.Allotted := by
  have separate := h.separate.refresh refreshes
  refine ⟨separate.placed, separate.references, separate.groups, separate.apart, ?_,
    fun g mem => ?_⟩
  · rw [refreshes.map_eq (fun g => (g.name, g.scope)) fun _ => rfl]
    exact h.keys
  · have mem : g ∈ after := mem
    rw [refreshes.after] at mem
    obtain ⟨g', there, same⟩ := List.mem_map.mp mem
    by_cases picked : chosen g'
    · rw [if_pos picked] at same
      exact same ▸ (refreshes.computed h.apart there picked).holds
    · rw [if_neg picked] at same
      obtain ⟨values, held, length⟩ := h.holds g' there
      exact same ▸ ⟨values, (refreshes.read_spared h.groups there picked).trans held, length⟩

/-- Groups may go. -/
theorem Separate.withGroups {b : Bindings ν} (h : b.Separate) {groups : List Group}
    (fewer : groups.Sublist b.groups) : { b with groups }.Separate where
  placed :=
    { ascending := h.placed.ascending
      references := h.placed.references
      groups := fun g mem => h.placed.groups g (fewer.subset mem) }
  references := h.references
  groups := h.groups.sublist (fewer.map _)
  apart r mem g mem' := h.apart r mem g (fewer.subset mem')

theorem Allotted.withGroups {b : Bindings ν} (h : b.Allotted) {groups : List Group}
    (fewer : groups.Sublist b.groups) : { b with groups }.Allotted := by
  have separate := h.separate.withGroups fewer
  exact ⟨separate.placed, separate.references, separate.groups, separate.apart,
    h.keys.sublist (fewer.map _), fun g mem => h.holds g (fewer.subset mem)⟩

/-! ## Dropping groups -/

theorem read_write_undefined (b : Bindings ν) (id other : SlotId) :
    (b.write id .undefined).1.read other =
      if id = other ∧ id.index < b.slots.size then .undefined else b.read other := by
  rw [read_write]
  by_cases own : id = other ∧ id.index < b.slots.size
  · rw [if_pos own]
    cases agrees : b.read id == .undefined with
    | true =>
      rw [if_neg fun all => Bool.noConfusion all.2.2, ← own.1]
      exact Value.eq_undefined_of_beq agrees
    | false => rw [if_pos ⟨own.1, own.2, rfl⟩]
  · rw [if_neg own, if_neg fun all => own ⟨all.1, all.2.1⟩]

structure Clears (b : Bindings ν) (dropped : List Group) (c : Bindings ν) : Prop where
  references : c.references = b.references
  size : c.slots.size = b.slots.size
  reads : ∀ id, c.read id =
    if (∃ g ∈ dropped, g.slot = id) ∧ id.index < b.slots.size then .undefined else b.read id

theorem clears_foldl (dropped : List Group) (b : Bindings ν) :
    Clears b dropped (dropped.foldl (fun b g => (b.write g.slot .undefined).1) b) := by
  induction dropped generalizing b with
  | nil => exact ⟨rfl, rfl, fun id => by simp⟩
  | cons g rest ih =>
    have later := ih (b.write g.slot .undefined).1
    have size := b.size_write g.slot .undefined
    refine ⟨later.references.trans (b.references_write ..), later.size.trans size, fun id => ?_⟩
    refine (later.reads id).trans ?_
    rw [size, read_write_undefined]
    by_cases own : g.slot = id
    · subst own
      by_cases inside : g.slot.index < b.slots.size
      · simp [inside]
      · simp [inside]
    · simp [own]

namespace Clears
variable {b c : Bindings ν} {dropped groups : List Group}

theorem read_of_free (h : Clears b dropped c) {id : SlotId} (free : ∀ g ∈ dropped, g.slot ≠ id) :
    c.read id = b.read id := by
  rw [h.reads, if_neg]
  rintro ⟨⟨g, mem, shared⟩, -⟩
  exact free g mem shared

theorem separate (h : Clears b dropped c) (separate : { b with groups }.Separate) :
    { c with groups }.Separate :=
  separate.of_eq h.size h.references rfl

theorem allotted (h : Clears b dropped c) (allotted : { b with groups }.Allotted)
    (free : ∀ g ∈ dropped, ∀ g' ∈ groups, g.slot ≠ g'.slot) : { c with groups }.Allotted :=
  allotted.grow h.references rfl (Nat.le_of_eq h.size.symm) fun g mem =>
    h.read_of_free fun g' mem' => free g' mem' g mem

end Clears

theorem partition_groups (b : Bindings ν) (doc : Document) :
    (b.groups.partition fun g => doc.isAttached g.scope) =
      (b.groups.filter (fun g => doc.isAttached g.scope),
        b.groups.filter fun g => !doc.isAttached g.scope) :=
  List.partition_eq_filter_filter ..

/-- A group that is dropped shares its slot with none that stays. -/
theorem Separate.dropped_ne {b : Bindings ν} (h : b.Separate) {doc : Document} {g g' : Group}
    (mem : g ∈ b.groups.filter fun g => !doc.isAttached g.scope)
    (mem' : g' ∈ b.groups.filter fun g => doc.isAttached g.scope) : g.slot ≠ g'.slot := by
  intro shared
  obtain ⟨there, loose⟩ := List.mem_filter.mp mem
  obtain ⟨there', attached⟩ := List.mem_filter.mp mem'
  rw [List.inj_on_of_nodup_map h.groups there there' shared, attached] at loose
  cases loose

/-- The groups of a pass: the slots of those whose scope is not attached are cleared, and the others
are computed anew. -/
theorem refreshes_actualizeGroups {b : Bindings ν} (h : b.Separate) (doc : Document) :
    let live := b.groups.filter fun g => doc.isAttached g.scope
    let gone := b.groups.filter fun g => !doc.isAttached g.scope
    ∃ cleared c after, Clears b gone cleared ∧ Refreshes cleared doc (fun _ => true) live c after ∧
      Notes { c with groups := after } (b.actualizeGroups doc).1 := by
  intro live gone
  let cleared := gone.foldl (fun b g => (b.write g.slot .undefined).1) b
  have clears : Clears b gone cleared := clears_foldl gone b
  have separate : { cleared with groups := live }.Separate :=
    clears.separate (h.withGroups List.filter_sublist)
  have refreshes := refreshes_refreshEach (b := cleared) doc (fun _ => true) separate.groups
    separate.apart separate.placed.groups
  refine ⟨cleared, _, _, clears, refreshes, ?_⟩
  unfold actualizeGroups
  simp only [partition_groups]
  exact .record _ rfl

theorem Allotted.actualizeGroups {b : Bindings ν} (h : b.Allotted) (doc : Document) :
    (b.actualizeGroups doc).1.Allotted := by
  obtain ⟨cleared, c, after, clears, refreshes, notes⟩ := refreshes_actualizeGroups h.separate doc
  have start : { b with groups := b.groups.filter fun g => doc.isAttached g.scope }.Allotted :=
    h.withGroups List.filter_sublist
  have dropped := clears.allotted start fun g mem g' => h.separate.dropped_ne mem
  exact (dropped.refresh refreshes).same (.notes notes)

theorem Allotted.groupsChanged {b : Bindings ν} (h : b.Allotted) (doc : Document)
    (target : ElementId) (names : List String) :
    (b.groupsChanged doc target names).1.Allotted := by
  have same : { b with groups := b.groups }.Allotted := h
  exact same.refresh (refreshes_refreshEach doc _ h.groups h.apart h.placed.groups)

end FormDependencies.Bindings
