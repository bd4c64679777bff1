import FormDependencies.Proofs.Binding.Watching

/-!
Reclaimed references. Exactly the references of elements that are not attached go, and all others
stay as they are. The slot of a reference that went is cleared and belongs to nobody any more.
Slots are not given out twice, so that whatever happens later, also when the element comes back
under the same name, who still knows the slot reads nothing there.
-/

namespace FormDependencies

def Entry.note? {ν : Type} : Entry ν → Option ν
  | .note n => some n
  | _ => none

def Listener.note? {ν : Type} (value : Value) : Listener ν → Option ν
  | .observer _ => none
  | .host note => some (note value)

theorem Observable.value_set_undefined {β : Type} (o : Observable Value β) :
    (o.set .undefined).1.value = .undefined := by
  unfold set
  split
  · next agrees => exact Value.eq_undefined_of_beq agrees
  · rfl

namespace Bindings
variable {ν : Type}

/-! ## Notes of the host -/

def hostNotes (b : Bindings ν) : List ν := (b.journal.filterMap Entry.note?).reverse

def notesOn (b : Bindings ν) (id : SlotId) (value : Value) : List ν :=
  (b.slot id).subscribers.filterMap fun entry => entry.2.note? value

theorem hostNotes_congr {b c : Bindings ν} (journal : c.journal = b.journal) :
    c.hostNotes = b.hostNotes := by
  unfold hostNotes
  rw [journal]

theorem journal_push (b : Bindings ν) (id : ObserverId) : (b.push id).journal = b.journal :=
  push_keeps (·.journal) (fun _ _ => rfl) b id

theorem hostNotes_call (b : Bindings ν) (value : Value) (listener : Listener ν) :
    (b.call value listener).hostNotes = b.hostNotes ++ (listener.note? value).toList := by
  cases listener with
  | observer id => exact (hostNotes_congr (b.journal_push id)).trans (List.append_nil _).symm
  | host note => simp [hostNotes, call, record, Entry.note?, Listener.note?]

theorem hostNotes_calls (value : Value) (entries : List (Nat × Listener ν)) (b : Bindings ν) :
    (entries.foldl (fun b entry => b.call value entry.2) b).hostNotes =
      b.hostNotes ++ entries.filterMap fun entry => entry.2.note? value := by
  induction entries generalizing b with
  | nil => exact (List.append_nil _).symm
  | cons first rest ih =>
    rw [List.foldl_cons, ih, hostNotes_call, List.append_assoc]
    congr 1
    rw [List.filterMap_cons]
    cases first.2.note? value <;> rfl

theorem hostNotes_write (b : Bindings ν) (id : SlotId) (value : Value) :
    (b.write id value).1.hostNotes =
      b.hostNotes ++ if b.read id == value then [] else b.notesOn id value := by
  rw [write_eq]
  split
  · exact (List.append_nil _).symm
  · exact hostNotes_calls value (b.slot id).subscribers _

theorem hostNotes_bump (b : Bindings ν) (name : String) : (b.bump name).hostNotes = b.hostNotes :=
  hostNotes_congr (bump_keeps (·.journal) (fun _ _ => rfl) (fun _ _ => rfl) b name)

/-! ## What reclaiming does -/

theorem slot_dropReference (b : Bindings ν) (r : Reference) (id : SlotId) :
    (b.dropReference r).slot id =
      if r.slot = id ∧ r.slot.index < b.slots.size then ((b.slot id).set .undefined).1
      else b.slot id := by
  rw [dropReference_eq, slot_congr (slots_bump _ r.name)]
  exact slot_write _ r.slot id .undefined

theorem epoch?_dropReference (b : Bindings ν) (r : Reference) (name : String) :
    (b.dropReference r).epoch? name =
      if r.name = name then (b.epoch? name).map (·.advanced 1) else b.epoch? name := by
  rw [dropReference_eq, epoch?_bump, epoch?_congr (epochs_write _ r.slot .undefined)]
  rfl

theorem hostNotes_dropReference (b : Bindings ν) (r : Reference) :
    (b.dropReference r).hostNotes =
      b.hostNotes ++ if b.read r.slot == .undefined then [] else b.notesOn r.slot .undefined := by
  rw [dropReference_eq, hostNotes_bump]
  exact hostNotes_write _ r.slot .undefined

theorem grows_dropReference (b : Bindings ν) (r : Reference) : Grows b (b.dropReference r) := by
  have written := grows_write (b.withoutReference r) r.slot .undefined
  exact (b.grows_withoutReference r).trans (written.trans (grows_bump _ r.name))

theorem notified_dropReference {b : Bindings ν} {r : Reference} (there : b.Has (.slot r.slot))
    (held : (b.read r.slot == .undefined) = false) :
    Notified b (b.dropReference r) (.slot r.slot) := by
  have written : Notified (b.withoutReference r) ((b.withoutReference r).write r.slot .undefined).1
      (.slot r.slot) := notified_write (b := b.withoutReference r) there held
  have still : ((b.withoutReference r).write r.slot .undefined).1.Has (.slot r.slot) :=
    Has.mono (grows_write _ r.slot .undefined).size there
  exact (written.after (grows_bump _ r.name) still).before (b.grows_withoutReference r) there

theorem bumped_dropReference (b : Bindings ν) (r : Reference) :
    Bumped b (b.dropReference r) r.name := by
  have written := grows_write (b.withoutReference r) r.slot .undefined
  exact (bumped_bump _ r.name).before ((b.grows_withoutReference r).trans written)

/-- Some references have gone, and nothing else has happened. -/
structure Reclaims (b : Bindings ν) (gone : List Reference) (c : Bindings ν) : Prop where
  references : c.references =
    b.references.filter fun r => !(gone.map (·.element)).contains r.element
  groups : c.groups = b.groups
  grows : Grows b c
  spared : ∀ id, (∀ r ∈ gone, r.slot ≠ id) → c.slot id = b.slot id
  cleared : ∀ r ∈ gone, c.slot r.slot = ((b.slot r.slot).set .undefined).1
  notified : ∀ r ∈ gone, (b.read r.slot == .undefined) = false → Notified b c (.slot r.slot)
  bumped : ∀ r ∈ gone, Bumped b c r.name
  epochs : ∀ name, c.epoch? name =
    (b.epoch? name).map (·.advanced (gone.countP fun r => r.name == name))
  notes : c.hostNotes = b.hostNotes ++ gone.flatMap fun r =>
    if b.read r.slot == .undefined then [] else b.notesOn r.slot .undefined

theorem Reclaims.none (b : Bindings ν) : Reclaims b [] b where
  references := by simp
  groups := rfl
  grows := .refl b
  spared _ _ := rfl
  cleared _ mem := absurd mem List.not_mem_nil
  notified _ mem := absurd mem List.not_mem_nil
  bumped _ mem := absurd mem List.not_mem_nil
  epochs name := by simp
  notes := (List.append_nil _).symm

theorem Reclaims.cons {b c : Bindings ν} {r : Reference} {rest : List Reference}
    (there : ∀ s ∈ r :: rest, b.Has (.slot s.slot)) (different : ∀ s ∈ rest, r.slot ≠ s.slot)
    (later : Reclaims (b.dropReference r) rest c) : Reclaims b (r :: rest) c := by
  rcases List.forall_mem_cons.mp there with ⟨first, others⟩
  have grows := b.grows_dropReference r
  have inside : r.slot.index < b.slots.size := first
  have same : ∀ s ∈ rest, (b.dropReference r).slot s.slot = b.slot s.slot := by
    intro s mem
    rw [slot_dropReference, if_neg fun both => different s mem both.1]
  have read : ∀ s ∈ rest, (b.dropReference r).read s.slot = b.read s.slot :=
    fun s mem => congrArg (·.value) (same s mem)
  constructor
  · rw [later.references, references_dropReference, List.filter_filter]
    apply List.filter_congr
    intro s _
    by_cases own : s.element = r.element <;> simp [own]
  · exact later.groups.trans (b.groups_dropReference r)
  · exact grows.trans later.grows
  · intro id free
    rcases List.forall_mem_cons.mp free with ⟨own, free⟩
    rw [later.spared id free, slot_dropReference, if_neg fun both => own both.1]
  · intro s mem
    rcases List.mem_cons.mp mem with rfl | mem
    · rw [later.spared s.slot fun s' mem' => (different s' mem').symm, slot_dropReference,
        if_pos ⟨rfl, inside⟩]
    · rw [later.cleared s mem, same s mem]
  · intro s mem held
    rcases List.mem_cons.mp mem with rfl | mem
    · exact (notified_dropReference first held).after later.grows (first.mono grows.size)
    · rw [← read s mem] at held
      exact (later.notified s mem held).before grows (others s mem)
  · intro s mem
    rcases List.mem_cons.mp mem with rfl | mem
    · exact (b.bumped_dropReference s).after later.grows
    · exact (later.bumped s mem).before grows
  · intro name
    rw [later.epochs, epoch?_dropReference, List.countP_cons]
    by_cases own : r.name = name
    · simp only [own, if_true, beq_self_eq_true, Observable.map_advanced, Nat.add_comm]
    · simp [own]
  · rw [later.notes, hostNotes_dropReference, List.flatMap_cons, List.append_assoc]
    congr 2
    apply List.flatMap_congr
    intro s mem
    unfold notesOn
    rw [read s mem, same s mem]

theorem reclaims_foldl {gone : List Reference} {b : Bindings ν}
    (there : ∀ r ∈ gone, b.Has (.slot r.slot)) (distinct : (gone.map (·.slot)).Nodup) :
    Reclaims b gone (gone.foldl dropReference b) := by
  induction gone generalizing b with
  | nil => exact .none b
  | cons r rest ih =>
    rcases List.nodup_cons.mp distinct with ⟨own, distinct⟩
    have different : ∀ s ∈ rest, r.slot ≠ s.slot := fun s mem shared =>
      own (List.mem_map.mpr ⟨s, mem, shared.symm⟩)
    apply Reclaims.cons there different
    apply ih _ distinct
    intro s mem
    exact (there s (List.mem_cons_of_mem _ mem)).mono (b.grows_dropReference r).size

theorem Reclaims.log {b c : Bindings ν} {gone : List Reference} (h : Reclaims b gone c)
    (there : ∀ r ∈ gone, b.Has (.slot r.slot)) {event : LogEvent}
    (plain : (Entry.log (ν := ν) event).isPlain) : Reclaims b gone (c.log event) := by
  have logged : Grows c (c.log event) := .notes (.record c plain)
  exact
  { references := h.references
    groups := h.groups
    grows := h.grows.trans logged
    spared := h.spared
    cleared := h.cleared
    notified := fun r mem held =>
      (h.notified r mem held).after logged ((there r mem).mono h.grows.size)
    bumped := fun r mem => (h.bumped r mem).after logged
    epochs := h.epochs
    notes := h.notes }

def stale (b : Bindings ν) (doc : Document) : List Reference :=
  b.references.filter fun r => !doc.isAttached r.element

theorem reclaims_actualizeReferences {b : Bindings ν} (h : b.Separate) (doc : Document) :
    Reclaims b (b.stale doc) (b.actualizeReferences doc).1 := by
  have there : ∀ r ∈ b.stale doc, b.Has (.slot r.slot) := fun r mem =>
    h.placed.references r (List.mem_filter.mp mem).1
  have reclaims := reclaims_foldl there (h.references.sublist (List.filter_sublist.map _))
  unfold actualizeReferences
  dsimp only
  split
  · exact reclaims
  · exact reclaims.log there rfl

/-- Those that are left are the references of attached elements. -/
theorem filter_stale (b : Bindings ν) (doc : Document) :
    (b.references.filter fun r => !((b.stale doc).map (·.element)).contains r.element) =
      b.references.filter fun r => doc.isAttached r.element := by
  apply List.filter_congr
  intro r mem
  cases attached : doc.isAttached r.element with
  | true =>
    have absent : r.element ∉ (b.stale doc).map (·.element) := by
      intro listed
      rcases List.mem_map.mp listed with ⟨s, loose, same⟩
      have detached := (List.mem_filter.mp loose).2
      rw [same, attached] at detached
      cases detached
    simpa using absent
  | false =>
    have listed : r.element ∈ (b.stale doc).map (·.element) :=
      List.mem_map.mpr ⟨r, List.mem_filter.mpr ⟨mem, by simp [attached]⟩, rfl⟩
    simpa using listed

/-! ## Slots that belong to nobody -/

structure Retired (b : Bindings ν) (id : SlotId) (version : Nat) : Prop where
  there : b.Has (.slot id)
  references : ∀ r ∈ b.references, r.slot ≠ id
  groups : ∀ g ∈ b.groups, g.slot ≠ id
  undefined : b.read id = .undefined
  version : b.version (.slot id) = version

namespace Retired
variable {b c : Bindings ν} {id : SlotId} {version : Nat}

theorem same (h : b.Retired id version) (same : Unwritten b c) : c.Retired id version where
  there := h.there.mono (Nat.le_of_eq same.size.symm)
  references := same.references ▸ h.references
  groups := same.groups ▸ h.groups
  undefined := (same.reads id).trans h.undefined
  version := (same.versions id).trans h.version

theorem notes (h : b.Retired id version) (notes : Notes b c) : c.Retired id version :=
  h.same (.notes notes)

theorem withReferences (h : b.Retired id version) {references : List Reference}
    (free : ∀ r ∈ references, r.slot ≠ id) : { b with references }.Retired id version :=
  ⟨h.there, free, h.groups, h.undefined, h.version⟩

theorem withGroups (h : b.Retired id version) {groups : List Group}
    (free : ∀ g ∈ groups, g.slot ≠ id) : { b with groups }.Retired id version :=
  ⟨h.there, h.references, free, h.undefined, h.version⟩

theorem write (h : b.Retired id version) {other : SlotId} (free : other ≠ id) (value : Value) :
    (b.write other value).1.Retired id version := by
  have slot : (b.write other value).1.slot id = b.slot id := by
    rw [slot_write, if_neg fun both => free both.1]
  exact
  { there := h.there.mono (Nat.le_of_eq (b.size_write other value).symm)
    references := b.references_write other value ▸ h.references
    groups := b.groups_write other value ▸ h.groups
    undefined := (congrArg (·.value) slot).trans h.undefined
    version := (congrArg (·.version) slot).trans h.version }

/-- A new slot is another one. -/
theorem newSlot (h : b.Retired id version) (value : Value) :
    (b.newSlot value).1.Retired id version := by
  have inside : id.index < b.slots.size := h.there
  exact
  { there := h.there.mono (b.grows_newSlot value).size
    references := h.references
    groups := h.groups
    undefined := (b.read_newSlot value id).trans ((if_neg (Nat.ne_of_lt inside)).trans h.undefined)
    version := (b.version_newSlot value (.slot id)).trans h.version }

theorem new_ne (h : b.Retired id version) : (⟨b.slots.size⟩ : SlotId) ≠ id := by
  rintro rfl
  exact Nat.lt_irrefl b.slots.size h.there

theorem bump (h : b.Retired id version) (name : String) : (b.bump name).Retired id version := by
  apply h.same
  exact .of_slots (b.references_bump name) (SameSources.bump b name).groups (b.slots_bump name)

/-! ### References -/

theorem addReference (h : b.Retired id version) (el : ElementId) (name : String) (type : RefType)
    (value : Value) : (b.addReference el name type value).Retired id version := by
  apply bump
  apply (h.newSlot value).withReferences
  intro r mem
  rcases mem_placeReference mem with rfl | mem
  · exact h.new_ne
  · exact h.references r mem

theorem dropReference (h : b.Retired id version) {r : Reference} (free : r.slot ≠ id) :
    (b.dropReference r).Retired id version := by
  rw [dropReference_eq]
  apply bump
  apply write _ free
  exact h.withReferences fun s mem => h.references s (List.mem_filter.mp mem).1

theorem register (h : b.Retired id version) (doc : Document) (accessors : AccessorTable)
    (config : Config) (el : ElementId) :
    (b.register doc accessors config el).1.Retired id version := by
  rcases b.register_shape doc accessors config el with ⟨-, notes⟩ | ⟨-, c, notes, same⟩
  · exact h.notes notes
  rw [same]
  have noted := h.notes notes
  unfold placeDeclaration
  cases found : c.reference? el with
  | none => exact (noted.notes (.record c rfl)).addReference el _ _ _
  | some r =>
    have free := noted.references r (mem_of_reference? found)
    dsimp only
    split
    · exact noted.write free _
    · exact ((noted.notes (.record c rfl)).dropReference free).addReference el _ _ _

theorem actualizeReferences (h : b.Retired id version) (doc : Document) :
    (b.actualizeReferences doc).1.Retired id version := by
  let P := fun (b : Bindings ν) (gone : List Reference) =>
    b.Retired id version ∧ ∀ r ∈ gone, r.slot ≠ id
  have last : P (b.actualizeReferences doc).1 [] := by
    apply actualizeReferences_keeps P
    · rintro b r rest ⟨h, free⟩
      rcases List.forall_mem_cons.mp free with ⟨first, others⟩
      exact ⟨h.dropReference first, others⟩
    · rintro b count live ⟨h, free⟩
      exact ⟨h.notes (.record b rfl), free⟩
    · exact ⟨h, fun r mem => h.references r (List.mem_filter.mp mem).1⟩
  exact last.1

theorem referencesChanged (h : b.Retired id version) (doc : Document) (accessors : AccessorTable)
    (target : ElementId) : (b.referencesChanged doc accessors target).1.Retired id version := by
  apply referencesChanged_keeps (·.Retired id version) _ h
  intro b r mem h
  apply write _ (h.references r mem)
  exact (h.notes (notes_logCast b _)).notes (.record _ rfl)

/-! ### Groups -/

theorem refreshEach (h : b.Retired id version) (doc : Document) (chosen : Group → Bool)
    {groups : List Group} (free : ∀ g ∈ groups, g.slot ≠ id) :
    (b.refreshEach doc chosen groups).1.Retired id version := by
  induction groups generalizing b with
  | nil => exact h
  | cons g rest ih =>
    rcases List.forall_mem_cons.mp free with ⟨first, others⟩
    unfold Bindings.refreshEach
    split
    · exact ih (h.write first _) others
    · exact ih h others

/-- Groups that have been computed anew keep their slots. -/
theorem refreshed (h : b.Retired id version) (doc : Document) (chosen : Group → Bool)
    {groups : List Group} (free : ∀ g ∈ groups, g.slot ≠ id) :
    { (b.refreshEach doc chosen groups).1 with
      groups := (b.refreshEach doc chosen groups).2.1 }.Retired id version := by
  apply (h.refreshEach doc chosen free).withGroups
  intro g mem
  rcases Announces.slot_mem_refreshEach mem with ⟨old, listed, same⟩
  exact same ▸ free old listed

theorem resolveGroup (h : b.Retired id version) (doc : Document) (name : String)
    (scope : ElementId) : (b.resolveGroup doc name scope).1.Retired id version := by
  unfold Bindings.resolveGroup
  cases b.group? name scope with
  | some g => exact h
  | none =>
    have refreshed : ((b.newSlot (.list [])).1.refresh doc
        ⟨name, scope, [], ⟨b.slots.size⟩⟩).1.Retired id version :=
      (h.newSlot (.list [])).write h.new_ne _
    apply (refreshed.notes (.record _ rfl)).withGroups
    intro g mem
    rcases List.mem_append.mp mem with mem | mem
    · exact refreshed.groups g mem
    · rw [List.mem_singleton.mp mem]
      exact h.new_ne

theorem actualizeGroups (h : b.Retired id version) (doc : Document) :
    (b.actualizeGroups doc).1.Retired id version := by
  have cleared : ∀ (dropped : List Group) (b : Bindings ν), b.Retired id version →
      (∀ g ∈ dropped, g.slot ≠ id) →
      (dropped.foldl (fun b g => (b.write g.slot .undefined).1) b).Retired id version := by
    intro dropped
    induction dropped with
    | nil => exact fun _ h _ => h
    | cons g rest ih =>
      intro b h free
      rcases List.forall_mem_cons.mp free with ⟨first, others⟩
      exact ih _ (h.write first _) others
  unfold Bindings.actualizeGroups
  simp only [partition_groups]
  refine notes (Retired.refreshed ?_ doc (fun _ => true) ?_) (.record _ rfl)
  · exact cleared _ b h fun g mem => h.groups g (List.mem_filter.mp mem).1
  · exact fun g mem => h.groups g (List.mem_filter.mp mem).1

theorem groupsChanged (h : b.Retired id version) (doc : Document) (target : ElementId)
    (names : List String) : (b.groupsChanged doc target names).1.Retired id version :=
  h.refreshed doc _ h.groups

end Retired

/-- A slot that belongs to nobody stays so, and is never written again. -/
theorem kept_retired (id : SlotId) (version : Nat) :
    Kept fun b : Bindings ν => b.Retired id version where
  same same h := h.same same
  references doc op h := by
    cases op with
    | register accessors config el => exact h.register doc accessors config el
    | actualize => exact h.actualizeReferences doc
    | changed accessors target => exact h.referencesChanged doc accessors target
  resolveGroup doc name scope h := h.resolveGroup doc name scope
  actualizeGroups doc h := h.actualizeGroups doc
  groupsChanged doc target names h := h.groupsChanged doc target names

/-- The slot of a reference that has gone belongs to nobody. -/
theorem Reclaims.retired {b c : Bindings ν} {gone : List Reference} (h : Reclaims b gone c)
    (separate : b.Separate) (listed : ∀ r ∈ gone, r ∈ b.references) {r : Reference}
    (mem : r ∈ gone) : c.Retired r.slot (c.version (.slot r.slot)) where
  there := (separate.placed.references r (listed r mem)).mono h.grows.size
  references s there shared := by
    rw [h.references, List.mem_filter] at there
    obtain rfl := List.inj_on_of_nodup_map separate.references there.1 (listed r mem) shared
    have went : s.element ∈ gone.map (·.element) := List.mem_map_of_mem mem
    simp [went] at there
  groups g there shared := by
    rw [h.groups] at there
    exact separate.apart r (listed r mem) g there shared.symm
  undefined := (congrArg (·.value) (h.cleared r mem)).trans (Observable.value_set_undefined _)
  version := rfl

/-- The slot of a reference that is declared anew, with another name or type, belongs to nobody. -/
theorem retired_register {b : Bindings ν} (h : b.Separate) {doc : Document}
    (accessors : AccessorTable) {config : Config} {el : ElementId} {r : Reference}
    (found : b.reference? el = some r)
    (valid : ReferenceName.isValid (doc.referenceName el config))
    (changed : ¬(r.name = doc.referenceName el config ∧ r.type = doc.referenceType el config)) :
    ∃ version, (b.register doc accessors config el).1.Retired r.slot version := by
  rcases b.register_shape doc accessors config el with ⟨invalid, -⟩ | ⟨-, c, notes, same⟩
  · exact absurd valid invalid
  have sources : SameSources b c := .notes notes
  have stands : c.reference? el = some r :=
    ((SameReferences.of_sources sources).reference? el).trans found
  let logged := c.log (.redeclared el r.name (doc.referenceName el config))
  have separate : logged.Separate := h.of_eq sources.size sources.references sources.groups
  have mem : r ∈ logged.references := mem_of_reference? stands
  have reclaims : Reclaims logged [r] (logged.dropReference r) :=
    reclaims_foldl (by simpa using separate.placed.references r mem) (List.nodup_singleton _)
  have dropped := reclaims.retired separate (by simpa using mem) List.mem_cons_self
  refine ⟨(logged.dropReference r).version (.slot r.slot), ?_⟩
  rw [same]
  unfold placeDeclaration
  rw [stands]
  dsimp only
  rw [if_neg changed]
  exact dropped.addReference el _ _ _

/-- Whoever still knows a slot that belongs to nobody never reads anything there, and is never
told of anything. -/
theorem Retired.forever {b : Bindings ν} {id : SlotId} {version : Nat} (h : b.Retired id version)
    (later : List (Use ν)) :
    (b.runFrom later).read id = .undefined ∧
      (b.runFrom later).version (.slot id) = b.version (.slot id) := by
  have stays := (kept_retired id version).runFrom h later
  exact ⟨stays.undefined, stays.version.trans h.version.symm⟩

/-- To reclaim references takes away exactly those of elements that are not attached. All others
keep their slots with all that these hold. Slots of those that go become undefined, telling their
subscribers where they held something else, and the epochs of their names advance where they are
open. For ever after, and whatever happens, such a slot reads undefined and is not written again; so
does the slot of a reference that is declared anew with another name or type. -/
theorem reclaimed_forever (uses : List (Use ν)) (doc : Document) :
    let b := run uses
    let c := (b.actualizeReferences doc).1
    (c.references = b.references.filter fun r => doc.isAttached r.element) ∧
      (b.actualizeReferences doc).2 = (b.stale doc).length ∧
      (∀ r ∈ c.references, c.slot r.slot = b.slot r.slot) ∧
      (∀ r ∈ b.stale doc, c.read r.slot = .undefined ∧
        (b.read r.slot = .undefined → c.slot r.slot = b.slot r.slot) ∧
        (b.read r.slot ≠ .undefined → Notified b c (.slot r.slot))) ∧
      (c.hostNotes = b.hostNotes ++ (b.stale doc).flatMap fun r =>
        if b.read r.slot == .undefined then [] else b.notesOn r.slot .undefined) ∧
      (∀ name, c.epoch? name = (b.epoch? name).map
        (·.advanced ((b.stale doc).countP fun r => r.name == name))) ∧
      (∀ r ∈ b.stale doc, (b.epoch? r.name).isSome → Notified b c (.epoch r.name)) ∧
      (∀ r ∈ b.stale doc, ∀ later, (c.runFrom later).read r.slot = .undefined ∧
        (c.runFrom later).version (.slot r.slot) = c.version (.slot r.slot)) ∧
      ∀ doc' accessors config el r, b.reference? el = some r →
        ReferenceName.isValid (doc'.referenceName el config) →
        ¬(r.name = doc'.referenceName el config ∧ r.type = doc'.referenceType el config) →
        let d := (b.register doc' accessors config el).1
        ∀ later, (d.runFrom later).read r.slot = .undefined ∧
          (d.runFrom later).version (.slot r.slot) = d.version (.slot r.slot) := by
  intro b c
  have separate : b.Separate := (allotted_run uses).separate
  have reclaims : Reclaims b (b.stale doc) c := reclaims_actualizeReferences separate doc
  have listed : ∀ r ∈ b.stale doc, r ∈ b.references := fun r mem => (List.mem_filter.mp mem).1
  have references := reclaims.references.trans (b.filter_stale doc)
  have retired : ∀ r ∈ b.stale doc, c.Retired r.slot (c.version (.slot r.slot)) := fun r mem =>
    reclaims.retired separate listed mem
  refine ⟨references, rfl, fun r mem => ?_, fun r mem => ⟨(retired r mem).undefined, ?_, ?_⟩,
    reclaims.notes, reclaims.epochs, fun r mem opened => (reclaims.bumped r mem).notified opened,
    fun r mem => (retired r mem).forever, ?_⟩
  · apply reclaims.spared
    intro s went shared
    exact (retired s went).references r mem shared.symm
  · intro undefined
    rw [reclaims.cleared r mem]
    unfold read at undefined
    simp [Observable.set, undefined]
  · intro held
    apply reclaims.notified r mem
    cases agrees : b.read r.slot == .undefined with
    | true => exact absurd (Value.eq_undefined_of_beq agrees) held
    | false => rfl
  · intro doc' accessors config el r found valid changed d
    rcases retired_register separate accessors found valid changed with ⟨version, retired⟩
    exact retired.forever

/-- The second row is taken out of the document while the host watches its amount. When the row is
back, and its amount registered again, the amount has another slot and the old one holds nothing. -/
theorem reclaimed_forever_rowRestored :
    let removed := (Document.new.editAll rowEdits).edit (.remove ⟨3⟩)
    let b : Bindings Bool := run [(amountOf ⟨2⟩).asUse, (amountOf ⟨4⟩).asUse,
      .watch ⟨1⟩ fun value => value == .undefined]
    let c := (b.actualizeReferences removed).1
    let d := c.runFrom [(amountOf ⟨4⟩).asUse]
    (c.references = b.references.filter fun r => removed.isAttached r.element) ∧
      c.references.map (·.element) = [⟨2⟩] ∧ c.hostNotes = [true] ∧
      (d.reference? ⟨4⟩).map (·.slot) = some ⟨2⟩ ∧ d.read ⟨1⟩ = .undefined := by
  intro removed b c d
  rcases reclaimed_forever (ν := Bool) [(amountOf ⟨2⟩).asUse, (amountOf ⟨4⟩).asUse,
    .watch ⟨1⟩ fun value => value == .undefined] removed with
      ⟨references, -, -, -, -, -, -, forever, -⟩
  have went : ∃ r ∈ b.stale removed, r.slot = ⟨1⟩ := by decide +kernel
  rcases went with ⟨r, mem, slot⟩
  have later := (forever r mem [(amountOf ⟨4⟩).asUse]).1
  rw [slot] at later
  exact ⟨references, by decide +kernel, by decide +kernel, by decide +kernel, later⟩

end Bindings

end FormDependencies
