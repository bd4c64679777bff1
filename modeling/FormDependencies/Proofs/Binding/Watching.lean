import FormDependencies.Proofs.Binding.Nearest
import FormDependencies.Proofs.Binding.Notice

/-!
What is enough to watch. The look-up of a name reads the references of the name and nothing else.
Whatever is done to references, either the epoch of the name advances, or the references of the name
stay, and each of them that holds something else afterwards has told so.
-/

namespace FormDependencies.Bindings
variable {ν : Type}

def named (b : Bindings ν) (name : String) : List Reference :=
  b.references.filter fun r => r.name == name

def Carries (b : Bindings ν) (name : String) (el : ElementId) : Prop :=
  ∃ r ∈ b.named name, r.element = el

instance (b : Bindings ν) (name : String) (el : ElementId) : Decidable (b.Carries name el) :=
  inferInstanceAs (Decidable (∃ r ∈ b.named name, r.element = el))

section
variable {b c d : Bindings ν} {name : String}

theorem named_congr (references : c.references = b.references) (name : String) :
    c.named name = b.named name := by
  unfold named
  rw [references]

theorem mem_references_of_mem_named {r : Reference} (mem : r ∈ b.named name) :
    r ∈ b.references :=
  (List.mem_filter.mp mem).1

theorem candidates_eq (b : Bindings ν) (doc : Document) (name : String) :
    b.candidates doc name =
      ((b.named name).filter fun r => doc.isAttached r.element).map (·.element) := by
  unfold candidates named
  rw [List.filter_filter]
  simp only [Bool.and_comm]

/-- The look-up of a name depends on the references of the name alone. -/
theorem resolve_congr (placed : b.Placed) (placed' : c.Placed)
    (same : c.named name = b.named name) (doc : Document) (origin : ElementId)
    (scope : Option ElementId) :
    c.resolve doc origin name scope = b.resolve doc origin name scope := by
  have candidates : c.candidates doc name = b.candidates doc name := by
    rw [candidates_eq, candidates_eq, same]
  rw [resolve_eq_pick, resolve_eq_pick, candidates]
  cases picked : pick doc (b.candidates doc name) origin scope with
  | none => rfl
  | some el =>
    have mem := mem_of_pick picked
    rw [candidates_eq] at mem
    rcases List.mem_map.mp mem with ⟨r, chosen, rfl⟩
    have there : r ∈ b.named name := (List.mem_filter.mp chosen).1
    have here : r ∈ c.named name := same ▸ there
    rw [Option.bind_some, Option.bind_some,
      reference?_of_mem placed (mem_references_of_mem_named there),
      reference?_of_mem placed' (mem_references_of_mem_named here)]

structure Stays (b c : Bindings ν) (name : String) : Prop where
  named : c.named name = b.named name
  reads : ∀ r ∈ b.named name, c.read r.slot = b.read r.slot ∨ Notified b c (.slot r.slot)

/-- Who watches the epoch of a name and the slots of its references is told of all changes. -/
structure Tells (b c : Bindings ν) (name : String) : Prop extends Grows b c where
  told : Bumped b c name ∨ Stays b c name

namespace Tells

theorem of_same (grows : Grows b c) (references : c.references = b.references)
    (reads : ∀ r ∈ b.named name, c.read r.slot = b.read r.slot) : Tells b c name where
  toGrows := grows
  told := .inr ⟨named_congr references name, fun r mem => .inl (reads r mem)⟩

theorem notes (h : Notes b c) : Tells b c name := by
  have same : SameSources b c := .notes h
  exact of_same (.notes h) same.references fun r _ => same.reads r.slot

theorem refl (b : Bindings ν) (name : String) : Tells b b name := notes (.refl b)

theorem trans (placed : b.Placed) (first : Tells b c name) (second : Tells c d name) :
    Tells b d name where
  toGrows := first.toGrows.trans second.toGrows
  told := by
    rcases first.told with bumped | stays
    · exact .inl (bumped.after second.toGrows)
    rcases second.told with bumped | stays'
    · exact .inl (bumped.before first.toGrows)
    refine .inr ⟨stays'.named.trans stays.named, fun r mem => ?_⟩
    have there := placed.references r (mem_references_of_mem_named mem)
    rcases stays'.reads r (stays.named ▸ mem) with same' | notified
    · rcases stays.reads r mem with same | notified
      · exact .inl (same'.trans same)
      · exact .inr (notified.after second.toGrows (there.mono first.size))
    · exact .inr (notified.before first.toGrows there)

/-- Advancing the epoch of the name tells of all that was done before. -/
theorem bumped (grows : Grows b c) : Tells b (c.bump name) name where
  toGrows := grows.trans (c.grows_bump name)
  told := .inl ((c.bumped_bump name).before grows)

theorem bump (b : Bindings ν) (other : String) : Tells b (b.bump other) name := by
  have same := SameSources.bump b other
  exact of_same (b.grows_bump other) same.references fun r _ => same.reads r.slot

theorem write (placed : b.Placed) (id : SlotId) (value : Value) :
    Tells b (b.write id value).1 name where
  toGrows := b.grows_write id value
  told := by
    refine .inr ⟨named_congr (b.references_write id value) name, fun r mem => ?_⟩
    have there := placed.references r (mem_references_of_mem_named mem)
    by_cases own : id = r.slot
    · cases agrees : b.read id == value with
      | true =>
        rw [write_of_same agrees]
        exact .inl rfl
      | false =>
        subst own
        exact .inr (notified_write there agrees)
    · left
      rw [read_write, if_neg fun both => own both.1]

end Tells

theorem filter_placeReference {added : Reference} {references : List Reference}
    (new : ∀ r ∈ references, r.element ≠ added.element) (other : added.name ≠ name) :
    ((placeReference added references).filter fun r => r.name == name) =
      references.filter fun r => r.name == name := by
  induction references with
  | nil => simp [placeReference, other]
  | cons first rest ih =>
    rcases List.forall_mem_cons.mp new with ⟨different, others⟩
    unfold placeReference
    rw [if_neg different]
    split
    · simp [other]
    · rw [List.filter_cons, List.filter_cons, ih others]

theorem Tells.addReference (placed : b.Placed) {el : ElementId}
    (new : ∀ r ∈ b.references, r.element ≠ el) (declared : String) (type : RefType)
    (value : Value) : Tells b (b.addReference el declared type value) name := by
  let added : Reference := ⟨el, declared, type, ⟨b.slots.size⟩⟩
  let stored : Bindings ν :=
    { (b.newSlot value).1 with references := placeReference added b.references }
  have grows : Grows b stored := by
    apply (b.grows_newSlot value).trans
    exact .of_eq rfl rfl (List.Subset.refl _) List.suffix_rfl
  have shape : b.addReference el declared type value = stored.bump declared := rfl
  rw [shape]
  by_cases same : declared = name
  · subst same
    exact .bumped grows
  · refine ⟨grows.trans (stored.grows_bump declared), .inr ⟨?_, fun r mem => .inl ?_⟩⟩
    · refine (named_congr (stored.references_bump declared) name).trans ?_
      exact filter_placeReference new same
    · have inside : r.slot.index < b.slots.size :=
        placed.references r (mem_references_of_mem_named mem)
      rw [← shape, read_addReference, if_neg (Nat.ne_of_lt inside)]

def withoutReference (b : Bindings ν) (r : Reference) : Bindings ν :=
  { b with references := b.references.filter fun s => s.element != r.element }

theorem dropReference_eq (b : Bindings ν) (r : Reference) :
    b.dropReference r = ((b.withoutReference r).write r.slot .undefined).1.bump r.name :=
  rfl

theorem grows_withoutReference (b : Bindings ν) (r : Reference) :
    Grows b (b.withoutReference r) :=
  .of_eq rfl rfl (List.Subset.refl _) List.suffix_rfl

theorem named_withoutReference (placed : b.Placed) {r : Reference} (mem : r ∈ b.references)
    (other : r.name ≠ name) :
    (b.withoutReference r).named name = b.named name := by
  unfold named withoutReference
  rw [List.filter_filter]
  apply List.filter_congr
  intro s there
  by_cases same : s.name = name
  · have apart : s.element ≠ r.element := by
      intro shared
      have found := reference?_of_mem placed there
      rw [shared, reference?_of_mem placed mem] at found
      exact other (Option.some.inj found ▸ same)
    simp [same, apart]
  · simp [same]

theorem Tells.dropReference (placed : b.Placed) {r : Reference} (mem : r ∈ b.references) :
    Tells b (b.dropReference r) name := by
  have removed := b.grows_withoutReference r
  rw [dropReference_eq]
  by_cases same : r.name = name
  · subst same
    exact .bumped (removed.trans (grows_write _ r.slot .undefined))
  · have stays : Tells b (b.withoutReference r) name :=
      ⟨removed, .inr ⟨named_withoutReference placed mem same, fun _ _ => .inl rfl⟩⟩
    have placed' : (b.withoutReference r).Placed :=
      ⟨placed.ascending.filter _, fun s there => placed.references s (List.mem_filter.mp there).1,
        placed.groups⟩
    exact stays.trans placed ((Tells.write placed' r.slot .undefined).trans placed' (.bump _ _))

/-! ## The operations -/

theorem Tells.placeDeclaration (placed : b.Placed) (el : ElementId) (declared : String)
    (type : RefType) (value : Value) :
    Tells b (b.placeDeclaration el declared type value) name := by
  unfold Bindings.placeDeclaration
  cases found : b.reference? el with
  | none =>
    let logged := b.log (.registered el declared type)
    have noted : Notes b logged := .record b rfl
    have new : ∀ r ∈ logged.references, r.element ≠ el := by
      intro r mem
      simpa using List.find?_eq_none.mp found r mem
    have placed' : logged.Placed := placed.of_eq (Nat.le_refl _) rfl rfl
    exact (Tells.notes noted).trans placed (.addReference placed' new declared type value)
  | some r =>
    have mem := mem_of_reference? found
    dsimp only
    split
    · exact .write placed r.slot value
    · let logged := b.log (.redeclared el r.name declared)
      have noted : Notes b logged := .record b rfl
      have placed' : logged.Placed := placed.of_eq (Nat.le_refl _) rfl rfl
      have new : ∀ s ∈ (logged.dropReference r).references, s.element ≠ el := by
        intro s there
        rw [references_dropReference, List.mem_filter, element_of_reference? found] at there
        simpa using there.2
      have dropped : Tells logged (logged.dropReference r) name := .dropReference placed' mem
      have placed'' := (Announces.dropReference logged r).placed placed'
      have added : Tells (logged.dropReference r)
          ((logged.dropReference r).addReference el declared type value) name :=
        .addReference placed'' new declared type value
      exact (Tells.notes noted).trans placed (dropped.trans placed' added)

theorem Tells.register (placed : b.Placed) (doc : Document) (accessors : AccessorTable)
    (config : Config) (el : ElementId) :
    Tells b (b.register doc accessors config el).1 name := by
  rcases b.register_shape doc accessors config el with ⟨-, notes⟩ | ⟨-, c, notes, same⟩
  · exact .notes notes
  · rw [same]
    have placed' : c.Placed := (Announces.notes notes).placed placed
    exact (Tells.notes notes).trans placed (.placeDeclaration placed' el _ _ _)

theorem Tells.actualizeReferences (placed : b.Placed) (doc : Document) :
    Tells b (b.actualizeReferences doc).1 name := by
  let P := fun (c : Bindings ν) (stale : List Reference) =>
    c.Placed ∧ Tells b c name ∧ (∀ r ∈ stale, r ∈ c.references) ∧ (stale.map (·.element)).Nodup
  have last : P (b.actualizeReferences doc).1 [] := by
    apply actualizeReferences_keeps P
    · rintro c r rest ⟨placed', tells, listed, distinct⟩
      rcases List.forall_mem_cons.mp listed with ⟨first, others⟩
      rcases List.nodup_cons.mp distinct with ⟨own, distinct⟩
      refine ⟨(Announces.dropReference c r).placed placed',
        tells.trans placed (.dropReference placed' first), fun s mem => ?_, distinct⟩
      have apart : s.element ≠ r.element := fun same => own (List.mem_map.mpr ⟨s, mem, same⟩)
      rw [references_dropReference, List.mem_filter]
      exact ⟨others s mem, by simp [apart]⟩
    · rintro c count live ⟨placed', tells, rest⟩
      exact ⟨placed'.of_eq (Nat.le_refl _) rfl rfl,
        tells.trans placed (.notes (.record c rfl)), rest⟩
    · have distinct : (b.references.map (·.element)).Nodup := by
        apply List.pairwise_map.mpr
        exact placed.ascending.imp fun less same => Nat.ne_of_lt less (congrArg _ same)
      exact ⟨placed, .refl b name, fun r mem => (List.mem_filter.mp mem).1,
        distinct.sublist (List.filter_sublist.map _)⟩
  exact last.2.1

theorem Tells.reread (placed : b.Placed) (doc : Document) (accessors : AccessorTable)
    (r : Reference) : Tells b (b.reread doc accessors r).1 name := by
  let noted := (b.logCast (accessors.castFailure? doc r.element r.type)).log
    (.reread r.element r.name (accessors.getTyped doc r.element r.type))
  have notes : Notes b noted := (notes_logCast b _).trans (.record _ rfl)
  have placed' : noted.Placed := (Announces.notes notes).placed placed
  exact (Tells.notes notes).trans placed (.write placed' r.slot _)

theorem Tells.referencesChanged (placed : b.Placed) (doc : Document) (accessors : AccessorTable)
    (target : ElementId) : Tells b (b.referencesChanged doc accessors target).1 name := by
  have last : (b.referencesChanged doc accessors target).1.Placed ∧
      Tells b (b.referencesChanged doc accessors target).1 name := by
    apply referencesChanged_keeps fun c => c.Placed ∧ Tells b c name
    · rintro c r - ⟨placed', tells⟩
      exact ⟨(Announces.reread c doc accessors r).placed placed',
        tells.trans placed (.reread placed' doc accessors r)⟩
    · exact ⟨placed, .refl b name⟩
  exact last.2

/-- Every operation on references tells who watches a name of all changes of what it means. -/
theorem Tells.apply (placed : b.Placed) (doc : Document) (op : ReferenceOperation) :
    Tells b (op.apply doc b) name := by
  cases op with
  | register accessors config el => exact .register placed doc accessors config el
  | actualize => exact .actualizeReferences placed doc
  | changed accessors target => exact .referencesChanged placed doc accessors target

end

/-- To watch the epoch of a name and the slot of the reference that it means is enough: an operation
on references, with the document fixed, that changes the element or the value that the name leads to
notifies of the one or the other. An operation that changes which elements carry the name advances
the epoch. -/
theorem resolve_watched (uses : List (Use ν)) (doc : Document) (op : ReferenceOperation)
    {name : String} (opened : ((run uses).epoch? name).isSome) :
    let b := run uses
    let c := op.apply doc b
    (∀ origin scope,
        (c.resolve doc origin name scope).map (fun r => (r.element, c.read r.slot)) ≠
          (b.resolve doc origin name scope).map (fun r => (r.element, b.read r.slot)) →
        Notified b c (.epoch name) ∨
          ∃ r, b.resolve doc origin name scope = some r ∧ Notified b c (.slot r.slot)) ∧
      (¬(∀ el, c.Carries name el ↔ b.Carries name el) →
        ∃ o o', b.epoch? name = some o ∧ c.epoch? name = some o' ∧ o.value < o'.value) := by
  intro b c
  have placed : b.Placed := (allotted_run uses).placed
  have placed' : c.Placed := (kept_allotted.references doc op (allotted_run uses)).placed
  have tells : Tells b c name := .apply placed doc op
  constructor
  · intro origin scope changes
    rcases tells.told with bumped | stays
    · exact .inl (bumped.notified opened)
    have same := resolve_congr placed placed' stays.named doc origin scope
    cases found : b.resolve doc origin name scope with
    | none =>
      rw [same, found] at changes
      exact absurd rfl changes
    | some r =>
      have mem : r ∈ b.named name := by
        apply List.mem_filter.mpr
        exact ⟨mem_of_resolve found, by simp [(named_of_resolve placed found).2]⟩
      rcases stays.reads r mem with read | notified
      · rw [same, found, Option.map_some, Option.map_some, read] at changes
        exact absurd rfl changes
      · exact .inr ⟨r, rfl, notified⟩
  · intro changes
    rcases tells.told with bumped | stays
    · rcases bumped.advanced with ⟨n, positive, advanced⟩
      rcases Option.isSome_iff_exists.mp opened with ⟨o, found⟩
      rw [found] at advanced
      exact ⟨o, o.advanced n, found, advanced, Nat.lt_add_of_pos_right positive⟩
    · refine absurd (fun el => ?_) changes
      unfold Carries
      rw [stays.named]

/-- A total that has found the amount of another row is told when its own row gets one. -/
theorem resolve_watched_nearerAmount :
    let doc := Document.new.editAll rowEdits
    let b : Bindings Unit := run [(amountOf ⟨2⟩).asUse, .openEpoch "amount"]
    let c := (ReferenceOperation.register .builtin .standard ⟨4⟩).apply doc b
    (b.resolve doc ⟨5⟩ "amount" none).map (·.element) = some ⟨2⟩ ∧
      (c.resolve doc ⟨5⟩ "amount" none).map (·.element) = some ⟨4⟩ ∧
      (Notified b c (.epoch "amount") ∨
        ∃ r, b.resolve doc ⟨5⟩ "amount" none = some r ∧ Notified b c (.slot r.slot)) ∧
      ∃ o o', b.epoch? "amount" = some o ∧ c.epoch? "amount" = some o' ∧ o.value < o'.value := by
  intro doc b c
  have before : (b.resolve doc ⟨5⟩ "amount" none).map (·.element) = some ⟨2⟩ := by decide +kernel
  have after : (c.resolve doc ⟨5⟩ "amount" none).map (·.element) = some ⟨4⟩ := by decide +kernel
  have opened : (b.epoch? "amount").isSome := by decide +kernel
  rcases resolve_watched [(amountOf ⟨2⟩).asUse, .openEpoch "amount"] doc
    (.register .builtin .standard ⟨4⟩) opened with ⟨watched, advances⟩
  refine ⟨before, after, watched ⟨5⟩ none fun same => ?_, ?_⟩
  · have elements := congrArg (Option.map Prod.fst) same
    simp only [Option.map_map, Function.comp_def] at elements
    rw [before, after] at elements
    cases elements
  · have joined : ¬(∀ el, c.Carries "amount" el ↔ b.Carries "amount" el) := fun same =>
      absurd (same ⟨4⟩) (by decide +kernel)
    exact advances joined

end FormDependencies.Bindings
