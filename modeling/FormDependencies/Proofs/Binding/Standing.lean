import FormDependencies.Proofs.Binding.Origin
import FormDependencies.Proofs.Binding.Supply
import FormDependencies.Proofs.Binding.Naming

/-!
References and groups that stand as a document has them. To register what stands, or to compute it
anew, changes nothing: a reference only gets the value that it holds, and a group the members and
values that it has. What evaluations add stands as well, as long as they leave the tree alone.
-/

namespace FormDependencies

namespace Document
variable {ν : Type}

/-- The first thing that is wrong about what an element declares to observe. -/
def flaw? (doc : Document) (actions : ActionTable ν) (config : Config) (el : ElementId) :
    Option DependencyError :=
  match Bindings.targetOf doc el config with
  | .error error => some error
  | .ok _ =>
    match Bindings.prepareEach actions (doc.declarations el config) with
    | .error error => some error
    | .ok _ => none

structure DeclaresAlike (config : Config) (els : List ElementId) (doc doc' : Document) :
    Prop extends SameTree doc doc' where
  signature : ∀ el ∈ els, doc'.declarationSignature el config = doc.declarationSignature el config
  declarations : ∀ el ∈ els, doc'.declarations el config = doc.declarations el config
  target : ∀ el ∈ els, Bindings.targetOf doc' el config = Bindings.targetOf doc el config

namespace DeclaresAlike
variable {config : Config} {els : List ElementId} {doc doc' doc'' : Document}

theorem refl (config : Config) (els : List ElementId) (doc : Document) :
    DeclaresAlike config els doc doc :=
  ⟨⟨rfl, rfl⟩, fun _ _ => rfl, fun _ _ => rfl, fun _ _ => rfl⟩

theorem trans (first : DeclaresAlike config els doc doc')
    (second : DeclaresAlike config els doc' doc'') : DeclaresAlike config els doc doc'' where
  toSameTree := first.toSameTree.trans second.toSameTree
  signature el mem := (second.signature el mem).trans (first.signature el mem)
  declarations el mem := (second.declarations el mem).trans (first.declarations el mem)
  target el mem := (second.target el mem).trans (first.target el mem)

theorem flaw? (h : DeclaresAlike config els doc doc') (actions : ActionTable ν) {el : ElementId}
    (mem : el ∈ els) : doc'.flaw? actions config el = doc.flaw? actions config el := by
  unfold Document.flaw?
  rw [h.target el mem, h.declarations el mem]

end DeclaresAlike

end Document

namespace Bindings
variable {ν : Type}

structure SameReferences (b c : Bindings ν) : Prop where
  references : c.references = b.references
  reads : ∀ r ∈ b.references, c.read r.slot = b.read r.slot

namespace SameReferences
variable {b c d : Bindings ν}

theorem of_sources (same : SameSources b c) : SameReferences b c :=
  ⟨same.references, fun r _ => same.reads r.slot⟩

theorem trans (first : SameReferences b c) (second : SameReferences c d) : SameReferences b d where
  references := second.references.trans first.references
  reads r mem := (second.reads r (first.references ▸ mem)).trans (first.reads r mem)

theorem reference? (h : SameReferences b c) (el : ElementId) :
    c.reference? el = b.reference? el := by
  unfold Bindings.reference?
  rw [h.references]

end SameReferences

theorem Extends.sameReferences {doc : Document} {el : ElementId} {b c : Bindings ν}
    (h : Extends doc el b c) (placed : b.Placed) : SameReferences b c :=
  ⟨h.references, h.reads_references placed⟩

theorem Attempted.sameReferences {b c : Bindings ν} {doc doc' : Document} {env : Environment}
    {id : ObserverId} (attempted : Attempted b doc env id c doc') (h : b.Allotted) :
    SameReferences b c := by
  have counted : SameSources b (b.countTurn id) := .of_slots rfl rfl rfl
  cases attempted with
  | refused => exact .of_sources (.of_slots rfl rfl rfl)
  | missing => exact .of_sources counted
  | detached _ o => exact .of_sources (counted.trans (.destroyElement _ o.element))
  | evaluated _ o =>
    have allotted := h.same counted
    have extension := extends_evaluateObserver allotted doc env o
    exact (SameReferences.of_sources counted).trans (extension.sameReferences allotted.placed)

/-- To empty the queue leaves references alone. -/
theorem sameReferences_flush {b : Bindings ν} (h : b.Allotted) (doc : Document)
    (env : Environment) : SameReferences b (b.flush doc env).1 := by
  let P := fun (c : Bindings ν) (_ : Document) (_ : List ObserverId) =>
    c.Allotted ∧ SameReferences b c
  have last : P (b.flush doc env).1 (b.flush doc env).2.1 [] := by
    refine flushEach_keeps P (fun _ _ _ _ _ h => h) ?_ b.pending {} ?_
    · rintro c _ id _ d _ - attempted ⟨allotted, same⟩
      exact ⟨allotted.attempt attempted, same.trans (attempted.sameReferences allotted)⟩
    · exact ⟨h.same (.of_slots rfl rfl rfl), .of_sources (.of_slots rfl rfl rfl)⟩
  exact last.2

/-! ## References -/

/-- Whether an element bears the reference that it declares, if the name is valid, and the reference
holds the value of the element. -/
def Bears (b : Bindings ν) (doc : Document) (accessors : AccessorTable) (config : Config)
    (el : ElementId) : Prop :=
  ReferenceName.isValid (doc.referenceName el config) →
    ∃ r, b.reference? el = some r ∧ r.name = doc.referenceName el config ∧
      r.type = doc.referenceType el config ∧
      (b.read r.slot == accessors.getTyped doc el r.type) = true

section
variable {b c : Bindings ν} {doc : Document} {accessors : AccessorTable} {config : Config}
  {el : ElementId}

theorem Bears.same (h : b.Bears doc accessors config el) (same : SameReferences b c) :
    c.Bears doc accessors config el := by
  intro valid
  obtain ⟨r, found, name, type, agrees⟩ := h valid
  refine ⟨r, (same.reference? el).trans found, name, type, ?_⟩
  rw [same.reads r (mem_of_reference? found)]
  exact agrees

/-- An invalid name is only noted. A valid one gets its declaration placed. -/
theorem register_shape (b : Bindings ν) (doc : Document) (accessors : AccessorTable)
    (config : Config) (el : ElementId) :
    ¬ReferenceName.isValid (doc.referenceName el config) ∧
        Notes b (b.register doc accessors config el).1 ∨
      ReferenceName.isValid (doc.referenceName el config) ∧ ∃ c, Notes b c ∧
        (b.register doc accessors config el).1 =
          c.placeDeclaration el (doc.referenceName el config) (doc.referenceType el config)
            (accessors.getTyped doc el (doc.referenceType el config)) := by
  unfold register
  dsimp only
  by_cases valid : ReferenceName.isValid (doc.referenceName el config)
  · right
    have typed := b.notes_declaredType doc el config
    have type := (b.references_declaredType doc el config).2
    simp only [valid, Bool.not_true, Bool.false_eq_true, if_false, type, true_and]
    exact ⟨_, typed.trans (notes_logCast _ _), rfl⟩
  · left
    simp only [valid, Bool.not_false, if_true]
    exact ⟨Bool.false_ne_true, .record b rfl⟩

theorem read_addReference (b : Bindings ν) (el : ElementId) (name : String) (type : RefType)
    (value : Value) (id : SlotId) :
    (b.addReference el name type value).read id =
      if id.index = b.slots.size then value else b.read id :=
  ((SameSources.bump _ name).reads id).trans (b.read_newSlot value id)

theorem reference?_addReference (b : Bindings ν) (el : ElementId) (name : String) (type : RefType)
    (value : Value) (other : ElementId) :
    (b.addReference el name type value).reference? other =
      if el = other then some ⟨el, name, type, ⟨b.slots.size⟩⟩ else b.reference? other := by
  unfold reference? addReference
  dsimp only
  rw [references_bump]
  exact find?_placeReference _ _ _

/-- The reference that is placed holds the value. -/
theorem placed_placeDeclaration (h : b.Allotted) (el : ElementId) (name : String) (type : RefType)
    (value : Value) :
    ∃ r, (b.placeDeclaration el name type value).reference? el = some r ∧ r.name = name ∧
      r.type = type ∧ ((b.placeDeclaration el name type value).read r.slot == value) = true := by
  have added : ∀ c : Bindings ν, ∃ r, (c.addReference el name type value).reference? el = some r ∧
      r.name = name ∧ r.type = type ∧
      ((c.addReference el name type value).read r.slot == value) = true := by
    intro c
    refine ⟨⟨el, name, type, ⟨c.slots.size⟩⟩, ?_, rfl, rfl, ?_⟩
    · simp [reference?_addReference]
    · simp [read_addReference]
  unfold placeDeclaration
  cases found : b.reference? el with
  | none => exact added _
  | some r =>
    dsimp only
    split
    · next kept =>
      have there := h.placed.references r (mem_of_reference? found)
      refine ⟨r, ?_, kept.1, kept.2, read_write_self there value⟩
      unfold reference?
      rw [references_write]
      exact found
    · exact added _

section
variable {other : ElementId} {old r : Reference}

theorem addReference_other (inside : r.slot.index < b.slots.size) (different : el ≠ other)
    (found : b.reference? other = some r) (name : String) (type : RefType) (value : Value) :
    (b.addReference el name type value).reference? other = some r ∧
      (b.addReference el name type value).read r.slot = b.read r.slot := by
  constructor
  · rw [reference?_addReference, if_neg different]
    exact found
  · rw [read_addReference, if_neg (Nat.ne_of_lt inside)]

theorem write_other (apart : old.slot ≠ r.slot) (found : b.reference? other = some r)
    (value : Value) :
    (b.write old.slot value).1.reference? other = some r ∧
      (b.write old.slot value).1.read r.slot = b.read r.slot := by
  constructor
  · unfold reference?
    rw [references_write]
    exact found
  · rw [read_write, if_neg fun both => apart both.1]

theorem dropReference_other (apart : old.slot ≠ r.slot) (different : old.element ≠ other)
    (found : b.reference? other = some r) :
    (b.dropReference old).reference? other = some r ∧
      (b.dropReference old).read r.slot = b.read r.slot := by
  let remaining : Bindings ν :=
    { b with references := b.references.filter fun reference => reference.element != old.element }
  have stays : remaining.reference? other = some r := by
    rw [← found]
    unfold reference?
    dsimp only [remaining]
    rw [List.find?_filter]
    congr 1
    funext reference
    by_cases same : reference.element = other
    · simp [same, Ne.symm different]
    · simp [same]
  obtain ⟨kept, read⟩ := write_other apart stays .undefined
  have bumped := SameSources.bump (remaining.write old.slot .undefined).1 old.name
  exact ⟨((SameReferences.of_sources bumped).reference? other).trans kept,
    (bumped.reads r.slot).trans read⟩

/-- The references of other elements do not change, nor does what their slots hold. -/
theorem placeDeclaration_other (h : b.Allotted) (different : el ≠ other)
    (found : b.reference? other = some r) (name : String) (type : RefType) (value : Value) :
    (b.placeDeclaration el name type value).reference? other = some r ∧
      (b.placeDeclaration el name type value).read r.slot = b.read r.slot := by
  have mem := mem_of_reference? found
  have inside : r.slot.index < b.slots.size := h.placed.references r mem
  unfold placeDeclaration
  cases own : b.reference? el with
  | none =>
    let logged := b.log (.registered el name type)
    exact addReference_other (b := logged) inside different found name type value
  | some old =>
    obtain rfl := element_of_reference? own
    have apart : old.slot ≠ r.slot := by
      intro shared
      obtain rfl := List.inj_on_of_nodup_map h.references (mem_of_reference? own) mem shared
      exact different (element_of_reference? found)
    dsimp only
    split
    · exact write_other apart found value
    · let logged := b.log (.redeclared old.element old.name name)
      have size : (logged.dropReference old).slots.size = b.slots.size :=
        (SameSources.bump _ old.name).size.trans (size_write ..)
      obtain ⟨stays, read⟩ := dropReference_other (b := logged) apart different found
      obtain ⟨kept, same⟩ := addReference_other (size ▸ inside) different stays name type value
      exact ⟨kept, same.trans read⟩

end

/-- Registration of one element makes its reference stand, and what stood before still does. -/
theorem bears_register (h : b.Allotted) {other : ElementId}
    (either : other = el ∨ b.Bears doc accessors config other) :
    (b.register doc accessors config el).1.Bears doc accessors config other := by
  rcases b.register_shape doc accessors config el with ⟨invalid, notes⟩ | ⟨-, c, notes, same⟩
  · rcases either with rfl | before
    · exact fun valid => absurd valid invalid
    · exact before.same (.of_sources (.notes notes))
  · have allotted := h.same (.notes notes)
    rw [same]
    intro valid
    by_cases own : other = el
    · subst own
      obtain ⟨r, found, name, type, agrees⟩ := placed_placeDeclaration allotted other
        (doc.referenceName other config) (doc.referenceType other config)
        (accessors.getTyped doc other (doc.referenceType other config))
      exact ⟨r, found, name, type, type.symm ▸ agrees⟩
    · have before := (either.resolve_left own).same (.of_sources (.notes notes))
      obtain ⟨r, found, name, type, agrees⟩ := before valid
      obtain ⟨kept, read⟩ := placeDeclaration_other allotted (Ne.symm own) found
        (doc.referenceName el config) (doc.referenceType el config)
        (accessors.getTyped doc el (doc.referenceType el config))
      exact ⟨r, kept, name, type, read.symm ▸ agrees⟩

/-- To register what stands changes nothing. -/
theorem Bears.register (h : b.Bears doc accessors config el) :
    Notes b (b.register doc accessors config el).1 := by
  rcases b.register_shape doc accessors config el with ⟨-, notes⟩ | ⟨valid, c, notes, same⟩
  · exact notes
  · have noted := h.same (c := c) (.of_sources (.notes notes))
    obtain ⟨r, found, name, type, agrees⟩ := noted valid
    rw [type] at agrees
    rw [same]
    unfold placeDeclaration
    rw [found]
    dsimp only
    rw [if_pos ⟨name, type⟩, write_of_same agrees]
    exact notes

end

/-! ## Groups -/

/-- Whether all references and groups are those of a document: their elements are attached, and the
groups have the members and values that they have there. -/
structure Grounded (b : Bindings ν) (doc : Document) : Prop where
  references : ∀ r ∈ b.references, doc.isAttached r.element
  scopes : ∀ g ∈ b.groups, doc.isAttached g.scope
  computed : ∀ g ∈ b.groups, b.Computed doc g

section
variable {b c : Bindings ν} {doc : Document}

theorem Grounded.same (h : b.Grounded doc) (same : SameSources b c) : c.Grounded doc where
  references r mem := h.references r (same.references ▸ mem)
  scopes g mem := h.scopes g (same.groups ▸ mem)
  computed g mem := (h.computed g (same.groups ▸ mem)).congr same.references
    (fun r _ => same.reads r.slot) (same.reads g.slot)

/-- Groups are computed alike in documents with one tree. -/
theorem Computed.of_sameTree {doc' : Document} (same : doc.SameTree doc') {g : Group}
    (h : b.Computed doc' g) : b.Computed doc g := by
  have named : ∀ scope name, b.namedWithin doc' scope name = b.namedWithin doc scope name := by
    intro scope name
    unfold namedWithin
    rw [same.descendants]
  obtain ⟨members, values⟩ := h
  unfold recomputed at members
  unfold groupValues at values
  rw [named] at members values
  exact ⟨members, values⟩

/-- What an evaluation on an attached element adds is of the document, when the tree is the same. -/
theorem Grounded.extend (h : b.Grounded doc) (allotted : b.Allotted) {doc' : Document}
    (same : doc.SameTree doc') (rooted : doc.Rooted) {el : ElementId}
    (attached : doc'.isAttached el) (extension : Extends doc' el b c) : c.Grounded doc := by
  have references := extension.references
  have reads := extension.reads_references allotted.placed
  obtain ⟨added, groups, fresh⟩ := extension.groups
  constructor
  · intro r mem
    exact h.references r (references ▸ mem)
  · intro g mem
    rcases List.mem_append.mp (groups ▸ mem) with mem | mem
    · exact h.scopes g mem
    · rw [← same.isAttached]
      exact (same.rooted rooted).isAttached_of_bounds attached (fresh g mem).2
  · intro g mem
    rcases List.mem_append.mp (groups ▸ mem) with mem | mem
    · have read := extension.reads g.slot (allotted.placed.groups g mem)
      exact (h.computed g mem).congr references reads read
    · exact (fresh g mem).1.computed.of_sameTree same

theorem Grounded.actualizeReferences (h : b.Grounded doc) :
    b.actualizeReferences doc = (b, 0) := by
  have none : (b.references.filter fun r => !doc.isAttached r.element) = [] := by
    apply List.filter_eq_nil_iff.mpr
    intro r mem
    simp [h.references r mem]
  unfold Bindings.actualizeReferences
  rw [none]
  rfl

theorem refreshEach_of_computed {groups : List Group} (chosen : Group → Bool)
    (computed : ∀ g ∈ groups, b.Computed doc g) :
    b.refreshEach doc chosen groups = (b, groups, 0) := by
  induction groups with
  | nil => rfl
  | cons g rest ih =>
    obtain ⟨⟨members, values⟩, others⟩ := List.forall_mem_cons.mp computed
    have written :
        b.write g.slot (b.memberValues (b.namedWithin doc g.scope g.name)) = (b, false) :=
      write_of_same values
    have kept : b.refresh doc g = (b, g, false) := by
      unfold refresh
      dsimp only
      rw [written]
      exact congrArg (fun g => (b, g, false)) members
    unfold refreshEach
    simp only [kept, ih others]
    split <;> rfl

/-- To compute groups anew that are as the document has them changes nothing. -/
theorem Grounded.actualizeGroups (h : b.Grounded doc) : Notes b (b.actualizeGroups doc).1 := by
  have live : (b.groups.filter fun g => doc.isAttached g.scope) = b.groups :=
    List.filter_eq_self.mpr fun g mem => h.scopes g mem
  have gone : (b.groups.filter fun g => !doc.isAttached g.scope) = [] := by
    apply List.filter_eq_nil_iff.mpr
    intro g mem
    simp [h.scopes g mem]
  unfold Bindings.actualizeGroups
  rw [partition_groups, live, gone]
  dsimp only [List.foldl_nil]
  rw [refreshEach_of_computed _ h.computed]
  exact .record b rfl

theorem Clears.sameReferences {dropped : List Group} (h : Clears b dropped c)
    (separate : b.Separate) (fewer : dropped ⊆ b.groups) : SameReferences b c where
  references := h.references
  reads r mem := h.read_of_free fun g mem' => (separate.apart r mem g (fewer mem')).symm

/-- The groups that stay when groups are computed anew are as the document has them. -/
theorem computed_actualizeGroups (separate : b.Separate) (doc : Document) :
    let c := (b.actualizeGroups doc).1
    SameReferences b c ∧ ∀ g ∈ c.groups, doc.isAttached g.scope ∧ c.Computed doc g := by
  intro c
  obtain ⟨cleared, d, after, clears, refreshes, notes⟩ := refreshes_actualizeGroups separate doc
  have before := clears.sameReferences separate fun g mem => (List.mem_filter.mp mem).1
  have start : { b with groups := b.groups.filter fun g => doc.isAttached g.scope }.Separate :=
    separate.withGroups List.filter_sublist
  have apart := (clears.separate start).apart
  have sources : SameSources { d with groups := after } c := .notes notes
  have between : SameReferences cleared { d with groups := after } :=
    ⟨refreshes.references, refreshes.reads_references apart⟩
  refine ⟨before.trans (between.trans (.of_sources sources)), fun g mem => ?_⟩
  have mem : g ∈ after := by
    rw [sources.groups] at mem
    exact mem
  rw [refreshes.after] at mem
  obtain ⟨g', there, rfl⟩ := List.mem_map.mp mem
  have computed := refreshes.computed apart there rfl
  exact ⟨(List.mem_filter.mp there).2, computed.congr sources.references
    (fun r _ => sources.reads r.slot) (sources.reads _)⟩

/-- After the groups have been computed anew they are as the document has them. -/
theorem grounded_actualizeGroups (h : b.Allotted)
    (attached : ∀ r ∈ b.references, doc.isAttached r.element) :
    (b.actualizeGroups doc).1.Grounded doc ∧ SameReferences b (b.actualizeGroups doc).1 := by
  obtain ⟨same, computed⟩ := computed_actualizeGroups h.separate doc
  refine ⟨⟨fun r mem => ?_, fun g mem => (computed g mem).1, fun g mem => (computed g mem).2⟩, same⟩
  exact attached r (same.references ▸ mem)

end

/-! ## Observers -/

/-- Whether initialisation has answered for an element: its observers come from what it declares, or
it has none and its flaw has been reported. -/
def Answered (b : Bindings ν) (doc : Document) (actions : ActionTable ν) (config : Config)
    (reported : List DependencyError) (el : ElementId) : Prop :=
  (∃ entry, b.declared? el = some entry ∧
      entry.signature = doc.declarationSignature el config) ∨
    b.declared? el = none ∧ ∃ error ∈ reported, doc.flaw? actions config el = some error

section
variable {b c : Bindings ν} {doc : Document} {actions : ActionTable ν} {config : Config}
  {reported : List DependencyError} {el : ElementId}

theorem Answered.same (h : b.Answered doc actions config reported el)
    (declared : c.declared? el = b.declared? el) {more : List DependencyError}
    (subset : reported ⊆ more) : c.Answered doc actions config more el := by
  unfold Answered
  rw [declared]
  apply h.imp_right
  rintro ⟨none, error, mem, flaw⟩
  exact ⟨none, error, subset mem, flaw⟩

theorem Answered.alike {doc' : Document} {els : List ElementId}
    (h : b.Answered doc' actions config reported el) (same : doc.DeclaresAlike config els doc')
    (mem : el ∈ els) : b.Answered doc actions config reported el := by
  unfold Answered at h ⊢
  rwa [same.signature el mem, same.flaw? actions mem] at h

theorem flaw?_of_init {error : DependencyError}
    (failed : (b.init doc el actions config).2 = .error error) :
    doc.flaw? actions config el = some error := by
  unfold Document.flaw?
  unfold init at failed
  dsimp only at failed
  split at failed
  · cases failed
  · cases targeted : targetOf doc el config with
    | error cause =>
      rw [targeted] at failed
      cases failed
      rfl
    | ok target =>
      rw [targeted] at failed
      cases read : prepareEach actions (doc.declarations el config) with
      | error cause =>
        rw [read] at failed
        cases failed
        rfl
      | ok prepared =>
        rw [read] at failed
        cases failed

/-- Initialisation answers for its element, and changes nothing for the others. -/
theorem answered_init (b : Bindings ν) (doc : Document) (el : ElementId)
    (actions : ActionTable ν) (config : Config) (reported : List DependencyError)
    (told : ∀ error, (b.init doc el actions config).2 = .error error → error ∈ reported) :
    (b.init doc el actions config).1.Answered doc actions config reported el ∧
      ∀ other, other ≠ el →
        (b.init doc el actions config).1.declared? other = b.declared? other := by
  have destroyed := b.declared?_destroyElement el
  have flaw : ∀ error, (b.init doc el actions config).2 = .error error →
      doc.flaw? actions config el = some error := fun _ => flaw?_of_init
  have cases := b.init_cases doc el actions config
  generalize b.init doc el actions config = r at told flaw cases
  rcases cases with ⟨known, rfl⟩ | ⟨-, ⟨error, rfl, -⟩ | ⟨target, prepared, -, -, rfl⟩⟩
  · exact ⟨.inl known, fun _ _ => rfl⟩
  · have none : (b.destroyElement el).1.declared? el = none := (destroyed el).trans (if_pos rfl)
    have mem := told error rfl
    have flaw := flaw error rfl
    constructor
    · right
      exact ⟨none, error, mem, flaw⟩
    · intro other different
      rw [destroyed, if_neg different]
  · generalize observersFrom doc el config target _ prepared = added
    have placed := (b.destroyElement el).1.declared?_addObservers el
      (doc.declarationSignature el config) (b.destroyElement el).2 added
    have own := placed el
    rw [if_pos rfl] at own
    constructor
    · left
      refine ⟨⟨el, doc.declarationSignature el config, added.map (·.id)⟩, own, ?_⟩
      simp only
    · intro other different
      rw [placed, if_neg (Ne.symm different), destroyed, if_neg different]

/-- To initialise an element once more that has been answered for changes nothing. -/
theorem Answered.init (h : b.Answered doc actions config reported el) :
    b.init doc el actions config = (b, .ok []) ∨
      ∃ error ∈ reported, doc.flaw? actions config el = some error ∧
        b.init doc el actions config = (b, .error error) := by
  rcases h with known | ⟨none, error, mem, flaw⟩
  · left
    rcases b.init_cases doc el actions config with ⟨-, same⟩ | ⟨changed, -⟩
    · exact same
    · obtain ⟨entry, found, same⟩ := known
      exact absurd same (changed entry found)
  · right
    refine ⟨error, mem, flaw, ?_⟩
    have kept : b.destroyElement el = (b, 0) := by
      unfold destroyElement
      rw [none]
    unfold Document.flaw? at flaw
    unfold Bindings.init
    rw [none, kept]
    dsimp only [Option.any_none]
    rw [if_neg Bool.false_ne_true]
    cases targeted : targetOf doc el config with
    | error cause =>
      rw [targeted] at flaw
      obtain rfl := Option.some.inj flaw
      rfl
    | ok target =>
      rw [targeted] at flaw
      cases read : prepareEach actions (doc.declarations el config) with
      | error cause =>
        rw [read] at flaw
        obtain rfl := Option.some.inj flaw
        rfl
      | ok prepared =>
        rw [read] at flaw
        cases flaw

theorem attached_actualizeObservers {entry : ElementObservers}
    (found : (b.actualizeObservers doc).1.declared? el = some entry) : doc.isAttached el := by
  rw [declared?_actualizeObservers] at found
  split at found
  · next attached => exact attached
  · cases found

/-- Where all elements with observers are attached, none is destroyed. -/
theorem actualizeObservers_of_attached
    (attached : ∀ el entry, b.declared? el = some entry → doc.isAttached el) :
    b.actualizeObservers doc = (b, 0) := by
  have none : ((b.declared.map (·.element)).filter fun el => !doc.isAttached el) = [] := by
    apply List.filter_eq_nil_iff.mpr
    intro el mem
    obtain ⟨entry, there, rfl⟩ := List.mem_map.mp mem
    have found : (b.declared? entry.element).isSome := by
      unfold declared?
      rw [List.find?_isSome]
      exact ⟨entry, there, beq_self_eq_true _⟩
    obtain ⟨other, found⟩ := Option.isSome_iff_exists.mp found
    simp [attached entry.element other found]
  unfold actualizeObservers
  rw [none]
  rfl

end

end Bindings

end FormDependencies
