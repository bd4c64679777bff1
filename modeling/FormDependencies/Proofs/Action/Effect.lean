import FormDependencies.Action.Registry

/-!
What actions and accessors do to a document, as a relation between the document before and after.
Whatever relation permits the elementary changes that the built-in ones are made of holds of all
built-in ones.
-/

namespace FormDependencies

/-- The attributes that built-in accessors and actions write under every configuration. -/
def fieldAttributes : List String :=
  ["hidden", "disabled", "readonly", "required", "aria-required", "aria-invalid", "type",
    "selected"]

/-- A relation that holds of the elementary changes: of writing some attributes and the properties
of fields, and of announcing changed values. -/
structure Permits (R : Document → Document → Prop) (suits : Config → Prop)
    (writable : String → Prop) : Prop where
  refl : ∀ doc, R doc doc
  trans : ∀ {doc doc' doc''}, R doc doc' → R doc' doc'' → R doc doc''
  setAttribute : ∀ doc el {name} value, writable name → R doc (doc.setAttribute el name value)
  removeAttribute : ∀ doc el {name}, writable name → R doc (doc.removeAttribute el name)
  setChecked : ∀ doc el on, R doc (doc.setChecked el on)
  setValue : ∀ doc el value, R doc (doc.setValue el value)
  trigger : ∀ doc el kind, EventKind.isValueChange kind → R doc (doc.trigger el kind)
  field : ∀ name ∈ fieldAttributes, writable name
  named : ∀ config, suits config →
    writable config.controllableAttribute ∧ writable config.validationMessageAttribute

structure Accessor.Keeps (R : Document → Document → Prop) (a : Accessor) : Prop where
  set : ∀ doc el value notify, R doc (a.set doc el value notify)
  setVisible : ∀ doc el on, R doc (a.setVisible doc el on)
  setDisabled : ∀ doc el on, R doc (a.setDisabled doc el on)
  setReadonly : ∀ doc el on, R doc (a.setReadonly doc el on)
  setRequired : ∀ doc el on, R doc (a.setRequired doc el on)

def AccessorTable.Keeps (R : Document → Document → Prop) (table : AccessorTable) : Prop :=
  ∀ entry ∈ table.entries, entry.2.Keeps R

/-- Under a suitable configuration an action changes documents as the relation says, as far as the
accessors that it is given do. -/
def Action.Keeps {ν : Type} (R : Document → Document → Prop) (suits : Config → Prop)
    (action : Action ν) : Prop :=
  ∀ (ctx : ActionContext) result doc, ctx.accessors.Keeps R → suits ctx.config →
    R doc (action ctx result doc).1

def ActionTable.Keeps {ν : Type} (R : Document → Document → Prop) (suits : Config → Prop)
    (table : ActionTable ν) : Prop :=
  ∀ entry ∈ table.entries, entry.2.Keeps R suits

/-- An action that is found in a table is one of its actions. -/
theorem ActionTable.Keeps.get {ν : Type} {R : Document → Document → Prop} {suits : Config → Prop}
    {table : ActionTable ν} (h : table.Keeps R suits) {name : String} {action : Action ν}
    (found : table.get name = .ok action) : action.Keeps R suits := by
  unfold ActionTable.get at found
  cases entry : table.entries.find? fun entry => entry.1 == name with
  | none => simp [entry] at found
  | some e =>
    simp only [entry, Except.ok.injEq] at found
    exact found ▸ h e (List.mem_of_find?_eq_some entry)

namespace Permits
variable {R : Document → Document → Prop} {suits : Config → Prop} {writable : String → Prop}

theorem foldl {α : Type} (h : Permits R suits writable) {step : Document → α → Document}
    (each : ∀ doc a, R doc (step doc a)) (entries : List α) (doc : Document) :
    R doc (entries.foldl step doc) := by
  induction entries generalizing doc with
  | nil => exact h.refl doc
  | cons entry rest ih => exact h.trans (each doc entry) (ih _)

theorem toggleAttribute (h : Permits R suits writable) (doc : Document) (el : ElementId)
    {name : String} (allowed : writable name) (on : Bool) :
    R doc (doc.toggleAttribute el name on) := by
  unfold Document.toggleAttribute
  split
  · exact h.setAttribute doc el "true" allowed
  · exact h.removeAttribute doc el allowed

theorem toggleOnField (h : Permits R suits writable) (doc : Document) (el : ElementId)
    {name : String} (allowed : writable name) (on : Bool) :
    R doc (doc.toggleOnField el name on) := by
  have own := h.toggleAttribute doc el allowed on
  unfold Document.toggleOnField
  dsimp only
  split
  · split
    · exact own
    · exact h.trans own (h.toggleAttribute _ _ allowed on)
  · exact own

theorem announce (h : Permits R suits writable) (doc : Document) (el : ElementId) (notify : Bool) :
    R doc (doc.announce el .change notify) := by
  unfold Document.announce
  split
  · exact h.trigger doc el .change rfl
  · exact h.refl doc

/-! ## Accessors -/

/-- The parts that all built-in accessors have in common. -/
theorem accessor (h : Permits R suits writable) {a : Accessor}
    (set : ∀ doc el value notify, ∃ written, R doc written ∧
      a.set doc el value notify = written.announce el .change notify)
    (setVisible : ∀ doc el on, R doc (a.setVisible doc el on))
    (disabled : a.setDisabled = fun doc el on => doc.toggleOnField el "disabled" on)
    (readonly : a.setReadonly = fun doc el on => doc.toggleAttribute el "readonly" on)
    (required : a.setRequired = fun doc el on =>
      (doc.toggleAttribute el "required" on).toggleAttribute el "aria-required" on) :
    a.Keeps R where
  set doc el value notify := by
    obtain ⟨written, kept, same⟩ := set doc el value notify
    exact same ▸ h.trans kept (h.announce written el notify)
  setVisible := setVisible
  setDisabled doc el on := disabled ▸ h.toggleOnField doc el (h.field "disabled" (by decide)) on
  setReadonly doc el on := readonly ▸ h.toggleAttribute doc el (h.field "readonly" (by decide)) on
  setRequired doc el on := required ▸
    h.trans (h.toggleAttribute doc el (h.field "required" (by decide)) on)
      (h.toggleAttribute _ el (h.field "aria-required" (by decide)) on)

theorem setHidden (h : Permits R suits writable) (doc : Document) (el : ElementId) (on : Bool) :
    R doc (doc.toggleOnField el "hidden" on) :=
  h.toggleOnField doc el (h.field "hidden" (by decide)) on

theorem plain (h : Permits R suits writable) : Accessor.plain.Keeps R :=
  h.accessor (fun doc el value _ => ⟨_, h.setValue doc el value.toText, rfl⟩)
    (fun doc el on => h.setHidden doc el (!on)) rfl rfl rfl

theorem toggle (h : Permits R suits writable) : Accessor.toggle.Keeps R := by
  refine h.accessor (fun doc el value _ => ⟨_, h.setChecked doc el value.isTruthy, rfl⟩)
    (fun doc el on => ?_) rfl rfl rfl
  have inputs : R doc (Accessor.setSwitchInputs doc el on) :=
    h.foldl (fun doc input => h.setAttribute doc input _ (h.field "type" (by decide))) _ doc
  exact h.trans inputs (h.setHidden _ el (!on))

theorem radioGroup (h : Permits R suits writable) : Accessor.radioGroup.Keeps R := by
  refine h.accessor (fun doc el value _ => ⟨Accessor.checkMembers doc el value.toText, ?_, rfl⟩)
    (fun doc el on => h.setHidden doc el (!on)) rfl rfl rfl
  exact h.foldl (fun doc member => h.setChecked doc member _) _ doc

theorem multiValue (h : Permits R suits writable) : Accessor.multiValue.Keeps R := by
  refine h.accessor (fun doc el value _ =>
      ⟨Accessor.selectOptions doc el (Accessor.wantedOptions value), ?_, rfl⟩)
    (fun doc el on => h.setHidden doc el (!on)) rfl rfl rfl
  exact h.foldl
    (fun doc option => h.toggleAttribute doc option (h.field "selected" (by decide)) _) _ doc

theorem builtinAccessors (h : Permits R suits writable) : AccessorTable.builtin.Keeps R := by
  intro entry mem
  have listed : entry ∈ [(Accessor.toggleSelector, Accessor.toggle),
      (Accessor.radioGroupSelector, .radioGroup), (Accessor.multiValueSelector, .multiValue)] := mem
  simp only [List.mem_cons, List.not_mem_nil, or_false] at listed
  rcases listed with rfl | rfl | rfl
  · exact h.toggle
  · exact h.radioGroup
  · exact h.multiValue

theorem resolve (h : Permits R suits writable) {table : AccessorTable} (keeps : table.Keeps R)
    (doc : Document) (el : ElementId) : (table.resolve doc el).Keeps R := by
  unfold AccessorTable.resolve
  cases found : table.entries.reverse.find? fun entry => entry.1.holds doc el with
  | none => exact h.plain
  | some entry => exact keeps entry (List.mem_reverse.mp (List.mem_of_find?_eq_some found))

/-! ## Actions -/

section
variable {ν : Type}

theorem onEach (h : Permits R suits writable)
    {change : ActionContext → Value → Document → ElementId → Document}
    (each : ∀ (ctx : ActionContext) result doc target, ctx.accessors.Keeps R → suits ctx.config →
      R doc (change ctx result doc target)) : (Action.onEach change : Action ν).Keeps R suits :=
  fun ctx result doc keeps suited =>
    h.foldl (fun doc target => each ctx result doc target keeps suited) ctx.targets doc

theorem visibility (h : Permits R suits writable) :
    (Action.visibility : Action ν).Keeps R suits := by
  intro ctx result doc keeps suited
  refine h.foldl (fun doc target => ?_) ctx.targets doc
  let marked := doc.setAttribute target ctx.config.controllableAttribute ""
  have first : R doc marked := h.setAttribute doc target "" (h.named ctx.config suited).1
  exact h.trans first ((h.resolve keeps marked target).setVisible marked target result.isTruthy)

theorem disabled (h : Permits R suits writable) : (Action.disabled : Action ν).Keeps R suits :=
  h.onEach fun _ _ doc target keeps _ => (h.resolve keeps doc target).setDisabled _ _ _

theorem readonly (h : Permits R suits writable) : (Action.readonly : Action ν).Keeps R suits :=
  h.onEach fun _ _ doc target keeps _ => (h.resolve keeps doc target).setReadonly _ _ _

theorem required (h : Permits R suits writable) : (Action.required : Action ν).Keeps R suits :=
  h.onEach fun _ _ doc target keeps _ => (h.resolve keeps doc target).setRequired _ _ _

theorem set (h : Permits R suits writable) : (Action.set : Action ν).Keeps R suits :=
  h.onEach fun _ _ doc target keeps _ => by
    split
    · exact h.refl doc
    · exact (h.resolve keeps doc target).set _ _ _ _

theorem setIfBlank (h : Permits R suits writable) : (Action.setIfBlank : Action ν).Keeps R suits :=
  h.onEach fun _ _ doc target keeps _ => by
    split
    · exact h.refl doc
    · exact (h.resolve keeps doc target).set _ _ _ _

theorem validate (h : Permits R suits writable) : (Action.validate : Action ν).Keeps R suits := by
  apply h.onEach
  intro ctx result doc target _ suited
  have invalid := h.field "aria-invalid" (by decide)
  have message := (h.named ctx.config suited).2
  unfold Action.mark
  dsimp only
  split
  · exact h.trans (h.removeAttribute doc target invalid) (h.removeAttribute _ target message)
  · exact h.trans (h.setAttribute doc target "true" invalid) (h.setAttribute _ target _ message)

theorem builtinActions (h : Permits R suits writable) :
    (ActionTable.builtin : ActionTable ν).Keeps R suits := by
  intro entry mem
  simp only [ActionTable.builtin, List.mem_cons, List.not_mem_nil, or_false] at mem
  rcases mem with rfl | rfl | rfl | rfl | rfl | rfl | rfl
  · exact h.visibility
  · exact h.disabled
  · exact h.readonly
  · exact h.required
  · exact h.set
  · exact h.setIfBlank
  · exact h.validate

end

end Permits

end FormDependencies
