import FormDependencies.Document.Edit
import FormDependencies.Engine.Basic
import FormDependencies.Proofs.Document.Attributes
import FormDependencies.Proofs.Document.Complete
import FormDependencies.Proofs.Widget.Reading

/-!
Visibility and validation. Every target is marked and hidden in a step of its own, which also hides
the field around it; no step of hiding takes an attribute away, and no step of showing hides
anything. So the order of the targets does not show, however they and their fields are nested.
-/

namespace FormDependencies

/-- What one step of a fold brings about and every step keeps holds in the end. -/
theorem foldl_establishes {α β : Type} {step : β → α → β} {P : β → Prop} {entries : List α}
    {entry : α} (mem : entry ∈ entries) (own : ∀ state, P (step state entry))
    (keeps : ∀ state, P state → ∀ other ∈ entries, P (step state other)) (state : β) :
    P (entries.foldl step state) := by
  obtain ⟨before, after, rfl⟩ := List.append_of_mem mem
  rw [List.foldl_append, List.foldl_cons]
  exact List.foldlRecOn after step (own _) fun state holds other later =>
    keeps state holds other (by simp [later])

namespace Document

/-! ## Changes of attributes -/

def written? (doc : Document) (el : ElementId) : Option String :=
  (doc.element? el).bind (·.written)

theorem value_eq (doc : Document) (el : ElementId) :
    doc.value el = (doc.written? el).getD ((doc.attribute? el "value").getD "") := by
  unfold value written? attribute?
  cases doc.element? el <;> rfl

structure AttributesOnly (writes : ElementId → String → Prop) (doc doc' : Document) : Prop
    extends SameTree doc doc' where
  checked : ∀ el, doc'.checked el = doc.checked el
  written : ∀ el, doc'.written? el = doc.written? el
  others : ∀ el name, ¬writes el name → doc'.attribute? el name = doc.attribute? el name

namespace AttributesOnly
variable {writes : ElementId → String → Prop} {doc doc' : Document}

theorem refl (doc : Document) : AttributesOnly writes doc doc :=
  ⟨⟨rfl, rfl⟩, fun _ => rfl, fun _ => rfl, fun _ _ _ => rfl⟩

theorem modify (h : AttributesOnly writes doc doc') {el : ElementId} {name : String}
    (permitted : writes el name) {change : Element → Element}
    (checked : ∀ e, (change e).checked = e.checked) (written : ∀ e, (change e).written = e.written)
    (others : ∀ e other, name ≠ other → (change e).attribute? other = e.attribute? other) :
    AttributesOnly writes doc (doc'.modify el change) where
  toSameTree := h.toSameTree.trans (doc'.sameTree_modify el change)
  checked other := by
    rw [← h.checked other]
    unfold Document.checked
    rw [element?_modify]
    split
    · rw [Option.map_map, show Element.checked ∘ change = Element.checked from funext checked]
    · rfl
  written other := by
    rw [← h.written other]
    unfold written?
    rw [element?_modify]
    split
    · rw [Option.bind_map, show Element.written ∘ change = Element.written from funext written]
    · rfl
  others other asked free := by
    rw [← h.others other asked free]
    unfold attribute?
    rw [element?_modify]
    split
    · next own =>
      have different : name ≠ asked := by
        rintro rfl
        exact free (own ▸ permitted)
      rw [Option.bind_map]
      exact congrArg _ (funext fun e => others e asked different)
    · rfl

theorem setAttribute (h : AttributesOnly writes doc doc') {el : ElementId} {name : String}
    (permitted : writes el name) (value : String) :
    AttributesOnly writes doc (doc'.setAttribute el name value) :=
  h.modify permitted (fun _ => rfl) (fun _ => rfl) fun e other different => by
    rw [e.attribute?_setAttribute, if_neg different]

theorem toggleAttribute (h : AttributesOnly writes doc doc') {el : ElementId} {name : String}
    (permitted : writes el name) (on : Bool) :
    AttributesOnly writes doc (doc'.toggleAttribute el name on) := by
  cases on with
  | true => exact h.setAttribute permitted "true"
  | false =>
    exact h.modify permitted (fun _ => rfl) (fun _ => rfl) fun e other different => by
      rw [e.attribute?_removeAttribute, if_neg different]

end AttributesOnly

/-! ## Gaining attributes -/

structure Gains (doc doc' : Document) : Prop where
  size : doc'.size = doc.size
  has : ∀ el name, doc.hasAttribute el name → doc'.hasAttribute el name

theorem Gains.refl (doc : Document) : Gains doc doc := ⟨rfl, fun _ _ had => had⟩

theorem Gains.contains {doc doc' : Document} (h : Gains doc doc') (el : ElementId) :
    doc'.contains el = doc.contains el := by
  unfold Document.contains
  rw [h.size]

theorem Gains.setAttribute {doc doc' : Document} (h : Gains doc doc') (el : ElementId)
    (name value : String) : Gains doc (doc'.setAttribute el name value) where
  size := (Array.size_modify ..).trans h.size
  has other asked had := by
    have had := h.has other asked had
    unfold hasAttribute at had ⊢
    rw [attribute?_write]
    split
    · unfold attribute? at had
      cases there : doc'.element? other with
      | none => simp [there] at had
      | some e => rfl
    · exact had

theorem Gains.trans {doc doc' doc'' : Document} (first : Gains doc doc')
    (second : Gains doc' doc'') : Gains doc doc'' :=
  ⟨second.size.trans first.size, fun el name had => second.has el name (first.has el name had)⟩

theorem hasAttribute_setAttribute {doc : Document} {el : ElementId} (there : doc.contains el)
    (name value : String) : (doc.setAttribute el name value).hasAttribute el name := by
  obtain ⟨e, found⟩ := element?_of_contains there
  unfold hasAttribute
  rw [attribute?_write, if_pos ⟨rfl, rfl⟩, found]
  rfl

/-- What has an attribute after it was taken from an element is another one that had it before. -/
theorem hasAttribute_of_toggle_off {doc : Document} {el other : ElementId} {name : String}
    (has : (doc.toggleAttribute el name false).hasAttribute other name) :
    el ≠ other ∧ doc.hasAttribute other name := by
  unfold hasAttribute at has ⊢
  rw [show doc.toggleAttribute el name false = doc.removeAttribute el name from rfl,
    attribute?_erase] at has
  split at has
  · simp at has
  · next apart => exact ⟨fun own => apart ⟨own, rfl⟩, has⟩

theorem toggleOnField_eq (doc : Document) (el : ElementId) (name : String) (on : Bool) :
    ∃ around : List ElementId, doc.toggleOnField el name on =
      (el :: around).foldl (fun (doc : Document) part => doc.toggleAttribute part name on) doc := by
  unfold toggleOnField
  dsimp only
  split
  · next wrapper _ =>
    split
    · exact ⟨[], rfl⟩
    · exact ⟨[wrapper], rfl⟩
  · exact ⟨[], rfl⟩

end Document

/-! ## One target -/

namespace AccessorTable

/-- Showing or hiding a widget writes the type of some inputs, and whether it and some elements
around it are hidden. -/
theorem setVisible_eq (doc : Document) (el : ElementId) (visible : Bool) :
    ∃ inputs around : List ElementId, builtin.setVisible doc el visible =
      (el :: around).foldl
        (fun (doc : Document) part => doc.toggleAttribute part "hidden" (!visible))
        (inputs.foldl (fun (doc : Document) input =>
          doc.setAttribute input "type" (if visible then "text" else "hidden")) doc) := by
  unfold setVisible
  rw [Document.resolve_builtin]
  cases doc.widgetKind el with
  | toggle =>
    obtain ⟨around, same⟩ := Document.toggleOnField_eq (Accessor.setSwitchInputs doc el visible) el
      "hidden" (!visible)
    exact ⟨_, around, same⟩
  | plain | radioGroup | multiValue =>
    obtain ⟨around, same⟩ := doc.toggleOnField_eq el "hidden" (!visible)
    exact ⟨[], around, same⟩

theorem setVisible_keeps {P : Document → Prop} (visible : Bool)
    (type : ∀ doc el value, P doc → P (doc.setAttribute el "type" value))
    (hidden : ∀ doc el, P doc → P (doc.toggleAttribute el "hidden" (!visible)))
    {doc : Document} (holds : P doc) (el : ElementId) : P (builtin.setVisible doc el visible) := by
  obtain ⟨inputs, around, same⟩ := setVisible_eq doc el visible
  rw [same]
  refine List.foldlRecOn _ _ ?_ fun doc holds part _ => hidden doc part holds
  exact List.foldlRecOn _ _ holds fun doc holds input _ => type doc input _ holds

theorem setVisible_establishes {P : Document → Prop} (visible : Bool) {el : ElementId}
    (own : ∀ doc : Document, P (doc.toggleAttribute el "hidden" (!visible)))
    (hidden : ∀ doc el, P doc → P (doc.toggleAttribute el "hidden" (!visible)))
    (doc : Document) : P (builtin.setVisible doc el visible) := by
  obtain ⟨inputs, around, same⟩ := setVisible_eq doc el visible
  rw [same]
  apply foldl_establishes List.mem_cons_self
  · exact own
  · intro doc holds part _
    exact hidden doc part holds

variable {doc : Document} {el other : ElementId}

/-- Hiding a widget takes no attribute away. -/
theorem gains_hide (doc : Document) (el : ElementId) :
    doc.Gains (builtin.setVisible doc el false) :=
  setVisible_keeps false (fun _ el value gains => gains.setAttribute el "type" value)
    (fun _ el gains => gains.setAttribute el "hidden" "true") (.refl doc) el

theorem hasAttribute_hide (there : doc.contains el) :
    (builtin.setVisible doc el false).hasAttribute el "hidden" := by
  have hides : (builtin.setVisible doc el false).contains el →
      (builtin.setVisible doc el false).hasAttribute el "hidden" := by
    refine setVisible_establishes false
      (P := fun doc => doc.contains el → doc.hasAttribute el "hidden")
      (fun doc there => ?_) (fun doc part hidden there => ?_) doc
    · have gains := (Document.Gains.refl doc).setAttribute el "hidden" "true"
      exact Document.hasAttribute_setAttribute ((gains.contains el).symm.trans there) _ _
    · have gains := (Document.Gains.refl doc).setAttribute part "hidden" "true"
      exact gains.has el _ (hidden ((gains.contains el).symm.trans there))
  exact hides (((gains_hide doc el).contains el).trans there)

/-- Showing a widget hides nothing, and leaves the widget itself not hidden. -/
theorem hidden_of_show (hidden : (builtin.setVisible doc el true).hasAttribute other "hidden") :
    el ≠ other ∧ doc.hasAttribute other "hidden" := by
  constructor
  -- The element itself comes first, and what is shown after it does not hide it again.
  · rintro rfl
    refine setVisible_establishes true
      (P := fun doc => ¬doc.hasAttribute el "hidden") ?_ ?_ doc hidden
    · exact fun doc hidden => (Document.hasAttribute_of_toggle_off hidden).1 rfl
    · exact fun doc part shown hidden => shown (Document.hasAttribute_of_toggle_off hidden).2
  · refine setVisible_keeps true
      (P := fun doc' => doc'.hasAttribute other "hidden" → doc.hasAttribute other "hidden")
      (fun doc' part value shown hidden => shown ?_) (fun doc' part shown hidden => shown ?_) id el
      hidden
    · unfold Document.hasAttribute at hidden ⊢
      rwa [Document.attribute?_write, if_neg (by simp)] at hidden
    · exact (Document.hasAttribute_of_toggle_off hidden).2

end AccessorTable

/-! ## All targets -/

namespace ActionContext
variable {ctx : ActionContext} {visible : Bool} {doc : Document} {target el : ElementId}

def setTarget (ctx : ActionContext) (visible : Bool) (doc : Document) (target : ElementId) :
    Document :=
  ctx.accessors.setVisible (doc.setAttribute target ctx.config.controllableAttribute "") target
    visible

/-! ### Hiding -/

theorem gains_setTarget (accessors : ctx.accessors = .builtin) (doc : Document)
    (target : ElementId) : doc.Gains (ctx.setTarget false doc target) := by
  have marks := (Document.Gains.refl doc).setAttribute target ctx.config.controllableAttribute ""
  unfold setTarget
  rw [accessors]
  exact marks.trans (AccessorTable.gains_hide _ target)

/-- A target that is hidden carries the mark. -/
theorem marked_setTarget (accessors : ctx.accessors = .builtin) (there : doc.contains target) :
    (ctx.setTarget false doc target).hasAttribute target ctx.config.controllableAttribute ∧
      (ctx.setTarget false doc target).hasAttribute target "hidden" := by
  have marks := (Document.Gains.refl doc).setAttribute target ctx.config.controllableAttribute ""
  unfold setTarget
  rw [accessors]
  constructor
  · exact (AccessorTable.gains_hide _ target).has _ _ (Document.hasAttribute_setAttribute there _ _)
  · exact AccessorTable.hasAttribute_hide ((marks.contains target).trans there)

theorem marked_hide (accessors : ctx.accessors = .builtin) (there : doc.contains target)
    (mem : target ∈ ctx.targets) :
    (ctx.setVisible doc false).hasAttribute target ctx.config.controllableAttribute ∧
      (ctx.setVisible doc false).hasAttribute target "hidden" := by
  have gains : doc.Gains (ctx.setVisible doc false) :=
    List.foldlRecOn _ _ (.refl doc) fun doc gains other _ =>
      gains.trans (gains_setTarget accessors doc other)
  -- A target that does not exist is not marked; that it exists holds before each step alike.
  refine foldl_establishes (P := fun doc => doc.contains target →
    doc.hasAttribute target ctx.config.controllableAttribute ∧ doc.hasAttribute target "hidden")
    mem ?_ ?_ doc ((gains.contains target).trans there)
  · intro doc there
    have gains := gains_setTarget accessors doc target
    exact marked_setTarget accessors ((gains.contains target).symm.trans there)
  · intro doc marked other _ there
    have gains := gains_setTarget accessors doc other
    obtain ⟨mark, hidden⟩ := marked ((gains.contains target).symm.trans there)
    exact ⟨gains.has target _ mark, gains.has target _ hidden⟩

/-! ### Showing -/

/-- Showing a target hides nothing, and leaves the target itself not hidden. -/
theorem hidden_of_setTarget (accessors : ctx.accessors = .builtin)
    (hidden : (ctx.setTarget true doc target).hasAttribute el "hidden") :
    target ≠ el ∧ doc.hasAttribute el "hidden" := by
  unfold setTarget at hidden
  rw [accessors] at hidden
  -- The mark may itself be `hidden`: it is set on the target only, which is shown right after.
  obtain ⟨apart, hidden⟩ := AccessorTable.hidden_of_show hidden
  unfold Document.hasAttribute at hidden ⊢
  rw [Document.attribute?_write, if_neg fun own => apart own.1] at hidden
  exact ⟨apart, hidden⟩

theorem shown_setVisible (accessors : ctx.accessors = .builtin) (doc : Document)
    (mem : target ∈ ctx.targets) : ¬(ctx.setVisible doc true).hasAttribute target "hidden" := by
  refine foldl_establishes (P := fun doc => ¬doc.hasAttribute target "hidden") mem ?_ ?_ doc
  · exact fun doc hidden => (hidden_of_setTarget accessors hidden).1 rfl
  · exact fun doc shown other _ hidden => shown (hidden_of_setTarget accessors hidden).2

/-! ### What both leave alone -/

/-- The attributes that showing and hiding may write. -/
def Writes (ctx : ActionContext) (el : ElementId) (name : String) : Prop :=
  name = "type" ∨ name = "hidden" ∨ el ∈ ctx.targets ∧ name = ctx.config.controllableAttribute

theorem attributesOnly_setVisible (accessors : ctx.accessors = .builtin) (doc : Document)
    (visible : Bool) : doc.AttributesOnly ctx.Writes (ctx.setVisible doc visible) := by
  refine List.foldlRecOn _ _ (.refl doc) fun after writes target mem => ?_
  rw [accessors]
  apply AccessorTable.setVisible_keeps
  · exact fun _ _ value writes => writes.setAttribute (.inl rfl) value
  · exact fun _ _ writes => writes.toggleAttribute (.inr (.inl rfl)) (!visible)
  · exact writes.setAttribute (.inr (.inr ⟨mem, rfl⟩)) ""

theorem blank_setTarget (accessors : ctx.accessors = .builtin)
    (mark : ctx.config.controllableAttribute = "value")
    (blank : target = el ∨ (doc.attribute? el "value").getD "" = "") :
    ((ctx.setTarget visible doc target).attribute? el "value").getD "" = "" := by
  unfold setTarget
  rw [accessors, mark]
  refine AccessorTable.setVisible_keeps visible
    (P := fun doc => (doc.attribute? el "value").getD "" = "") ?_ ?_ ?_ target
  · intro doc part value blank
    rwa [Document.attribute?_write, if_neg (by simp)]
  · intro doc part blank
    rwa [Document.attribute?_toggle_of_ne _ _ _ (by simp)]
  · rw [Document.attribute?_write]
    split
    · cases doc.element? el <;> rfl
    · next other => exact blank.resolve_left fun own => other ⟨own, rfl⟩

/-- A target has no value of its own where the mark is the attribute that gives it one. -/
theorem blank_setVisible (accessors : ctx.accessors = .builtin) (doc : Document) (visible : Bool)
    (mark : ctx.config.controllableAttribute = "value") (mem : el ∈ ctx.targets) :
    ((ctx.setVisible doc visible).attribute? el "value").getD "" = "" := by
  refine foldl_establishes (P := fun doc => (doc.attribute? el "value").getD "" = "") mem ?_ ?_ doc
  · exact fun doc => blank_setTarget accessors mark (.inl rfl)
  · exact fun doc blank other _ => blank_setTarget accessors mark (.inr blank)

/-- Showing and hiding leave values alone, except where the mark is the attribute that gives a
value to fields whose value has not been written. -/
theorem value_setVisible (accessors : ctx.accessors = .builtin) (doc : Document) (visible : Bool)
    (el : ElementId) :
    (ctx.setVisible doc visible).value el =
      if ctx.config.controllableAttribute = "value" ∧ el ∈ ctx.targets ∧ doc.written? el = none
      then "" else doc.value el := by
  have writes := attributesOnly_setVisible accessors doc visible
  rw [Document.value_eq, Document.value_eq, writes.written el]
  cases property : doc.written? el with
  | some text => simp
  | none =>
    simp only [Option.getD_none, and_true]
    split
    · next marked => exact blank_setVisible accessors doc visible marked.1 marked.2
    · next free =>
      rw [writes.others el "value"]
      simpa [Writes, and_comm, eq_comm] using free

end ActionContext

/-! ## Validation -/

namespace ActionContext
variable {ν : Type}

/-- Hiding puts every target, with all that is below it, out of validation. Showing leaves a target
out of it only where something above it is hidden under control. Neither touches the tree, what is
checked, or a value, except that a target has an empty value where the mark is the attribute that
gives it one. -/
theorem visibility_excludes {doc : Document} (rooted : doc.Rooted) {e : Engine ν}
    {ctx : ActionContext} (accessors : ctx.accessors = .builtin) (config : ctx.config = e.config)
    (there : ∀ target ∈ ctx.targets, doc.contains target) :
    let hidden := ctx.setVisible doc false
    let shown := ctx.setVisible doc true
    (∀ target ∈ ctx.targets, ∀ el ∈ target :: doc.descendants target,
      e.isExcluded hidden el) ∧
    (∀ target ∈ ctx.targets, ¬shown.hasAttribute target "hidden" ∧
      (e.isExcluded shown target ↔ ∃ above ∈ doc.ancestors target,
        shown.hasAttribute above "hidden" ∧
          ∃ mark ∈ Document.controlMarks e.config, shown.hasAttribute above mark)) ∧
    ∀ visible, doc.SameTree (ctx.setVisible doc visible) ∧ ∀ el,
      (ctx.setVisible doc visible).checked el = doc.checked el ∧
      (ctx.setVisible doc visible).value el =
        if e.config.controllableAttribute = "value" ∧ el ∈ ctx.targets ∧ doc.written? el = none
        then "" else doc.value el := by
  refine ⟨fun target mem el within => ?_, fun target mem => ?_, fun visible => ?_⟩
  · have writes := attributesOnly_setVisible accessors doc false
    obtain ⟨mark, hidden⟩ := marked_hide accessors (there target mem) mem
    have above := rooted.mem_path_iff.mp within
    rw [← writes.ancestors el] at above
    refine List.any_eq_true.mpr ⟨target, above, ?_⟩
    rw [hidden, Bool.true_and, List.any_eq_true]
    exact ⟨_, by simp [Document.controlMarks, config], mark⟩
  · have writes := attributesOnly_setVisible accessors doc true
    have shown := shown_setVisible accessors doc mem
    refine ⟨shown, ?_⟩
    unfold Engine.isExcluded Document.isExcluded
    rw [List.any_cons, Bool.eq_false_iff.mpr shown, writes.ancestors, Bool.false_and, Bool.false_or]
    simp only [List.any_eq_true, Bool.and_eq_true]
  · have writes := attributesOnly_setVisible accessors doc visible
    rw [← config]
    exact ⟨writes.toSameTree, fun el => ⟨writes.checked el,
      value_setVisible accessors doc visible el⟩⟩

def switchField : Document :=
  Document.new.editAll
    [.create "div", .setAttribute ⟨1⟩ "class" fieldWrapperClass, .append .root ⟨1⟩,
      .create "coral-switch", .setChecked ⟨2⟩ true, .append ⟨1⟩ ⟨2⟩,
      .create "input", .setAttribute ⟨3⟩ "class" Accessor.switchInputClass,
      .setAttribute ⟨3⟩ "value" "kept", .append ⟨2⟩ ⟨3⟩]

/-- The wrapper of the switch is a target itself, between the switch and the switch once more. -/
def switchTargets : ActionContext where
  accessors := .builtin
  config := .standard
  element := ⟨1⟩
  targets := [⟨2⟩, ⟨1⟩, ⟨2⟩]
  parameters := []

def switchEngine : Engine Unit where
  config := .standard
  collection := Accessor.toggleSelector
  evaluator := .script .first

theorem visibility_excludes_switchField :
    let hidden := switchTargets.setVisible switchField false
    let shown := switchTargets.setVisible switchField true
    switchField.Rooted ∧ (∀ target ∈ switchTargets.targets, switchField.contains target) ∧
      (∀ el ∈ ⟨1⟩ :: switchField.descendants ⟨1⟩, switchEngine.isExcluded hidden el) ∧
      ¬switchEngine.isExcluded shown ⟨2⟩ ∧ hidden.checked ⟨2⟩ ∧ hidden.value ⟨3⟩ = "kept" := by
  intro hidden shown
  have rooted : switchField.Rooted := by decide +kernel
  have there : ∀ target ∈ switchTargets.targets, switchField.contains target := by decide +kernel
  have accessors : switchTargets.accessors = .builtin := rfl
  have config : switchTargets.config = switchEngine.config := rfl
  obtain ⟨out, within, alone⟩ := visibility_excludes rooted accessors config there
  have visible : ¬∃ above ∈ switchField.ancestors ⟨2⟩, shown.hasAttribute above "hidden" ∧
      ∃ mark ∈ Document.controlMarks switchEngine.config, shown.hasAttribute above mark := by
    decide +kernel
  refine ⟨rooted, there, out ⟨1⟩ (by decide), (within ⟨2⟩ (by decide)).2.not.mpr visible, ?_, ?_⟩
  · exact ((alone false).2 ⟨2⟩).1.trans (by decide +kernel)
  · exact ((alone false).2 ⟨3⟩).2.trans (by decide +kernel)

/-- Where fields take their values from the attribute that is the mark, showing and hiding a field
empty it. -/
theorem value_emptied :
    let doc := Document.new.editAll
      [.create "input", .setAttribute ⟨1⟩ "value" "kept", .append .root ⟨1⟩]
    let ctx : ActionContext := { switchTargets with
      config := { controllableAttribute := "value" }, targets := [⟨1⟩] }
    doc.Rooted ∧ (∀ target ∈ ctx.targets, doc.contains target) ∧ doc.value ⟨1⟩ = "kept" ∧
      ∀ visible, (ctx.setVisible doc visible).value ⟨1⟩ = "" := by
  decide +kernel

end ActionContext

end FormDependencies
