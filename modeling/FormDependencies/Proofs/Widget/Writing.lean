import FormDependencies.Proofs.Document.Complete
import FormDependencies.Proofs.Widget.Reading

/-!
What the built-in accessors write. A plain field and a toggle are written where they stand. A radio
group is written by checking its members, and a select of several values by selecting its options,
so that whatever else reads these marks reads otherwise as well.
-/

namespace FormDependencies

namespace Document

/-! ## Changes of marks -/

/-- The documents have one tree, and nothing that accessors read differs but for whether some
elements are checked and others selected. -/
structure MarksOnly (doc doc' : Document) (checkable selectable : List ElementId) : Prop
    extends SameTree doc doc' where
  look : ∀ el, doc.LooksAlike doc' el
  value : ∀ el, doc'.value el = doc.value el
  checked : ∀ el, el ∉ checkable → doc'.checked el = doc.checked el
  selected : ∀ el, el ∉ selectable →
    doc'.hasAttribute el "selected" = doc.hasAttribute el "selected"
  outbox : doc'.outbox = doc.outbox

section
variable {doc doc' doc'' : Document} {checkable selectable : List ElementId}

theorem LooksAlike.trans {el : ElementId} (first : LooksAlike doc doc' el)
    (second : LooksAlike doc' doc'' el) : LooksAlike doc doc'' el where
  tag := second.tag.trans first.tag
  attributes name mem := (second.attributes name mem).trans (first.attributes name mem)

namespace MarksOnly

theorem refl (doc : Document) (checkable selectable : List ElementId) :
    MarksOnly doc doc checkable selectable :=
  ⟨⟨rfl, rfl⟩, fun _ => .of_element? rfl, fun _ => rfl, fun _ _ => rfl, fun _ _ => rfl, rfl⟩

theorem trans (first : MarksOnly doc doc' checkable selectable)
    (second : MarksOnly doc' doc'' checkable selectable) :
    MarksOnly doc doc'' checkable selectable where
  toSameTree := first.toSameTree.trans second.toSameTree
  look el := (first.look el).trans (second.look el)
  value el := (second.value el).trans (first.value el)
  checked el free := (second.checked el free).trans (first.checked el free)
  selected el free := (second.selected el free).trans (first.selected el free)
  outbox := second.outbox.trans first.outbox

theorem foldl {step : Document → ElementId → Document} (parts : List ElementId)
    (each : ∀ doc, ∀ part ∈ parts, MarksOnly doc (step doc part) checkable selectable)
    (doc : Document) : MarksOnly doc (parts.foldl step doc) checkable selectable := by
  induction parts generalizing doc with
  | nil => exact refl doc checkable selectable
  | cons part rest ih =>
    have first := each doc part List.mem_cons_self
    exact first.trans (ih (fun doc part mem => each doc part (List.mem_cons_of_mem _ mem)) _)

/-- One element may be changed as far as the change keeps what is to be kept. -/
theorem modify (doc : Document) (part : ElementId) {change : Element → Element}
    (tag : ∀ e, (change e).tag = e.tag)
    (attributes : ∀ e, ∀ name ∈ "value" :: kindAttributes,
      (change e).attribute? name = e.attribute? name)
    (written : ∀ e, (change e).written = e.written)
    (checked : part ∈ checkable ∨ ∀ e, (change e).checked = e.checked)
    (selected : part ∈ selectable ∨
      ∀ e, (change e).attribute? "selected" = e.attribute? "selected") :
    MarksOnly doc (doc.modify part change) checkable selectable := by
  have view : ∀ {β : Type} (read : Element → β) (el : ElementId),
      part ≠ el ∨ (∀ e, read (change e) = read e) →
      ((doc.modify part change).element? el).map read = (doc.element? el).map read := by
    intro β read el either
    rw [element?_modify]
    split
    · next own =>
      rw [Option.map_map]
      exact congrArg (Option.map · _) (funext (either.resolve_left fun other => other own))
    · rfl
  have named : ∀ (name : String) (el : ElementId),
      part ≠ el ∨ (∀ e, (change e).attribute? name = e.attribute? name) →
      (doc.modify part change).attribute? el name = doc.attribute? el name := by
    intro name el either
    have split : ∀ doc : Document,
        doc.attribute? el name = ((doc.element? el).map (·.attribute? name)).bind id := by
      intro doc
      rw [Option.bind_map]
      rfl
    rw [split, split, view (·.attribute? name) el either]
  have value : ∀ e, (change e).value = e.value := by
    intro e
    unfold Element.value
    rw [written e, attributes e "value" List.mem_cons_self]
  refine ⟨doc.sameTree_modify part change, fun el => ⟨?_, fun name mem => ?_⟩, fun el => ?_,
    fun el free => ?_, fun el free => ?_, rfl⟩
  · exact view (·.tag) el (.inr tag)
  · exact named name el (.inr fun e => attributes e name (List.mem_cons_of_mem _ mem))
  · exact congrArg (Option.getD · "") (view (·.value) el (.inr value))
  · have other := checked.imp_left fun mem (own : part = el) => free (own ▸ mem)
    exact congrArg (Option.getD · false) (view (·.checked) el other)
  · have other := selected.imp_left fun mem (own : part = el) => free (own ▸ mem)
    exact congrArg Option.isSome (named "selected" el other)

theorem setChecked (doc : Document) {part : ElementId} (mem : part ∈ checkable) (on : Bool) :
    MarksOnly doc (doc.setChecked part on) checkable selectable :=
  modify doc part (fun _ => rfl) (fun _ _ _ => rfl) (fun _ => rfl) (.inl mem) (.inr fun _ => rfl)

theorem toggleSelected (doc : Document) {part : ElementId} (mem : part ∈ selectable) (on : Bool) :
    MarksOnly doc (doc.toggleAttribute part "selected" on) checkable selectable := by
  have other : ∀ name ∈ "value" :: kindAttributes, "selected" ≠ name := by
    decide +kernel
  unfold toggleAttribute
  split
  · refine modify doc part (fun _ => rfl) (fun e name mem => ?_) (fun _ => rfl)
      (.inr fun _ => rfl) (.inl mem)
    rw [Element.attribute?_setAttribute, if_neg (other name mem)]
  · refine modify doc part (fun _ => rfl) (fun e name mem => ?_) (fun _ => rfl)
      (.inr fun _ => rfl) (.inl mem)
    rw [Element.attribute?_removeAttribute, if_neg (other name mem)]

/-! ## Composite widgets -/

theorem checkMembers (doc : Document) (el : ElementId) (wanted : String) :
    MarksOnly doc (Accessor.checkMembers doc el wanted)
      (doc.queryAll el Accessor.radioMemberSelector) [] :=
  foldl _ (fun doc _ mem => setChecked doc mem _) doc

theorem selectOptions (doc : Document) (el : ElementId) (wanted : List String) :
    MarksOnly doc (Accessor.selectOptions doc el wanted) []
      (doc.queryAll el Accessor.optionSelector) :=
  foldl _ (fun doc _ mem => toggleSelected doc mem _) doc

end MarksOnly

end

/-! ## Announcements -/

theorem element?_announce (doc : Document) (el : ElementId) (kind : EventKind) (notify : Bool)
    (other : ElementId) : (doc.announce el kind notify).element? other = doc.element? other := by
  unfold announce trigger
  split
  · split <;> rfl
  · rfl

theorem sameTree_announce (doc : Document) (el : ElementId) (kind : EventKind) (notify : Bool) :
    SameTree doc (doc.announce el kind notify) := by
  unfold announce
  split
  · exact doc.sameTree_trigger el kind
  · exact ⟨rfl, rfl⟩

/-- Whether a value that is written to an element reaches what another element below it is read by:
the members of a radio group, or the options of a select of several values. -/
def WrittenThrough (doc : Document) (el other : ElementId) : Prop :=
  other ∈ doc.descendants el ∧
    match doc.widgetKind el with
    | .plain | .toggle => False
    | .radioGroup => doc.widgetKind other = .radioGroup ∨
        doc.widgetKind other = .toggle ∧ Accessor.radioMemberSelector.holds doc other
    | .multiValue => doc.widgetKind other = .multiValue

instance (doc : Document) (el other : ElementId) : Decidable (doc.WrittenThrough el other) := by
  unfold WrittenThrough
  cases doc.widgetKind el <;> exact inferInstance

end Document

/-! ## Writing -/

/-- What a kind of widget writes at an element before it announces the change. -/
def WidgetKind.Writes (doc : Document) (el : ElementId) (written : Document) : WidgetKind → Prop
  | .plain | .toggle => ∃ change, written = doc.modify el change
  | .radioGroup => doc.MarksOnly written (doc.queryAll el Accessor.radioMemberSelector) []
  | .multiValue => doc.MarksOnly written [] (doc.queryAll el Accessor.optionSelector)

theorem WidgetKind.Writes.keeps {kind : WidgetKind} {doc written : Document} {el : ElementId}
    (h : kind.Writes doc el written) : doc.SameTree written ∧ written.outbox = doc.outbox := by
  cases kind with
  | plain | toggle =>
    obtain ⟨change, rfl⟩ := h
    exact ⟨doc.sameTree_modify el change, rfl⟩
  | radioGroup => exact ⟨h.toSameTree, h.outbox⟩
  | multiValue => exact ⟨h.toSameTree, h.outbox⟩

namespace AccessorTable

theorem set_builtin (doc : Document) (el : ElementId) (value : Value) (notify : Bool) :
    ∃ written, builtin.set doc el value notify = written.announce el .change notify ∧
      (doc.widgetKind el).Writes doc el written := by
  unfold set
  rw [Document.resolve_builtin]
  cases doc.widgetKind el with
  | plain => exact ⟨_, rfl, _, rfl⟩
  | toggle => exact ⟨_, rfl, _, rfl⟩
  | radioGroup => exact ⟨_, rfl, .checkMembers doc el value.toText⟩
  | multiValue => exact ⟨_, rfl, .selectOptions doc el (Accessor.wantedOptions value)⟩

theorem sameTree_set (doc : Document) (el : ElementId) (value : Value) (notify : Bool) :
    doc.SameTree (builtin.set doc el value notify) := by
  obtain ⟨written, same, writes⟩ := set_builtin doc el value notify
  rw [same]
  exact writes.keeps.1.trans (written.sameTree_announce el .change notify)

/-- A write that is to be notified announces one change, at the element itself. -/
theorem outbox_set {doc : Document} {el : ElementId} (there : doc.contains el) (value : Value) :
    (builtin.set doc el value true).outbox = doc.outbox ++ [⟨el, .change⟩] := by
  obtain ⟨written, same, writes⟩ := set_builtin doc el value true
  obtain ⟨tree, outbox⟩ := writes.keeps
  have there : written.contains el := by
    unfold Document.contains at there ⊢
    rwa [tree.size]
  rw [same]
  unfold Document.announce Document.trigger
  rw [if_pos rfl, if_pos there, outbox]

/-- What is read at an element apart from the path upwards from the one that is written is the same
unless the value is written through to it. -/
theorem getTyped_set {doc : Document} {el other : ElementId} (rooted : doc.Rooted)
    (apart : other ∉ el :: doc.ancestors el) (spared : ¬doc.WrittenThrough el other)
    (value : Value) (notify : Bool) (type : RefType) :
    builtin.getTyped (builtin.set doc el value notify) other type =
      builtin.getTyped doc other type := by
  obtain ⟨written, same, writes⟩ := set_builtin doc el value notify
  have tree := writes.keeps.1
  have announced : builtin.getTyped (written.announce el .change notify) other type =
      builtin.getTyped written other type :=
    getTyped_of_element? (written.sameTree_announce el .change notify)
      (fun part _ => written.element?_announce el .change notify part) type
  rw [same, announced]
  unfold Document.WrittenThrough at spared
  cases kind : doc.widgetKind el with
  | plain | toggle =>
    rw [kind] at writes
    obtain ⟨change, rfl⟩ := writes
    apply getTyped_of_element? tree
    intro part mem
    rw [Document.element?_modify, if_neg]
    rintro rfl
    exact apart (rooted.mem_path_iff.mp mem)
  | radioGroup =>
    rw [kind] at writes spared
    apply getTyped_congr tree (writes.look other)
    cases own : doc.widgetKind other with
    | plain => exact writes.value other
    | toggle =>
      apply writes.checked
      intro member
      obtain ⟨below, member⟩ := List.mem_filter.mp member
      exact spared ⟨below, .inr ⟨own, member⟩⟩
    | radioGroup =>
      intro part mem
      refine ⟨writes.look part, writes.checked part fun member => ?_, writes.value part⟩
      have common := rooted.mem_descendants_of_common apart (List.mem_filter.mp member).1 mem
      exact spared ⟨common, .inl own⟩
    | multiValue =>
      intro part _
      exact ⟨writes.look part, writes.selected part List.not_mem_nil, writes.value part⟩
  | multiValue =>
    rw [kind] at writes spared
    apply getTyped_congr tree (writes.look other)
    cases own : doc.widgetKind other with
    | plain => exact writes.value other
    | toggle => exact writes.checked other List.not_mem_nil
    | radioGroup =>
      intro part _
      exact ⟨writes.look part, writes.checked part List.not_mem_nil, writes.value part⟩
    | multiValue =>
      intro part mem
      refine ⟨writes.look part, writes.selected part fun option => ?_, writes.value part⟩
      have common := rooted.mem_descendants_of_common apart (List.mem_filter.mp option).1 mem
      exact spared ⟨common, own⟩

end AccessorTable

end FormDependencies
