import FormDependencies.Proofs.Document.Attachment
import FormDependencies.Widget.Registry

/-!
What the built-in accessors read. Which of them is the one for an element shows in the tag and some
attributes of the element itself. Plain fields and toggles are read where they stand; radio groups
and selects of several values also read what is below them. So whatever changes elsewhere is never
read.
-/

namespace FormDependencies

/-! ## Selectors -/

theorem Document.hasClass_congr {doc doc' : Document} {el : ElementId}
    (same : doc'.attribute? el "class" = doc.attribute? el "class") (name : String) :
    doc'.hasClass el name = doc.hasClass el name := by
  unfold hasClass
  rw [same]

def Compound.attributeNames (c : Compound) : List String :=
  "class" :: c.attributes.map (·.name)

theorem Compound.holds_congr {c : Compound} {doc doc' : Document} {el : ElementId}
    (tag : doc'.tag? el = doc.tag? el)
    (attributes : ∀ name ∈ c.attributeNames, doc'.attribute? el name = doc.attribute? el name) :
    c.holds doc' el = c.holds doc el := by
  obtain ⟨classes, tested⟩ := List.forall_mem_cons.mp attributes
  have hasClass : doc'.hasClass el = doc.hasClass el := by
    funext name
    exact Document.hasClass_congr classes name
  have tests : ∀ test ∈ c.attributes, test.holds doc' el = test.holds doc el := by
    intro test mem
    unfold AttributeTest.holds
    rw [tested test.name (List.mem_map_of_mem mem)]
  have all : c.attributes.all (·.holds doc' el) = c.attributes.all (·.holds doc el) := by
    rw [Bool.eq_iff_iff, List.all_eq_true, List.all_eq_true]
    exact forall₂_congr fun test mem => by rw [tests test mem]
  unfold holds
  rw [tag, hasClass, all]

/-- Whether a selector asks for nothing but the tag and some attributes of the element itself. -/
def Selector.AsksOnly (names : List String) (s : Selector) : Prop :=
  ∀ chain ∈ s.alternatives, ∃ c, chain = [c] ∧ c.attributeNames ⊆ names

theorem Selector.AsksOnly.holds_congr {s : Selector} {names : List String} (h : s.AsksOnly names)
    {doc doc' : Document} {el : ElementId} (tag : doc'.tag? el = doc.tag? el)
    (attributes : ∀ name ∈ names, doc'.attribute? el name = doc.attribute? el name) :
    s.holds doc' el = s.holds doc el := by
  have each : ∀ chain ∈ s.alternatives, Chain.holds chain doc' el = Chain.holds chain doc el := by
    intro chain mem
    obtain ⟨c, rfl, asks⟩ := h chain mem
    have subject := c.holds_congr tag fun name mem => attributes name (asks mem)
    simp [Chain.holds, Chain.holdsAmong, subject]
  unfold Selector.holds
  rw [Bool.eq_iff_iff, List.any_eq_true, List.any_eq_true]
  exact exists_congr fun chain => and_congr_right fun mem => by rw [each chain mem]

def kindAttributes : List String := ["class", "type", "multiple"]

namespace Accessor

theorem asksOnly_toggle : toggleSelector.AsksOnly kindAttributes := by
  simp [Selector.AsksOnly, toggleSelector, Compound.attributeNames, kindAttributes]

theorem asksOnly_radioGroup : radioGroupSelector.AsksOnly kindAttributes := by
  simp [Selector.AsksOnly, radioGroupSelector, Compound.attributeNames, kindAttributes]

theorem asksOnly_multiValue : multiValueSelector.AsksOnly kindAttributes := by
  simp [Selector.AsksOnly, multiValueSelector, Compound.attributeNames, kindAttributes]

theorem asksOnly_radioMember : radioMemberSelector.AsksOnly kindAttributes := by
  simp [Selector.AsksOnly, radioMemberSelector, Compound.attributeNames, kindAttributes]

theorem asksOnly_option : optionSelector.AsksOnly kindAttributes := by
  simp [Selector.AsksOnly, optionSelector, Compound.attributeNames, kindAttributes]

end Accessor

/-! ## Kinds of widgets -/

inductive WidgetKind where
  | plain
  | toggle
  | radioGroup
  | multiValue
deriving DecidableEq

def WidgetKind.accessor : WidgetKind → Accessor
  | .plain => .plain
  | .toggle => .toggle
  | .radioGroup => .radioGroup
  | .multiValue => .multiValue

namespace Document

def widgetKind (doc : Document) (el : ElementId) : WidgetKind :=
  if Accessor.multiValueSelector.holds doc el then .multiValue
  else if Accessor.radioGroupSelector.holds doc el then .radioGroup
  else if Accessor.toggleSelector.holds doc el then .toggle
  else .plain

theorem resolve_builtin (doc : Document) (el : ElementId) :
    AccessorTable.builtin.resolve doc el = (doc.widgetKind el).accessor := by
  have newest : AccessorTable.builtin.entries.reverse =
      [(Accessor.multiValueSelector, .multiValue), (Accessor.radioGroupSelector, .radioGroup),
        (Accessor.toggleSelector, .toggle)] := rfl
  unfold AccessorTable.resolve widgetKind
  rw [newest, List.find?_cons, List.find?_cons, List.find?_cons]
  cases Accessor.multiValueSelector.holds doc el with
  | true => rfl
  | false =>
    cases Accessor.radioGroupSelector.holds doc el with
    | true => rfl
    | false => cases Accessor.toggleSelector.holds doc el <;> rfl

structure LooksAlike (doc doc' : Document) (el : ElementId) : Prop where
  tag : doc'.tag? el = doc.tag? el
  attributes : ∀ name ∈ kindAttributes, doc'.attribute? el name = doc.attribute? el name

namespace LooksAlike
variable {doc doc' : Document} {el : ElementId}

theorem holds (h : LooksAlike doc doc' el) {s : Selector} (asks : s.AsksOnly kindAttributes) :
    s.holds doc' el = s.holds doc el :=
  asks.holds_congr h.tag h.attributes

theorem widgetKind (h : LooksAlike doc doc' el) : doc'.widgetKind el = doc.widgetKind el := by
  unfold Document.widgetKind
  rw [h.holds Accessor.asksOnly_multiValue, h.holds Accessor.asksOnly_radioGroup,
    h.holds Accessor.asksOnly_toggle]

theorem of_element? (same : doc'.element? el = doc.element? el) : LooksAlike doc doc' el where
  tag := by
    unfold tag?
    rw [same]
  attributes name _ := by
    unfold attribute?
    rw [same]

end LooksAlike

theorem queryAll_congr {doc doc' : Document} (tree : SameTree doc doc') {container : ElementId}
    {s : Selector} (asks : s.AsksOnly kindAttributes)
    (look : ∀ el ∈ doc.descendants container, LooksAlike doc doc' el) :
    doc'.queryAll container s = doc.queryAll container s := by
  unfold queryAll
  rw [tree.descendants]
  exact List.filter_congr fun el mem => (look el mem).holds asks

end Document

/-! ## Reading -/

def WidgetKind.ReadsAlike (doc doc' : Document) (el : ElementId) : WidgetKind → Prop
  | .plain => doc'.value el = doc.value el
  | .toggle => doc'.checked el = doc.checked el
  | .radioGroup => ∀ part ∈ doc.descendants el, doc.LooksAlike doc' part ∧
      doc'.checked part = doc.checked part ∧ doc'.value part = doc.value part
  | .multiValue => ∀ part ∈ doc.descendants el, doc.LooksAlike doc' part ∧
      doc'.hasAttribute part "selected" = doc.hasAttribute part "selected" ∧
        doc'.value part = doc.value part

section
variable {doc doc' : Document} {el : ElementId}

theorem Accessor.radioGroupValue_congr (tree : doc.SameTree doc')
    (reads : WidgetKind.radioGroup.ReadsAlike doc doc' el) :
    radioGroupValue doc' el = radioGroupValue doc el := by
  have members := Document.queryAll_congr tree asksOnly_radioMember fun part mem =>
    (reads part mem).1
  have found : (doc.queryAll el radioMemberSelector).find? doc'.checked =
      (doc.queryAll el radioMemberSelector).find? doc.checked := by
    rw [← List.head?_filter, ← List.head?_filter]
    congr 1
    exact List.filter_congr fun part mem => (reads part (List.mem_filter.mp mem).1).2.1
  unfold radioGroupValue
  rw [members, found]
  split
  · next member checked =>
    have mem := List.mem_of_find?_eq_some checked
    exact (reads member (List.mem_filter.mp mem).1).2.2
  · rfl

theorem Accessor.selectedValues_congr (tree : doc.SameTree doc')
    (reads : WidgetKind.multiValue.ReadsAlike doc doc' el) :
    selectedValues doc' el = selectedValues doc el := by
  have options := Document.queryAll_congr tree asksOnly_option fun part mem => (reads part mem).1
  have below : ∀ part ∈ doc.queryAll el optionSelector, part ∈ doc.descendants el :=
    fun part mem => (List.mem_filter.mp mem).1
  have selected : (doc.queryAll el optionSelector).filter (doc'.hasAttribute · "selected") =
      (doc.queryAll el optionSelector).filter (doc.hasAttribute · "selected") :=
    List.filter_congr fun part mem => (reads part (below part mem)).2.1
  unfold selectedValues
  rw [options, selected]
  apply List.map_congr_left
  intro part mem
  rw [(reads part (below part (List.mem_filter.mp mem).1)).2.2]

theorem AccessorTable.getTyped_congr (tree : doc.SameTree doc') (look : doc.LooksAlike doc' el)
    (reads : (doc.widgetKind el).ReadsAlike doc doc' el) (type : RefType) :
    builtin.getTyped doc' el type = builtin.getTyped doc el type := by
  unfold getTyped get typeAt
  simp only [Document.resolve_builtin, look.widgetKind]
  congr 1
  cases kind : doc.widgetKind el with
  | plain =>
    rw [kind] at reads
    exact congrArg Value.text reads
  | toggle =>
    rw [kind] at reads
    exact congrArg Value.bool reads
  | radioGroup =>
    rw [kind] at reads
    exact congrArg Value.text (Accessor.radioGroupValue_congr tree reads)
  | multiValue =>
    rw [kind] at reads
    exact congrArg Value.list (Accessor.selectedValues_congr tree reads)

/-- What is read at an element depends on it and on what is below it alone. -/
theorem AccessorTable.getTyped_of_element? (tree : doc.SameTree doc')
    (same : ∀ other ∈ el :: doc.descendants el, doc'.element? other = doc.element? other)
    (type : RefType) : builtin.getTyped doc' el type = builtin.getTyped doc el type := by
  obtain ⟨own, below⟩ := List.forall_mem_cons.mp same
  apply getTyped_congr tree (.of_element? own)
  have value : ∀ part, doc'.element? part = doc.element? part →
      doc'.value part = doc.value part := by
    intro part same
    unfold Document.value
    rw [same]
  have checked : ∀ part, doc'.element? part = doc.element? part →
      doc'.checked part = doc.checked part := by
    intro part same
    unfold Document.checked
    rw [same]
  cases doc.widgetKind el with
  | plain => exact value el own
  | toggle => exact checked el own
  | radioGroup =>
    intro part mem
    have same := below part mem
    exact ⟨.of_element? same, checked part same, value part same⟩
  | multiValue =>
    intro part mem
    have same := below part mem
    refine ⟨.of_element? same, ?_, value part same⟩
    unfold Document.hasAttribute Document.attribute?
    rw [same]

end

end FormDependencies
