import FormDependencies.Document.Form
import FormDependencies.Proofs.Document.Attributes
import FormDependencies.Proofs.Widget.Writing

/-!
Writing a value and reading it back. What holds the value of a widget is the element itself, or the
members of the group, or the options of the select. Writing changes each of these once and nothing
else, and none of what tells the kinds of widgets and parts, so that the value is read where it was
written.
-/

namespace FormDependencies

/-! ## One element after the other -/

namespace Document

theorem value_of_element? {doc : Document} {el : ElementId} {e : Element}
    (found : doc.element? el = some e) : doc.value el = e.value := by
  unfold value
  rw [found]
  rfl

/-- A change may look at the element that it changes. -/
theorem element?_modify_own {doc : Document} {el : ElementId} {first change : Element → Element}
    (same : ∀ e, doc.element? el = some e → first e = change e) (other : ElementId) :
    (doc.modify el first).element? other =
      if el = other then (doc.element? other).map change else doc.element? other := by
  rw [element?_modify]
  split
  · next own =>
    subst own
    cases found : doc.element? el with
    | none => rfl
    | some e => exact congrArg some (same e found)
  · rfl

/-- Distinct elements that are changed one after the other are each changed once. -/
theorem element?_foldl {step : Document → ElementId → Document} {change : Element → Element}
    (each : ∀ doc el other, (step doc el).element? other =
      if el = other then (doc.element? other).map change else doc.element? other)
    {els : List ElementId} (distinct : els.Nodup) (doc : Document) (other : ElementId) :
    (els.foldl step doc).element? other =
      if other ∈ els then (doc.element? other).map change else doc.element? other := by
  induction els generalizing doc with
  | nil => rfl
  | cons el rest ih =>
    obtain ⟨fresh, distinct⟩ := List.nodup_cons.mp distinct
    rw [List.foldl_cons, ih distinct, each]
    by_cases own : el = other
    · subst own
      simp [fresh]
    · simp [own, Ne.symm own]

theorem Rooted.nodup_queryAll {doc : Document} (h : doc.Rooted) (el : ElementId) (s : Selector) :
    (doc.queryAll el s).Nodup :=
  (List.nodup_cons.mp (h.nodup_within el)).2.filter _

theorem Rooted.contains_of_mem_queryAll {doc : Document} (h : doc.Rooted) {el part : ElementId}
    {s : Selector} (mem : part ∈ doc.queryAll el s) : doc.contains part := by
  have below : part ∈ doc.descendants el := (List.mem_filter.mp mem).1
  unfold descendants Document.below at below
  cases found : doc.forest.below? el with
  | none => simp [found, Forest.elements] at below
  | some under =>
    rw [found] at below
    have stands := (Forest.sublist_below found).subset (List.mem_cons_of_mem _ below)
    exact decide_eq_true (h.created part stands)

end Document

/-! ## What a write changes -/

namespace WidgetKind

/-- The elements that hold the value of a widget. -/
def holders (doc : Document) (el : ElementId) : WidgetKind → List ElementId
  | .plain | .toggle => [el]
  | .radioGroup => doc.queryAll el Accessor.radioMemberSelector
  | .multiValue => doc.queryAll el Accessor.optionSelector

def rewrite (value : Value) (e : Element) : WidgetKind → Element
  | .plain => { e with written := some value.toText }
  | .toggle => { e with checked := value.isTruthy }
  | .radioGroup => { e with checked := e.value == value.toText }
  | .multiValue =>
    if (Accessor.wantedOptions value).contains e.value then e.setAttribute "selected" "true"
    else e.removeAttribute "selected"

theorem nodup_holders {doc : Document} (rooted : doc.Rooted) (el : ElementId) (kind : WidgetKind) :
    (kind.holders doc el).Nodup := by
  cases kind with
  | plain | toggle => exact List.pairwise_singleton _ el
  | radioGroup | multiValue => exact rooted.nodup_queryAll el _

theorem attribute?_rewrite (kind : WidgetKind) (value : Value) (e : Element) {name : String}
    (other : "selected" ≠ name) : (kind.rewrite value e).attribute? name = e.attribute? name := by
  cases kind with
  | plain | toggle | radioGroup => rfl
  | multiValue =>
    unfold rewrite
    dsimp only
    split
    · rw [e.attribute?_setAttribute, if_neg other]
    · rw [e.attribute?_removeAttribute, if_neg other]

theorem tag_rewrite (kind : WidgetKind) (value : Value) (e : Element) :
    (kind.rewrite value e).tag = e.tag := by
  cases kind with
  | plain | toggle | radioGroup => rfl
  | multiValue =>
    unfold rewrite
    dsimp only
    split <;> rfl

/-- The parts of a composite widget keep their values. -/
theorem value_rewrite {kind : WidgetKind} (composite : kind = .radioGroup ∨ kind = .multiValue)
    (value : Value) (e : Element) : (kind.rewrite value e).value = e.value := by
  have named : (kind.rewrite value e).attribute? "value" = e.attribute? "value" :=
    kind.attribute?_rewrite value e (by decide)
  have written : (kind.rewrite value e).written = e.written := by
    rcases composite with rfl | rfl
    · rfl
    · unfold rewrite
      dsimp only
      split <;> rfl
  unfold Element.value
  rw [written, named]

/-- An option is selected when its value is wanted. -/
theorem selected_rewrite (value : Value) (e : Element) :
    ((WidgetKind.multiValue.rewrite value e).attribute? "selected").isSome =
      (Accessor.wantedOptions value).contains e.value := by
  unfold rewrite
  dsimp only
  split
  · next wanted => rw [e.attribute?_setAttribute, if_pos rfl, wanted, Option.isSome_some]
  · next unwanted =>
    rw [e.attribute?_removeAttribute, if_pos rfl, Bool.eq_false_iff.mpr unwanted]
    rfl

end WidgetKind

namespace AccessorTable

variable {doc : Document} {el : ElementId}

/-- A write changes what holds the value and nothing else. -/
theorem element?_set (rooted : doc.Rooted) (el : ElementId) (value : Value) (notify : Bool)
    (other : ElementId) :
    (builtin.set doc el value notify).element? other =
      if other ∈ (doc.widgetKind el).holders doc el then
        (doc.element? other).map ((doc.widgetKind el).rewrite value)
      else doc.element? other := by
  have distinct := (doc.widgetKind el).nodup_holders rooted el
  unfold set
  rw [Document.resolve_builtin]
  cases kind : doc.widgetKind el with
  | plain | toggle =>
    refine ((Document.element?_announce ..).trans (doc.element?_modify el other _)).trans ?_
    simp only [WidgetKind.holders, List.mem_singleton, @eq_comm _ other el]
    rfl
  | radioGroup =>
    rw [kind] at distinct
    refine (Document.element?_announce ..).trans (Document.element?_foldl ?_ distinct doc other)
    intro doc member other
    refine Document.element?_modify_own (fun e found => ?_) other
    rw [Document.value_of_element? found]
    rfl
  | multiValue =>
    rw [kind] at distinct
    refine (Document.element?_announce ..).trans (Document.element?_foldl ?_ distinct doc other)
    intro doc option other
    unfold Document.toggleAttribute Document.setAttribute Document.removeAttribute
    split
    · next wanted =>
      refine Document.element?_modify_own (fun e found => ?_) other
      rw [Document.value_of_element? found] at wanted
      exact (if_pos wanted).symm
    · next unwanted =>
      refine Document.element?_modify_own (fun e found => ?_) other
      rw [Document.value_of_element? found] at unwanted
      exact (if_neg unwanted).symm

/-- A write changes nothing that tells the kind of a widget or of its parts. -/
theorem looksAlike_set (rooted : doc.Rooted) (el : ElementId) (value : Value) (notify : Bool)
    (other : ElementId) : doc.LooksAlike (builtin.set doc el value notify) other := by
  have same := element?_set rooted el value notify other
  split at same
  · constructor
    · unfold Document.tag?
      rw [same, Option.map_map]
      exact congrArg (Option.map · _) (funext ((doc.widgetKind el).tag_rewrite value))
    · intro name mem
      have different : "selected" ≠ name := by
        rintro rfl
        exact absurd mem (by decide)
      unfold Document.attribute?
      rw [same, Option.bind_map]
      exact congrArg _ (funext fun e => (doc.widgetKind el).attribute?_rewrite value e different)
  · exact .of_element? same

theorem queryAll_set (rooted : doc.Rooted) (el : ElementId) (value : Value) (notify : Bool)
    {s : Selector} (asks : s.AsksOnly kindAttributes) (container : ElementId) :
    (builtin.set doc el value notify).queryAll container s = doc.queryAll container s :=
  Document.queryAll_congr (sameTree_set doc el value notify) asks fun other _ =>
    looksAlike_set rooted el value notify other

/-! ## What is read afterwards -/

/-- An element that holds the value, before and after. -/
theorem element?_holder (rooted : doc.Rooted) {part : ElementId} (there : doc.contains part)
    (holds : part ∈ (doc.widgetKind el).holders doc el) (value : Value) (notify : Bool) :
    ∃ e, doc.element? part = some e ∧
      (builtin.set doc el value notify).element? part =
        some ((doc.widgetKind el).rewrite value e) := by
  obtain ⟨e, found⟩ := Document.element?_of_contains there
  refine ⟨e, found, ?_⟩
  rw [element?_set rooted, if_pos holds, found]
  rfl

theorem radioMember_set (rooted : doc.Rooted) (kind : doc.widgetKind el = .radioGroup)
    (value : Value) (notify : Bool) {member : ElementId}
    (mem : member ∈ doc.queryAll el Accessor.radioMemberSelector) :
    (builtin.set doc el value notify).value member = doc.value member ∧
      (builtin.set doc el value notify).checked member = (doc.value member == value.toText) := by
  have holds : member ∈ (doc.widgetKind el).holders doc el := by rwa [kind]
  obtain ⟨e, before, after⟩ :=
    element?_holder rooted (rooted.contains_of_mem_queryAll mem) holds value notify
  rw [kind] at after
  unfold Document.value Document.checked
  rw [before, after]
  exact ⟨WidgetKind.value_rewrite (.inl rfl) value e, rfl⟩

theorem option_set (rooted : doc.Rooted) (kind : doc.widgetKind el = .multiValue)
    (value : Value) (notify : Bool) {option : ElementId}
    (mem : option ∈ doc.queryAll el Accessor.optionSelector) :
    (builtin.set doc el value notify).value option = doc.value option ∧
      (builtin.set doc el value notify).hasAttribute option "selected" =
        (Accessor.wantedOptions value).contains (doc.value option) := by
  have holds : option ∈ (doc.widgetKind el).holders doc el := by rwa [kind]
  obtain ⟨e, before, after⟩ :=
    element?_holder rooted (rooted.contains_of_mem_queryAll mem) holds value notify
  rw [kind] at after
  have selected := WidgetKind.selected_rewrite value e
  unfold Document.value Document.hasAttribute Document.attribute?
  rw [before, after]
  exact ⟨WidgetKind.value_rewrite (.inr rfl) value e, selected⟩

theorem radioGroupValue_set (rooted : doc.Rooted) (kind : doc.widgetKind el = .radioGroup)
    (value : Value) (notify : Bool) :
    Accessor.radioGroupValue (builtin.set doc el value notify) el =
      if ∃ member ∈ doc.queryAll el Accessor.radioMemberSelector, doc.value member = value.toText
      then value.toText else "" := by
  unfold Accessor.radioGroupValue
  rw [queryAll_set rooted el value notify Accessor.asksOnly_radioMember]
  split
  · next member found =>
    have mem := List.mem_of_find?_eq_some found
    have checked := List.find?_some found
    obtain ⟨kept, wanted⟩ := radioMember_set rooted kind value notify mem
    have same : doc.value member = value.toText := beq_iff_eq.mp (wanted.symm.trans checked)
    rw [kept, same, if_pos ⟨member, mem, same⟩]
  · next none =>
    rw [if_neg]
    rintro ⟨member, mem, same⟩
    have wanted := (radioMember_set rooted kind value notify mem).2
    refine List.find?_eq_none.mp none member mem ?_
    rw [wanted, same, beq_self_eq_true]

theorem selectedValues_set (rooted : doc.Rooted) (kind : doc.widgetKind el = .multiValue)
    (value : Value) (notify : Bool) :
    Accessor.selectedValues (builtin.set doc el value notify) el =
      ((doc.queryAll el Accessor.optionSelector).filter fun option =>
        (Accessor.wantedOptions value).contains (doc.value option)).map
        fun option => .text (doc.value option) := by
  unfold Accessor.selectedValues
  rw [queryAll_set rooted el value notify Accessor.asksOnly_option,
    List.filter_congr fun option mem => (option_set rooted kind value notify mem).2]
  apply List.map_congr_left
  intro option mem
  rw [(option_set rooted kind value notify (List.mem_filter.mp mem).1).1]

theorem outbox_set_notify (there : doc.contains el) (value : Value) (notify : Bool) :
    (builtin.set doc el value notify).outbox =
      doc.outbox ++ if notify then [⟨el, .change⟩] else [] := by
  cases notify with
  | true => exact outbox_set there value
  | false =>
    obtain ⟨written, same, writes⟩ := set_builtin doc el value false
    rw [same, if_neg Bool.false_ne_true, List.append_nil]
    exact writes.keeps.2

/-- What is written to a widget is read back as what the widget can hold of it. A write reaches what
holds the value, tells of the change if it is to, and does nothing else. -/
theorem get_set (rooted : doc.Rooted) (there : doc.contains el) (value : Value) (notify : Bool) :
    let after := builtin.set doc el value notify
    (match doc.widgetKind el with
      | .plain => builtin.get after el = .text value.toText
      | .toggle => builtin.get after el = .bool value.isTruthy
      | .radioGroup =>
        let members := doc.queryAll el Accessor.radioMemberSelector
        builtin.get after el =
          .text (if ∃ member ∈ members, doc.value member = value.toText then value.toText else "") ∧
        ∀ member ∈ members, after.checked member ↔ doc.value member = value.toText
      | .multiValue =>
        let options := doc.queryAll el Accessor.optionSelector
        let wanted := Accessor.wantedOptions value
        builtin.get after el = .list ((options.filter fun option =>
          wanted.contains (doc.value option)).map fun option => .text (doc.value option)) ∧
        ∀ option ∈ options, after.hasAttribute option "selected" ↔ doc.value option ∈ wanted) ∧
    (∀ other, after.element? other =
      if other ∈ (doc.widgetKind el).holders doc el then
        (doc.element? other).map ((doc.widgetKind el).rewrite value)
      else doc.element? other) ∧
    doc.SameTree after ∧ after.outbox = doc.outbox ++ if notify then [⟨el, .change⟩] else [] := by
  intro after
  have changed := element?_set rooted el value notify
  refine ⟨?_, changed, sameTree_set doc el value notify, outbox_set_notify there value notify⟩
  -- The kind is found anew in the document that is read.
  have resolved : builtin.get after el = (doc.widgetKind el).accessor.get after el := by
    unfold get
    rw [Document.resolve_builtin, (looksAlike_set rooted el value notify el).widgetKind]
  rw [resolved]
  cases kind : doc.widgetKind el with
  | plain =>
    have holds : el ∈ (doc.widgetKind el).holders doc el := by simp [kind, WidgetKind.holders]
    obtain ⟨e, -, own⟩ := element?_holder rooted there holds value notify
    rw [kind] at own
    exact congrArg Value.text (Document.value_of_element? own)
  | toggle =>
    have holds : el ∈ (doc.widgetKind el).holders doc el := by simp [kind, WidgetKind.holders]
    obtain ⟨e, -, own⟩ := element?_holder rooted there holds value notify
    rw [kind] at own
    exact congrArg Value.bool (congrArg (Option.getD · false) (congrArg (Option.map _) own))
  | radioGroup =>
    refine ⟨congrArg Value.text (radioGroupValue_set rooted kind value notify), ?_⟩
    intro member mem
    rw [(radioMember_set rooted kind value notify mem).2, beq_iff_eq]
  | multiValue =>
    refine ⟨congrArg Value.list (selectedValues_set rooted kind value notify), ?_⟩
    intro option mem
    rw [(option_set rooted kind value notify mem).2, List.contains_iff_mem]

/-- A select in which two options have one value. -/
theorem get_set_select :
    let doc := (Form.addMultiSelect Form.new "choice" ["a", "b", "a"]).1
    let after := builtin.set doc ⟨2⟩ (.list [.text "c", .text "a"]) true
    doc.Rooted ∧ doc.contains ⟨2⟩ ∧ builtin.get after ⟨2⟩ = .list [.text "a", .text "a"] ∧
      after.outbox = [⟨⟨2⟩, .change⟩] := by
  intro doc after
  have rooted : doc.Rooted := by decide +kernel
  have there : doc.contains ⟨2⟩ := by decide +kernel
  have kind : doc.widgetKind ⟨2⟩ = .multiValue := by decide +kernel
  obtain ⟨read, -, -, announced⟩ := get_set rooted there (.list [.text "c", .text "a"]) true
  rw [kind] at read
  refine ⟨rooted, there, read.1.trans (congrArg Value.list ?_), announced.trans (by decide +kernel)⟩
  have chosen : ((doc.queryAll ⟨2⟩ Accessor.optionSelector).filter fun option =>
      (Accessor.wantedOptions (.list [.text "c", .text "a"])).contains (doc.value option)).map
        doc.value = ["a", "a"] := by decide +kernel
  simpa [Function.comp_def] using congrArg (List.map Value.text) chosen

end AccessorTable

end FormDependencies
