import FormDependencies.Config
import FormDependencies.Proofs.Json.Reading
import FormDependencies.Proofs.Json.Writing

/-!
A JSON object overrides the standard configuration in the fields that its members name, whatever
their order and whatever else it holds. A configuration written as JSON names every field, so it is
read back.
-/

namespace FormDependencies.Config

open JsonGrammar
open JsonText (decodeString? decodeParts?)

/-! ## Members and fields -/

abbrev Member := List JsonStringPart × JsonText

def Names (member : Member) (field : Field) : Prop :=
  Denotes member.1 field.name.toList

/-- A value of the type of a field that denotes what the configuration holds there. -/
inductive Gives (c : Config) : Field → JsonText → Prop
  | text {field : TextField} {parts : List JsonStringPart} :
      Denotes parts (c.text field).toList → Gives c (.text field) (.text parts)
  | separator {parts : List JsonStringPart} :
      Denotes parts [c.separator] → Gives c .separator (.text parts)
  | cascadeLimit {digits : List Char} : Nat.ofDigitChars 10 digits 0 = c.cascadeLimit.toNat →
      Gives c .cascadeLimit (.number ⟨false, digits, none, none⟩)

def Same (c d : Config) : Field → Prop
  | .text field => c.text field = d.text field
  | .separator => c.separator = d.separator
  | .cascadeLimit => c.cascadeLimit = d.cascadeLimit

structure WellTyped (members : List Member) : Prop where
  named : ∀ member ∈ members, ∃ name, Denotes member.1 name
  typed : ∀ member ∈ members, ∀ field, Names member field → ∃ c, Gives c field member.2
  once : members.Pairwise fun member later => ∀ field, Names member field → ¬ Names later field

/-- The configuration `base` overridden in exactly the fields that the members name. -/
structure Overrides (c base : Config) (members : List Member) : Prop where
  given : ∀ member ∈ members, ∀ field, Names member field → Gives c field member.2
  kept : ∀ field, (∀ member ∈ members, ¬ Names member field) → Same c base field

theorem Field.mem_all (field : Field) : field ∈ all := by
  cases field with
  | text field => cases field <;> decide
  | separator => decide
  | cascadeLimit => decide

theorem Field.ofName?_name (field : Field) : ofName? field.name = some field := by
  cases field with
  | text field => cases field <;> rfl
  | separator => rfl
  | cascadeLimit => rfl

theorem Field.ofName?_eq_some_iff {name : String} {field : Field} :
    ofName? name = some field ↔ field.name = name := by
  constructor
  · intro found
    simpa using List.find?_some found
  · rintro rfl
    exact ofName?_name field

theorem names_iff {member : Member} {name : List Char} (denoted : Denotes member.1 name)
    {field : Field} :
    Names member field ↔ Field.ofName? (String.ofList name) = some field := by
  rw [Field.ofName?_eq_some_iff]
  constructor
  · intro names
    rw [← Denotes.unique names denoted, String.ofList_toList]
  · intro same
    rwa [Names, same, String.toList_ofList]

theorem Names.unique {member : Member} {field other : Field} (h : Names member field)
    (h' : Names member other) : field = other :=
  Option.some.inj (((names_iff h).mp h).symm.trans ((names_iff h).mp h'))

section
variable {c d e base : Config} {field : Field}

theorem Same.refl (c : Config) (field : Field) : Same c c field := by
  cases field <;> exact Eq.refl _

theorem Same.symm (h : Same c d field) : Same d c field := by
  cases field <;> exact Eq.symm h

theorem Same.trans (h : Same c d field) (h' : Same d e field) : Same c e field := by
  cases field <;> exact Eq.trans h h'

theorem eq_of_same (same : ∀ field, Same c d field) : c = d := by
  cases c
  cases d
  have texts := fun field => same (.text field)
  rw [Config.mk.injEq]
  exact ⟨texts .reference, texts .refType, texts .query, texts .action, texts .negate,
    texts .skipInitial, texts .target, texts .controllable, texts .parameterStart,
    texts .validationMessage, texts .collection, same .separator, same .cascadeLimit⟩

theorem Gives.same {value : JsonText} (h : Gives c field value) (h' : Gives d field value) :
    Same c d field := by
  cases h with
  | text denoted =>
    cases h' with
    | text denoted' => exact String.toList_inj.mp (denoted.unique denoted')
  | separator denoted =>
    cases h' with
    | separator denoted' => exact (List.cons.inj (denoted.unique denoted')).1
  | cascadeLimit value =>
    cases h' with
    | cascadeLimit value' => exact UInt32.toNat_inj.mp (value.symm.trans value')

theorem Gives.of_same {value : JsonText} (h : Gives c field value) (same : Same c d field) :
    Gives d field value := by
  cases h with
  | text denoted => exact .text (same ▸ denoted)
  | separator denoted => exact .separator (same ▸ denoted)
  | cascadeLimit value => exact .cascadeLimit (same ▸ value)

end

section
variable {c d base : Config} {field : Field} {member : Member} {members : List Member}

theorem Overrides.nil (base : Config) : Overrides base base [] where
  given _ mem := absurd mem List.not_mem_nil
  kept field _ := .refl base field

theorem Overrides.unique (h : Overrides c base members) (h' : Overrides d base members) :
    c = d := by
  apply eq_of_same
  intro field
  by_cases names : ∃ member ∈ members, Names member field
  · obtain ⟨member, mem, name⟩ := names
    exact (h.given member mem field name).same (h'.given member mem field name)
  · have unnamed : ∀ member ∈ members, ¬ Names member field :=
      fun member mem name => names ⟨member, mem, name⟩
    exact (h.kept field unnamed).trans (h'.kept field unnamed).symm

theorem Overrides.cons_unknown (unknown : ∀ field, ¬ Names member field)
    (h : Overrides c base members) : Overrides c base (member :: members) where
  given := by
    intro m mem field names
    rcases List.mem_cons.mp mem with rfl | mem
    · exact absurd names (unknown field)
    · exact h.given m mem field names
  kept field unnamed := h.kept field fun m mem => unnamed m (List.mem_cons_of_mem _ mem)

theorem Overrides.cons (names : Names member field) (once : ∀ m ∈ members, ¬ Names m field)
    (gives : Gives d field member.2) (others : ∀ other, other ≠ field → Same d base other)
    (h : Overrides c d members) : Overrides c base (member :: members) where
  given := by
    intro m mem field' names'
    rcases List.mem_cons.mp mem with rfl | mem
    · obtain rfl := names.unique names'
      exact gives.of_same (h.kept field once).symm
    · exact h.given m mem field' names'
  kept := by
    intro other unnamed
    have different : other ≠ field := by
      rintro rfl
      exact unnamed member List.mem_cons_self names
    have rest := h.kept other fun m mem => unnamed m (List.mem_cons_of_mem _ mem)
    exact rest.trans (others other different)

theorem WellTyped.tail (h : WellTyped (member :: members)) : WellTyped members where
  named m mem := h.named m (List.mem_cons_of_mem _ mem)
  typed m mem := h.typed m (List.mem_cons_of_mem _ mem)
  once := h.once.of_cons

end

/-! ## Reading -/

theorem text_setText (c : Config) (field : TextField) (s : String) :
    (c.setText field s).text field = s := by
  cases field <;> rfl

theorem same_setText (c : Config) (field : TextField) (s : String) {other : Field}
    (different : other ≠ .text field) : Same (c.setText field s) c other := by
  cases other with
  | text other =>
    cases field <;> cases other <;> first | exact Eq.refl _ | exact absurd rfl different
  | separator => cases field <;> exact Eq.refl _
  | cascadeLimit => cases field <;> exact Eq.refl _

theorem same_setSeparator (c : Config) (separator : Char) {other : Field}
    (different : other ≠ .separator) : Same { c with separator } c other := by
  cases other with
  | text other => cases other <;> exact Eq.refl _
  | separator => exact absurd rfl different
  | cascadeLimit => exact Eq.refl _

theorem same_setCascadeLimit (c : Config) (cascadeLimit : UInt32) {other : Field}
    (different : other ≠ .cascadeLimit) : Same { c with cascadeLimit } c other := by
  cases other with
  | text other => cases other <;> exact Eq.refl _
  | separator => exact Eq.refl _
  | cascadeLimit => exact absurd rfl different

/-- Reading a value of the type of a field puts it there and changes nothing else. -/
theorem readField?_complete (c : Config) {d : Config} {field : Field} {value : JsonText}
    (h : Gives d field value) :
    ∃ c', c.readField? field value = some c' ∧ Gives c' field value ∧
      ∀ other, other ≠ field → Same c' c other := by
  cases h with
  | @text field parts denoted =>
    refine ⟨c.setText field (d.text field), ?_, ?_, fun other => same_setText c field _⟩
    · simp [readField?, decodeString?, decodeParts?_complete denoted]
    · exact .text (by rwa [text_setText])
  | @separator parts denoted =>
    refine ⟨{ c with separator := d.separator }, ?_, .separator denoted, ?_⟩
    · simp [readField?, decodeParts?_complete denoted]
    · exact fun other => same_setSeparator c d.separator
  | @cascadeLimit digits value =>
    refine ⟨{ c with cascadeLimit := d.cascadeLimit }, ?_, .cascadeLimit value, ?_⟩
    · have small := d.cascadeLimit.toNat_lt
      simp [readField?, wholeNumber?, Decimal.ofDigits_eq, value, small]
    · exact fun other => same_setCascadeLimit c d.cascadeLimit

/-- By induction on the members: those that have been read named the fields that were seen. -/
theorem readMembers?_complete {members : List Member} (typed : WellTyped members) (c : Config)
    (seen : List Field) (fresh : ∀ member ∈ members, ∀ field ∈ seen, ¬ Names member field) :
    ∃ d, c.readMembers? seen members = some d ∧ Overrides d c members := by
  induction members generalizing c seen with
  | nil => exact ⟨c, rfl, .nil c⟩
  | cons member members ih =>
    obtain ⟨key, value⟩ := member
    obtain ⟨name, denoted⟩ := typed.named _ List.mem_cons_self
    have decoded : decodeString? key = some (String.ofList name) := by
      rw [decodeString?, decodeParts?_complete denoted, Option.map_some]
    have fresh' : ∀ member ∈ members, ∀ field ∈ seen, ¬ Names member field :=
      fun m mem => fresh m (List.mem_cons_of_mem _ mem)
    cases found : Field.ofName? (String.ofList name) with
    | none =>
      obtain ⟨d, read, overrides⟩ := ih typed.tail c seen fresh'
      refine ⟨d, ?_, overrides.cons_unknown ?_⟩
      · simp only [readMembers?, decoded, found, read, bind, Option.bind]
      · intro field names
        rw [names_iff denoted, found] at names
        cases names
    | some field =>
      have names : Names (key, value) field := (names_iff denoted).mpr found
      have unseen : field ∉ seen := fun mem => fresh _ List.mem_cons_self field mem names
      obtain ⟨e, gives⟩ := typed.typed _ List.mem_cons_self field names
      obtain ⟨c', readValue, gives', others⟩ := c.readField?_complete gives
      have once : ∀ m ∈ members, ¬ Names m field :=
        fun m mem => List.rel_of_pairwise_cons typed.once mem field names
      have fresh'' : ∀ m ∈ members, ∀ field' ∈ field :: seen, ¬ Names m field' := by
        intro m mem field' mem'
        rcases List.mem_cons.mp mem' with rfl | mem'
        · exact once m mem
        · exact fresh' m mem field' mem'
      obtain ⟨d, read, overrides⟩ := ih typed.tail c' (field :: seen) fresh''
      refine ⟨d, ?_, overrides.cons names once gives' others⟩
      simp [readMembers?, decoded, found, unseen, readValue, read]

theorem ofJsonText?_complete {s : String} {members : List Member}
    (written : Padded s.toList (.object members)) (typed : WellTyped members) :
    ∃ c, ofJsonText? s = some c ∧ Overrides c standard members := by
  obtain ⟨c, read, overrides⟩ :=
    readMembers?_complete typed standard [] fun _ _ _ mem => absurd mem List.not_mem_nil
  refine ⟨c, ?_, overrides⟩
  rw [ofJsonText?, ofChars?_complete written]
  exact read

/-! ## Writing -/

/-- A member for a field as it is written, with what it denotes. -/
structure Written (c : Config) (field : Field) (member : Member) : Prop where
  names : Names member field
  gives : Gives c field member.2
  key : Quoted (Json.stringChars field.name) member.1
  value : JsonGrammar.Value (c.fieldChars field) member.2

theorem exists_written (c : Config) (field : Field) : ∃ member, Written c field member := by
  obtain ⟨key, quoted, names⟩ := quoted_stringChars field.name
  suffices given : ∃ value, Gives c field value ∧ JsonGrammar.Value (c.fieldChars field) value by
    obtain ⟨value, gives, written⟩ := given
    exact ⟨(key, value), names, gives, quoted, written⟩
  cases field with
  | text field =>
    obtain ⟨parts, quoted, denoted⟩ := quoted_stringChars (c.text field)
    exact ⟨.text parts, .text denoted, .text quoted⟩
  | separator =>
    obtain ⟨parts, quoted, denoted⟩ := quoted_stringChars (String.singleton c.separator)
    rw [String.toList_singleton] at denoted
    exact ⟨.text parts, .separator denoted, .text quoted⟩
  | cascadeLimit =>
    exact ⟨_, .cascadeLimit Nat.ofDigitChars_ten_toDigits, .number (number_toDigits _)⟩

section
variable {c : Config} {write : Field → Member}

theorem members_linesChars (written : ∀ field, Written c field (write field)) {fields : List Field}
    (some : fields ≠ []) : Members ('\n' :: c.linesChars fields) (fields.map write) := by
  induction fields with
  | nil => exact absurd rfl some
  | cons field rest ih =>
    have indent : Space ['\n', ' ', ' '] := by decide
    have named : Key (['\n', ' ', ' '] ++ Json.stringChars field.name ++ []) (write field).1 :=
      .mk indent (written field).key space_nil
    have blank : Space [' '] := by decide
    cases rest with
    | nil =>
      have line : Space ['\n'] := by decide
      have padded : Padded ([' '] ++ c.fieldChars field ++ ['\n']) (write field).2 :=
        .mk blank (written field).value line
      simpa [linesChars] using Members.single named padded
    | cons next rest =>
      have padded : Padded ([' '] ++ c.fieldChars field ++ []) (write field).2 :=
        .mk blank (written field).value space_nil
      have others := ih (List.cons_ne_nil _ _)
      simpa [linesChars] using Members.cons named padded others

theorem padded_toJsonText (written : ∀ field, Written c field (write field)) :
    Padded c.toJsonText.toList (.object (Field.all.map write)) := by
  have some : Field.all ≠ [] := by decide
  have members := members_linesChars written some
  simpa [toJsonText] using Padded.mk space_nil (.object members) space_nil

theorem wellTyped_written (written : ∀ field, Written c field (write field)) :
    WellTyped (Field.all.map write) where
  named := by
    intro member mem
    obtain ⟨field, -, rfl⟩ := List.mem_map.mp mem
    exact ⟨_, (written field).names⟩
  typed := by
    intro member mem field names
    obtain ⟨field', -, rfl⟩ := List.mem_map.mp mem
    obtain rfl := (written field').names.unique names
    exact ⟨c, (written field').gives⟩
  once := by
    rw [List.pairwise_map]
    have nodup : Field.all.Nodup := by decide
    refine nodup.imp fun {field later} different other names names' => different ?_
    exact ((written field).names.unique names).trans ((written later).names.unique names').symm

theorem overrides_written (written : ∀ field, Written c field (write field)) (base : Config) :
    Overrides c base (Field.all.map write) where
  given := by
    intro member mem field names
    obtain ⟨field', -, rfl⟩ := List.mem_map.mp mem
    obtain rfl := (written field').names.unique names
    exact (written field').gives
  kept field unnamed :=
    absurd (written field).names (unnamed _ (List.mem_map_of_mem field.mem_all))

end

/-- A configuration written as JSON is read back. An object of any fields with values of their
types, in any order and among any other members, gives the standard configuration overridden in
exactly those fields. -/
theorem json_round_trip :
    (∀ c : Config, ofJsonText? c.toJsonText = some c) ∧
      ∀ (s : String) (members : List Member), Padded s.toList (.object members) →
        WellTyped members → ∃ c, ofJsonText? s = some c ∧ Overrides c standard members := by
  refine ⟨fun c => ?_, fun s members => ofJsonText?_complete⟩
  -- Every field is named, so nothing of the standard configuration is left.
  obtain ⟨write, written⟩ := Classical.skolem.mp c.exists_written
  obtain ⟨d, read, overrides⟩ :=
    ofJsonText?_complete (padded_toJsonText written) (wellTyped_written written)
  rw [read, overrides.unique (overrides_written written standard)]

/-- A member that no field is named after, and a separator written as a unit. -/
theorem json_round_trip_separator :
    ofJsonText? "\x7b \"x\": null, \"separator\": \"\\u007c\" \x7d" =
      some { standard with separator := '|' } := by
  obtain ⟨x, quoted, denoted⟩ := quoted_stringChars "x"
  obtain ⟨key, quoted', denoted'⟩ := quoted_stringChars "separator"
  have bar : Quoted ['"', '\\', 'u', '0', '0', '7', 'c', '"'] [.unit '|'.toNat] := by
    have zero : Hex '0' 0 := by decide
    have seven : Hex '7' 7 := by decide
    have twelve : Hex 'c' 12 := by decide
    exact .mk (.cons (.unit zero zero seven twelve) .nil)
  have gives : Gives { standard with separator := '|' } .separator (.text [.unit '|'.toNat]) :=
    .separator (.unit (by decide) .nil)
  have unknown : ∀ field, ¬ Names (x, .null) field := by
    intro field names
    rw [names_iff denoted] at names
    cases names
  have names : Names (key, .text [.unit '|'.toNat]) .separator := denoted'
  have written : Padded "\x7b \"x\": null, \"separator\": \"\\u007c\" \x7d".toList
      (.object [(x, .null), (key, .text [.unit '|'.toNat])]) := by
    have first : Key ([' '] ++ Json.stringChars "x" ++ []) x :=
      .mk (by decide) quoted space_nil
    have null : Padded ([' '] ++ ['n', 'u', 'l', 'l'] ++ []) .null :=
      .mk (by decide) .null space_nil
    have second : Key ([' '] ++ Json.stringChars "separator" ++ []) key :=
      .mk (by decide) quoted' space_nil
    have text : Padded ([' '] ++ ['"', '\\', 'u', '0', '0', '7', 'c', '"'] ++ [' ']) (.text _) :=
      .mk (by decide) (.text bar) (by decide)
    exact .mk space_nil (.object (.cons first null (.single second text))) space_nil
  have typed : WellTyped [(x, .null), (key, .text [.unit '|'.toNat])] := by
    refine ⟨?_, ?_, ?_⟩
    · rw [List.forall_mem_cons, List.forall_mem_singleton]
      exact ⟨⟨_, denoted⟩, ⟨_, denoted'⟩⟩
    · rw [List.forall_mem_cons, List.forall_mem_singleton]
      refine ⟨fun field absent => absurd absent (unknown field), fun field named => ?_⟩
      obtain rfl := names.unique named
      exact ⟨_, gives⟩
    · rw [List.pairwise_pair]
      exact fun field absent => absurd absent (unknown field)
  obtain ⟨c, read, overrides⟩ := json_round_trip.2 _ _ written typed
  have others : ∀ other, other ≠ .separator →
      Same { standard with separator := '|' } standard other :=
    fun other => same_setSeparator standard '|'
  have expected : Overrides { standard with separator := '|' } standard
      [(x, .null), (key, .text [.unit '|'.toNat])] :=
    .cons_unknown unknown (.cons names (by simp) gives others (.nil _))
  rw [read, overrides.unique expected]

end FormDependencies.Config
