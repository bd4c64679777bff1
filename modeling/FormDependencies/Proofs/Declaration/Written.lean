import FormDependencies.Proofs.Declaration.Naming
import FormDependencies.Proofs.Document.Attributes
import FormDependencies.Proofs.Text.Runs

/-!
Writing declarations as the attributes of an element. The queries and the actions come back from
the two lists in pairs.
-/

namespace FormDependencies

namespace ActionName

def IsName (text : String) : Prop :=
  text ≠ "" ∧ ∀ c ∈ text.toList, isNameChar c = true

instance (text : String) : Decidable (IsName text) :=
  decidable_of_iff (text ≠ "" ∧ text.toList.all isNameChar = true) (by rw [IsName, List.all_eq_true])

theorem isUpper_eq_false {c : Char} (h : isNameChar c = true) : c.isUpper = false := by
  simp only [isNameChar, Bool.or_eq_true, beq_iff_eq, Text.isLower_iff, Text.isDigit_iff] at h
  rw [← Bool.not_eq_true, Text.isUpper_iff]
  rcases h with letter | rfl
  · omega
  · decide

theorem isBlank_eq_false {c : Char} (h : isNameChar c = true) : Text.isBlank c = false := by
  simp only [isNameChar, Bool.or_eq_true, beq_iff_eq, Text.isLower_iff, Text.isDigit_iff] at h
  rcases h with letter | rfl
  · exact Text.isBlank_eq_false (by omega) (by omega)
  · decide

theorem lowerCase_eq_self {c : Char} (h : isNameChar c = true) : lowerCase c = c := by
  have noKelvin : (c == '\u212a') = false := by
    rw [beq_eq_false_iff_ne]
    rintro rfl
    cases h
  have noDotted : (c == '\u0130') = false := by
    rw [beq_eq_false_iff_ne]
    rintro rfl
    cases h
  rw [lowerCase, noKelvin, noDotted]
  exact Text.toLower_eq_self (isUpper_eq_false h)

theorem sanitize_eq_self {name : String} (h : ∀ c ∈ name.toList, isNameChar c = true) :
    sanitize name = name := by
  have same : name.toList.map lowerCase = name.toList := by
    simpa using List.map_congr_left (g := id) fun c mem => lowerCase_eq_self (h c mem)
  rw [sanitize, sanitizeChars, same, List.filter_eq_self.mpr h, String.ofList_toList]

end ActionName

namespace Declaration

variable {config : Config}

/-! ## Queries and actions -/

def joined (separator : Char) (parts : List String) : String :=
  (String.singleton separator).intercalate parts

theorem parts_joined {texts : List String} (some : texts ≠ [])
    (clear : ∀ text ∈ texts, Text.trim text = text ∧ config.separator ∉ text.toList) :
    parts config (joined config.separator texts) = texts := by
  have cut : Text.splitChars config.separator (joined config.separator texts).toList =
      texts.map String.toList := by
    rw [joined, String.toList_intercalate, String.toList_singleton]
    exact Text.splitChars_intercalate (by simpa using some)
      (List.forall_mem_map.mpr fun text mem => (clear text mem).2)
  rw [parts, cut, List.map_map]
  exact (List.map_congr_left fun text mem => (clear text mem).1).trans (List.map_id texts)

theorem trim_action {action : String} (h : ActionName.IsName action) :
    Text.trim action = action := by
  have solid : Text.Solid action.toList := Text.solid_of_forall (by simpa using h.1)
    fun c mem => ActionName.isBlank_eq_false (h.2 c mem)
  rw [Text.trim, solid.trimChars_eq, String.ofList_toList]

theorem actionName_eq_self {action : String} (h : ActionName.IsName action) :
    actionName action = action := by
  simp [actionName, ActionName.sanitize_eq_self h.2, h.1]

/-! ## What can be written -/

/-- Declarations that can be told from their attributes. Like the entries of any list in memory they
can be counted in a machine word. -/
structure Writable (separator : Char) (ds : List Declaration) : Prop where
  query : ∀ d ∈ ds, d.query ≠ "" ∧ Text.trim d.query = d.query ∧ separator ∉ d.query.toList
  action : ∀ d ∈ ds, ActionName.IsName d.action ∧ separator ∉ d.action.toList
  apart : ∀ d ∈ ds, ∀ d' ∈ ds, Apart d.action d'.action
  parameters : ∀ d ∈ ds, d.parameters.Ascending ∧ ∀ entry ∈ d.parameters, Plain entry.1
  length : ds.length ≤ indexLimit

theorem writable_iff {separator : Char} {ds : List Declaration} :
    Writable separator ds ↔
      (∀ d ∈ ds, d.query ≠ "" ∧ Text.trim d.query = d.query ∧ separator ∉ d.query.toList) ∧
      (∀ d ∈ ds, ActionName.IsName d.action ∧ separator ∉ d.action.toList) ∧
      (∀ d ∈ ds, ∀ d' ∈ ds, Apart d.action d'.action) ∧
      (∀ d ∈ ds, d.parameters.Ascending ∧ ∀ entry ∈ d.parameters, Plain entry.1) ∧
      ds.length ≤ indexLimit :=
  ⟨fun ⟨query, action, apart, parameters, length⟩ => ⟨query, action, apart, parameters, length⟩,
    fun ⟨query, action, apart, parameters, length⟩ => ⟨query, action, apart, parameters, length⟩⟩

instance (entries : KeyedList String) : Decidable entries.Ascending :=
  inferInstanceAs (Decidable (entries.Pairwise fun a b => a.1 < b.1))

instance (separator : Char) (ds : List Declaration) : Decidable (Writable separator ds) :=
  decidable_of_iff _ writable_iff.symm

def ownAttributes (config : Config) (d : Declaration) (index : Nat) : List (String × String) :=
  d.parameters.map fun entry => (parameterAttribute config d.action index entry.1, entry.2)

def parameterAttributes (config : Config) : List String → List Declaration → List (String × String)
  | _, [] => []
  | earlier, d :: rest =>
    ownAttributes config d (earlier.count d.action) ++
      parameterAttributes config (d.action :: earlier) rest

def written (config : Config) (ds : List Declaration) : List (String × String) :=
  (config.queryAttribute, joined config.separator (ds.map (·.query))) ::
    (config.actionAttribute, joined config.separator (ds.map (·.action))) ::
      parameterAttributes config [] ds

theorem pairings_map {ds : List Declaration} {separator : Char} (h : Writable separator ds) :
    pairings (ds.map (·.query)) (ds.map (·.action)) = ds.map fun d => (d.query, d.action) := by
  have kept : (ds.map (·.query)).zipIdx.filter (fun entry => !entry.1.isEmpty) =
      (ds.map (·.query)).zipIdx := by
    refine List.filter_eq_self.mpr fun entry mem => ?_
    obtain ⟨d, there, same⟩ := List.mem_map.mp (List.fst_mem_of_mem_zipIdx mem)
    simpa [← same] using (h.query d there).1
  rw [pairings, kept]
  refine List.ext_getElem (by simp) fun i small small' => ?_
  have bound : i < ds.length := by simpa using small'
  have action := h.action ds[i] (List.getElem_mem bound)
  simp [bound, actionName_eq_self action.1]

/-- The pairs that the two lists are read as. -/
theorem pairings_parts {ds : List Declaration} (h : Writable config.separator ds) :
    pairings (parts config (joined config.separator (ds.map (·.query))))
        (parts config (joined config.separator (ds.map (·.action)))) =
      ds.map fun d => (d.query, d.action) := by
  by_cases none : ds = []
  · subst none
    rfl
  · have queries : ∀ text ∈ ds.map (·.query),
        Text.trim text = text ∧ config.separator ∉ text.toList := by
      intro text mem
      obtain ⟨d, there, rfl⟩ := List.mem_map.mp mem
      exact (h.query d there).2
    have actions : ∀ text ∈ ds.map (·.action),
        Text.trim text = text ∧ config.separator ∉ text.toList := by
      intro text mem
      obtain ⟨d, there, rfl⟩ := List.mem_map.mp mem
      obtain ⟨isName, free⟩ := h.action d there
      exact ⟨trim_action isName, free⟩
    rw [parts_joined (by simpa using none) queries, parts_joined (by simpa using none) actions,
      pairings_map h]

end Declaration

end FormDependencies
