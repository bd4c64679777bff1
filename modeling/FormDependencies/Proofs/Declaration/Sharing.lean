import FormDependencies.Proofs.Declaration.Naming
import FormDependencies.Proofs.Document.Attributes

/-!
Attributes that give parameters to more than one declaration. The name of an attribute does not say
where the name of the action ends in it, so that an action whose name goes on from another one
shares its attributes with that.
-/

namespace FormDependencies

namespace Declaration

section
variable {config : Config} {ds : List Declaration} {i j : Nat}

def skipped (ds : List Declaration) (i : Nat) (action : String) : Nat :=
  ((ds.take i).map (·.action)).count action

/-- The parameter that an attribute of this name gives to the declaration at a position. -/
def given? (config : Config) (ds : List Declaration) (i : Nat) (name : String) : Option String :=
  ds[i]?.bind fun d =>
    parameterName? (config.parameterStart ++ d.action ++ "-").toList (skipped ds i d.action) name

/-- Each declaration has the parameters that attributes give to its position. -/
theorem parameters_withParameters {attributes : List (String × String)} {earlier : List String}
    {pairs : List (String × String)} {d : Declaration}
    (at' : (withParameters attributes config earlier pairs)[i]? = some d) :
    d.parameters = parametersOf attributes config d.action (earlier.count d.action +
      skipped (withParameters attributes config earlier pairs) i d.action) := by
  induction pairs generalizing earlier i with
  | nil => simp [withParameters] at at'
  | cons pair rest ih =>
    obtain ⟨query, action⟩ := pair
    cases i with
    | zero =>
      obtain rfl := Option.some.inj at'
      rfl
    | succ i =>
      have later : (withParameters attributes config (action :: earlier) rest)[i]? = some d := at'
      rw [ih later]
      congr 1
      simp only [skipped, withParameters, List.take_succ_cons, List.map_cons, List.count_cons]
      omega

/-- Of two declarations of one action, the one after the other has more of it before. -/
theorem skipped_lt {d d' : Declaration} (at' : ds[i]? = some d) (before : i < j)
    (same : d.action = d'.action) : skipped ds i d.action < skipped ds j d'.action := by
  have further : ds.take (i + 1) = ds.take i ++ [d] := by
    rw [List.take_add_one, at', Option.toList_some]
  have among : ((ds.take (i + 1)).map (·.action)).count d.action ≤ skipped ds j d.action :=
    ((List.take_sublist_take_left before).map _).count_le _
  rw [further, List.map_append, List.count_append, List.map_singleton,
    List.count_singleton_self] at among
  exact same ▸ among

/-- The parameter is what follows the start, the action and a hyphen, up to a number. -/
theorem parameterName?_eq_some {action name parameter : String} {index : Nat} :
    parameterName? (config.parameterStart ++ action ++ "-").toList index name = some parameter ↔
      ∃ rest, name.toList = config.parameterStart.toList ++ (action.toList ++ '-' :: rest) ∧
        parameterOf rest = (parameter.toList, index) ∧ parameter ≠ "" := by
  unfold parameterName?
  constructor
  · intro read
    split at read
    · cases read
    · next rest found =>
      simp only [Option.ite_none_right_eq_some, Bool.and_eq_true, decide_eq_true_eq,
        Option.some.injEq] at read
      obtain ⟨⟨own, named⟩, rfl⟩ := read
      refine ⟨rest, by simpa using Text.dropStart?_eq_some_iff.mp found, ?_, by simpa using named⟩
      rw [String.toList_ofList, ← own]
  · rintro ⟨rest, same, read, named⟩
    have found : Text.dropStart? (config.parameterStart ++ action ++ "-").toList name.toList =
        some rest := Text.dropStart?_eq_some_iff.mpr (by simp [same])
    simp only [found, read]
    simp [named]

theorem given?_eq_some {name parameter : String} :
    given? config ds i name = some parameter ↔ ∃ d rest, ds[i]? = some d ∧
      name.toList = config.parameterStart.toList ++ (d.action.toList ++ '-' :: rest) ∧
      parameterOf rest = (parameter.toList, skipped ds i d.action) ∧ parameter ≠ "" := by
  unfold given?
  simp only [Option.bind_eq_some_iff, parameterName?_eq_some]
  constructor
  · rintro ⟨d, at', rest, found⟩
    exact ⟨d, rest, at', found⟩
  · rintro ⟨d, rest, at', found⟩
    exact ⟨d, at', rest, found⟩

/-! ## Names that go on from others -/

/-- Whether the action of the second declaration has the name of that of the first with a hyphen and
more behind it, so that an attribute can look as if it belonged to both. Either both follow equally
many declarations of their actions, or the second follows none. -/
def Overlap (ds : List Declaration) (i j : Nat) : Prop :=
  ∃ d d' more, ds[i]? = some d ∧ ds[j]? = some d' ∧ d'.action = d.action ++ "-" ++ more ∧
    skipped ds i d.action ≤ indexLimit ∧
    (skipped ds j d'.action = skipped ds i d.action ∨ skipped ds j d'.action = 0)

theorem index?_le {cs : List Char} {n : Nat} (read : index? cs = some n) : n ≤ indexLimit := by
  unfold index? at read
  dsimp only at read
  simp only [Option.ite_none_left_eq_some, Option.ite_none_right_eq_some, Option.some.injEq] at read
  obtain ⟨_, small, rfl⟩ := read
  exact small

/-- A number at the end counts behind a non-empty name only. -/
theorem parameterOf_cases (rest : List Char) :
    parameterOf rest = (rest, 0) ∨
    ∃ name digits n, Text.splitLast? '-' rest = some (name, digits) ∧ name ≠ [] ∧
      index? digits = some n ∧ parameterOf rest = (name, n) := by
  unfold parameterOf
  split
  · next name digits cut =>
    split
    · exact .inl rfl
    · next named =>
      cases read : index? digits with
      | none => exact .inl rfl
      | some n => exact .inr ⟨name, digits, n, cut, by simpa using named, read, rfl⟩
  · exact .inl rfl

theorem parameterOf_numbered {rest name digits : List Char} {n : Nat}
    (cut : Text.splitLast? '-' rest = some (name, digits)) (named : name ≠ [])
    (read : index? digits = some n) : parameterOf rest = (name, n) := by
  simp [parameterOf, cut, named, read]

theorem parameterOf_whole {rest name digits : List Char}
    (cut : Text.splitLast? '-' rest = some (name, digits))
    (unnumbered : name = [] ∨ index? digits = none) : parameterOf rest = (rest, 0) := by
  rcases unnumbered with unnamed | unread
  · simp [parameterOf, cut, unnamed]
  · simp [parameterOf, cut, unread]

theorem parameterOf_le (rest : List Char) : (parameterOf rest).2 ≤ indexLimit := by
  rcases parameterOf_cases rest with whole | ⟨name, digits, n, _, _, read, same⟩
  · rw [whole]
    exact Nat.zero_le _
  · rw [same]
    exact index?_le read

/-- What is put in front of a name does not change the number that is read, unless none was. -/
theorem parameterOf_longer (front rest : List Char) :
    (parameterOf rest).2 = (parameterOf (front ++ '-' :: rest)).2 ∨ (parameterOf rest).2 = 0 := by
  rcases parameterOf_cases rest with whole | ⟨name, digits, n, cut, _, read, same⟩
  · exact .inr (congrArg (·.2) whole)
  · obtain ⟨rfl, absent⟩ := Text.splitLast?_eq_some_iff.mp cut
    have longer : Text.splitLast? '-' (front ++ '-' :: (name ++ '-' :: digits)) =
        some (front ++ '-' :: name, digits) :=
      Text.splitLast?_eq_some_iff.mpr ⟨by simp, absent⟩
    rw [same, parameterOf_numbered longer (by simp) read]
    exact .inl rfl

theorem overlap_of_read {parameter parameter' : String} {d d' : Declaration}
    {rest rest' : List Char} (at' : ds[i]? = some d) (there : ds[j]? = some d')
    (read : parameterOf rest = (parameter.toList, skipped ds i d.action))
    (read' : parameterOf rest' = (parameter'.toList, skipped ds j d'.action))
    {more : List Char} (longer : d'.action.toList = d.action.toList ++ '-' :: more)
    (same : rest = more ++ '-' :: rest') : Overlap ds i j := by
  refine ⟨d, d', String.ofList more, at', there, ?_, ?_, ?_⟩
  · exact String.toList_inj.mp (by simpa using longer)
  · have bound := parameterOf_le rest
    rwa [read] at bound
  · have number := parameterOf_longer more rest'
    rwa [← same, read, read'] at number

theorem overlap_of_shared {name : String} (apart : i ≠ j)
    (own : (given? config ds i name).isSome) (other : (given? config ds j name).isSome) :
    Overlap ds i j ∨ Overlap ds j i := by
  obtain ⟨parameter, own⟩ := Option.isSome_iff_exists.mp own
  obtain ⟨parameter', other⟩ := Option.isSome_iff_exists.mp other
  obtain ⟨d, rest, at', spelt, read, _⟩ := given?_eq_some.mp own
  obtain ⟨d', rest', there, spelt', read', _⟩ := given?_eq_some.mp other
  have same : d.action.toList ++ '-' :: rest = d'.action.toList ++ '-' :: rest' := by
    simpa [spelt] using spelt'
  have equal (actions : d.action.toList = d'.action.toList) : False := by
    have action : d.action = d'.action := String.toList_inj.mp actions
    rw [actions, List.append_cancel_left_eq] at same
    obtain rfl : rest = rest' := (List.cons.inj same).2
    have numbers : skipped ds i d.action = skipped ds j d'.action :=
      congrArg (·.2) (read.symm.trans read')
    rcases Nat.lt_or_gt_of_ne apart with before | after
    · exact Nat.ne_of_lt (skipped_lt at' before action) numbers
    · exact Nat.ne_of_gt (skipped_lt there after action.symm) numbers
  rcases List.append_eq_append_iff.mp same with ⟨more, longer, rests⟩ | ⟨more, longer, rests⟩
  · cases more with
    | nil => exact (equal (by simpa using longer.symm)).elim
    | cons c more =>
      obtain ⟨rfl, tails⟩ := List.cons.inj rests
      exact .inl (overlap_of_read at' there read read' longer tails)
  · cases more with
    | nil => exact (equal (by simpa using longer)).elim
    | cons c more =>
      obtain ⟨rfl, tails⟩ := List.cons.inj rests
      exact .inr (overlap_of_read there at' read' read longer tails)

theorem not_mem_toDigits (n : Nat) : '-' ∉ Nat.toDigits 10 n := by
  intro mem
  cases Nat.isDigit_of_mem_toDigits (by decide) (by decide) mem

theorem given?_parameterAttribute {d : Declaration} {name : String} (at' : ds[i]? = some d)
    (plain : Plain name) (small : skipped ds i d.action ≤ indexLimit) :
    given? config ds i (parameterAttribute config d.action (skipped ds i d.action) name) =
      some name := by
  rw [given?, at', Option.bind_some, parameterName?_parameterAttribute plain small, if_pos rfl]

theorem plain_longer (more : String) : Plain (more ++ "-x") := by
  have cut : Text.splitLast? '-' (more ++ "-x").toList = some (more.toList, ['x']) :=
    Text.splitLast?_eq_some_iff.mpr ⟨by simp, by decide⟩
  exact plain_iff.mpr ⟨fun empty => by simpa using congrArg String.toList empty,
    parameterOf_whole cut (.inr rfl)⟩

theorem shared_of_overlap (h : Overlap ds i j) :
    ∃ name, (given? config ds i name).isSome ∧ (given? config ds j name).isSome := by
  suffices ∃ name parameter parameter', given? config ds i name = some parameter ∧
      given? config ds j name = some parameter' by
    obtain ⟨name, _, _, own, other⟩ := this
    exact ⟨name, Option.isSome_of_eq_some own, Option.isSome_of_eq_some other⟩
  obtain ⟨d, d', more, at', there, longer, small, numbers | first⟩ := h
  · -- a name that can be taken for a parameter of either
    have spelt : parameterAttribute config d'.action (skipped ds j d'.action) "x" =
        parameterAttribute config d.action (skipped ds i d.action) (more ++ "-x") := by
      rw [numbers, longer]
      simp [parameterAttribute, String.append_assoc]
    refine ⟨parameterAttribute config d'.action (skipped ds j d'.action) "x", more ++ "-x", "x",
      ?_, given?_parameterAttribute there (by decide) (numbers ▸ small)⟩
    rw [spelt]
    exact given?_parameterAttribute at' (plain_longer more) small
  · -- a number behind two hyphens counts for the shorter action only
    let digits := Nat.toDigits 10 (skipped ds i d.action)
    have absent : '-' ∉ digits := not_mem_toDigits _
    obtain ⟨name, spelt⟩ : ∃ name : String, name.toList =
        config.parameterStart.toList ++ (d'.action.toList ++ '-' :: '-' :: digits) :=
      ⟨String.ofList _, String.toList_ofList⟩
    refine ⟨name, String.ofList (more.toList ++ ['-']), String.ofList ('-' :: digits), ?_, ?_⟩
    · have cut : Text.splitLast? '-' (more.toList ++ '-' :: '-' :: digits) =
          some (more.toList ++ ['-'], digits) :=
        Text.splitLast?_eq_some_iff.mpr ⟨by simp, absent⟩
      have read := parameterOf_numbered cut (by simp) (index?_toDigits small)
      refine given?_eq_some.mpr ⟨d, _, at', ?_, by rw [read, String.toList_ofList], ?_⟩
      · simp [spelt, longer]
      · exact fun empty => by simpa using congrArg String.toList empty
    · have cut : Text.splitLast? '-' ('-' :: digits) = some ([], digits) :=
        Text.splitLast?_eq_some_iff.mpr ⟨rfl, absent⟩
      have read := parameterOf_whole cut (.inl rfl)
      refine given?_eq_some.mpr ⟨d', _, there, spelt, ?_, ?_⟩
      · rw [read, first, String.toList_ofList]
      · exact fun empty => by simpa using congrArg String.toList empty

end

end Declaration

namespace Document

open Declaration

/-- An attribute gives a parameter to at most one declaration of an action, and to declarations of
two actions only if the name of the one, a hyphen and more make the name of the other. When they
overlap in that way, some attribute belongs to both. -/
theorem declarations_shared_iff (doc : Document) (el : ElementId) (config : Config) :
    let ds := doc.declarations el config
    (∀ i d, ds[i]? = some d → d.parameters = KeyedList.ofList ((doc.attributes el).filterMap
      fun entry => (given? config ds i entry.1).map fun parameter => (parameter, entry.2))) ∧
    (∀ i j, i ≠ j →
      ((∃ name, (given? config ds i name).isSome ∧ (given? config ds j name).isSome) ↔
        Overlap ds i j ∨ Overlap ds j i)) ∧
    ((∀ d ∈ ds, ∀ d' ∈ ds, Apart d.action d'.action) → ∀ name i j,
      (given? config ds i name).isSome → (given? config ds j name).isSome → i = j) := by
  intro ds
  refine ⟨fun i d at' => ?_, fun i j apart => ⟨?_, ?_⟩, fun apart name i j own other => ?_⟩
  · have parameters : d.parameters = parametersOf (doc.attributes el) config d.action
        (([] : List String).count d.action + skipped ds i d.action) := parameters_withParameters at'
    rw [parameters, List.count_nil, Nat.zero_add, parametersOf]
    simp only [given?, at', Option.bind_some]
  · rintro ⟨name, own, other⟩
    exact overlap_of_shared apart own other
  · rintro (h | h)
    · exact shared_of_overlap h
    · obtain ⟨name, other, own⟩ := shared_of_overlap h
      exact ⟨name, own, other⟩
  · have clear {i j : Nat} : ¬Overlap ds i j := by
      rintro ⟨d, d', more, at', there, longer, _⟩
      refine apart d (List.mem_of_getElem? at') d' (List.mem_of_getElem? there) ?_
      exact ⟨more.toList, by simp [longer]⟩
    by_contra different
    exact (overlap_of_shared different own other).elim clear clear

def pairWith (actions name : String) : Document :=
  Document.new.setAttributes .root [(Config.standard.queryAttribute, "@a;@b"),
    (Config.standard.actionAttribute, actions), (name, "7")]

/-- The attribute is taken for both when one action goes on from the other, and for the right one
when the action is the same. -/
theorem declarations_shared_iff_setIfBlank :
    let ds := (pairWith "set;set-if-blank" "data-dependson-set-if-blank-x").declarations .root
      .standard
    let ds' := (pairWith "set;set" "data-dependson-set-x-1").declarations .root .standard
    ds = [⟨"@a", "set", [("if-blank-x", "7")]⟩, ⟨"@b", "set-if-blank", [("x", "7")]⟩] ∧
    (∃ i j, i ≠ j ∧ Overlap ds i j) ∧
    ds' = [⟨"@a", "set", []⟩, ⟨"@b", "set", [("x", "7")]⟩] ∧
    ∀ i, (given? .standard ds' i "data-dependson-set-x-1").isSome → i = 1 := by
  intro ds ds'
  have read : ds =
      [⟨"@a", "set", [("if-blank-x", "7")]⟩, ⟨"@b", "set-if-blank", [("x", "7")]⟩] := by
    decide +kernel
  have read' : ds' = [⟨"@a", "set", []⟩, ⟨"@b", "set", [("x", "7")]⟩] := by
    decide +kernel
  obtain ⟨_, shared, _⟩ := declarations_shared_iff
    (pairWith "set;set-if-blank" "data-dependson-set-if-blank-x") .root .standard
  obtain ⟨_, _, single⟩ := declarations_shared_iff
    (pairWith "set;set" "data-dependson-set-x-1") .root .standard
  have both : (given? .standard ds 0 "data-dependson-set-if-blank-x").isSome ∧
      (given? .standard ds 1 "data-dependson-set-if-blank-x").isSome := by
    rw [read]
    decide +kernel
  have own : (given? .standard ds' 1 "data-dependson-set-x-1").isSome := by
    rw [read']
    decide +kernel
  have apart : ∀ d ∈ ds', ∀ d' ∈ ds', Apart d.action d'.action := by
    rw [read']
    decide +kernel
  refine ⟨read, ?_, read', fun i given => single apart _ i 1 given own⟩
  rcases (shared 0 1 (by decide)).mp ⟨_, both⟩ with overlap | overlap
  · exact ⟨0, 1, by decide, overlap⟩
  · exact ⟨1, 0, by decide, overlap⟩

end Document

end FormDependencies
