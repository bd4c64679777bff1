import FormDependencies.Declaration
import FormDependencies.Proofs.Text.Split

/-!
The names of the attributes that hold parameters. From such a name the action, the parameter and the
number of declarations before can be told, as long as no parameter seems to end in a number of its
own and no action seems to go on as another.
-/

namespace FormDependencies.Declaration

/-- Parameters are added to pairs of a query and an action, which stay as they are. -/
theorem pairs_withParameters (attributes : List (String × String)) (config : Config)
    (pairings : List (String × String)) (earlier : List String) :
    (withParameters attributes config earlier pairings).map (fun d => (d.query, d.action)) =
      pairings := by
  induction pairings generalizing earlier with
  | nil => rfl
  | cons p rest ih => simp [withParameters, ih]

/-- The attribute that holds a parameter of the declaration of an action that follows `index`
others. -/
def parameterAttribute (config : Config) (action : String) (index : Nat) (name : String) : String :=
  config.parameterStart ++ action ++ "-" ++ name ++
    if index = 0 then "" else "-" ++ toString index

/-- The name of a parameter that does not seem to end in a number of declarations. -/
structure Plain (name : String) : Prop where
  nonempty : name ≠ ""
  unnumbered : ∀ front number, front ≠ "" → name = front ++ "-" ++ number →
    index? number.toList = none

/-- Whether no name of the second action can seem to belong to the first. -/
def Apart (action other : String) : Prop :=
  ¬action.toList ++ ['-'] <+: other.toList

theorem index?_toDigits {n : Nat} (small : n ≤ indexLimit) :
    index? (Nat.toDigits 10 n) = some n := by
  have digits : ∀ c ∈ Nat.toDigits 10 n, c.isDigit = true :=
    fun c mem => Nat.isDigit_of_mem_toDigits (by decide) (by decide) mem
  have value : Decimal.ofDigits (Nat.toDigits 10 n) = n := by
    have same := Nat.ofDigitChars_ten_toDigits (n := n)
    rwa [Nat.ofDigitChars_eq_foldl] at same
  have noSign : ∀ rest, Nat.toDigits 10 n ≠ '+' :: rest := by
    intro rest same
    have digit := digits '+' (by simp [same])
    cases digit
  unfold index?
  split
  · next rest same => exact absurd same (noSign rest)
  · have readable : ((Nat.toDigits 10 n).isEmpty || !(Nat.toDigits 10 n).all Char.isDigit) =
        false := by
      simpa [Nat.toDigits_ne_nil] using digits
    simp [readable, value, small]

def numberText (index : Nat) : List Char :=
  if index = 0 then [] else '-' :: Nat.toDigits 10 index

theorem parameterOf_name {name : String} {index : Nat} (plain : Plain name)
    (small : index ≤ indexLimit) :
    parameterOf (name.toList ++ numberText index) = (name.toList, index) := by
  have nonempty : name.toList ≠ [] := by simpa using plain.nonempty
  by_cases first : index = 0
  · subst first
    rw [numberText, if_pos rfl, List.append_nil, parameterOf]
    split
    · next front number cut =>
      obtain ⟨same, _⟩ := Text.splitLast?_eq_some_iff.mp cut
      split
      · rfl
      · next named =>
        have none := plain.unnumbered (String.ofList front) (String.ofList number)
          (by simpa using named)
          (String.toList_inj.mp (by simpa using same))
        rw [String.toList_ofList] at none
        rw [none]
    · rfl
  · have absent : '-' ∉ Nat.toDigits 10 index := by
      intro mem
      have digit := Nat.isDigit_of_mem_toDigits (by decide) (by decide) mem
      cases digit
    have cut : Text.splitLast? '-' (name.toList ++ '-' :: Nat.toDigits 10 index) =
        some (name.toList, Nat.toDigits 10 index) :=
      Text.splitLast?_eq_some_iff.mpr ⟨rfl, absent⟩
    rw [numberText, if_neg first, parameterOf, cut]
    simp [nonempty, index?_toDigits small]

theorem digits_of_index? {cs : List Char} {n : Nat} (read : index? cs = some n) :
    ∃ sign digits, cs = sign ++ digits ∧ (sign = [] ∨ sign = ['+']) ∧
      ∀ c ∈ digits, c.isDigit = true := by
  have digitsOf {digits : List Char}
      (read : (if digits.isEmpty || !digits.all Char.isDigit then none
        else if Decimal.ofDigits digits ≤ indexLimit then some (Decimal.ofDigits digits)
        else none) = some n) : ∀ c ∈ digits, c.isDigit = true := by
    split at read
    · cases read
    · next readable => simp_all
  unfold index? at read
  split at read
  · next rest => exact ⟨['+'], rest, rfl, .inr rfl, digitsOf read⟩
  · exact ⟨[], cs, rfl, .inl rfl, digitsOf read⟩

theorem not_mem_of_index? {cs : List Char} {n : Nat} (read : index? cs = some n) : '-' ∉ cs := by
  obtain ⟨sign, digits, rfl, isSign, all⟩ := digits_of_index? read
  intro mem
  rcases List.mem_append.mp mem with mem | mem
  · rcases isSign with rfl | rfl <;> simp at mem
  · cases all _ mem

theorem plain_iff {name : String} :
    Plain name ↔ name ≠ "" ∧ parameterOf name.toList = (name.toList, 0) := by
  constructor
  · intro plain
    exact ⟨plain.nonempty, by simpa [numberText] using parameterOf_name plain (Nat.zero_le _)⟩
  · rintro ⟨nonempty, whole⟩
    refine ⟨nonempty, fun front number named same => ?_⟩
    rw [Option.eq_none_iff_forall_ne_some]
    intro n read
    have cut : Text.splitLast? '-' name.toList = some (front.toList, number.toList) :=
      Text.splitLast?_eq_some_iff.mpr ⟨by simp [same], not_mem_of_index? read⟩
    have named' : front.toList.isEmpty = false := by simpa using named
    rw [parameterOf, cut] at whole
    simp only [named', read] at whole
    have shorter := congrArg (·.1.length) whole
    simp [same] at shorter

instance (name : String) : Decidable (Plain name) :=
  decidable_of_iff _ plain_iff.symm

instance (action other : String) : Decidable (Apart action other) :=
  inferInstanceAs (Decidable (¬action.toList ++ ['-'] <+: other.toList))

section
variable {config : Config} {action other name : String} {index index' : Nat}

theorem toList_parameterAttribute :
    (parameterAttribute config action index name).toList =
      config.parameterStart.toList ++
        (action.toList ++ '-' :: (name.toList ++ numberText index)) := by
  by_cases first : index = 0 <;> simp [parameterAttribute, numberText, first]

/-- The parameter is told from the name, for the declaration that it belongs to and no other of the
action. -/
theorem parameterName?_parameterAttribute (plain : Plain name) (small : index ≤ indexLimit) :
    parameterName? (config.parameterStart ++ action ++ "-").toList index'
        (parameterAttribute config action index name) =
      if index = index' then some name else none := by
  have rest : Text.dropStart? (config.parameterStart ++ action ++ "-").toList
      (parameterAttribute config action index name).toList =
        some (name.toList ++ numberText index) := by
    rw [Text.dropStart?_eq_some_iff, toList_parameterAttribute]
    simp
  rw [parameterName?, rest]
  simp [parameterOf_name plain small, plain.nonempty]

theorem parameterName?_other (different : action ≠ other) (apart : Apart action other)
    (apart' : Apart other action) :
    parameterName? (config.parameterStart ++ other ++ "-").toList index'
      (parameterAttribute config action index name) = none := by
  have foreign : Text.dropStart? (config.parameterStart ++ other ++ "-").toList
      (parameterAttribute config action index name).toList = none := by
    rw [Option.eq_none_iff_forall_ne_some]
    intro rest found
    rw [Text.dropStart?_eq_some_iff, toList_parameterAttribute] at found
    have same : action.toList ++ '-' :: (name.toList ++ numberText index) =
        other.toList ++ '-' :: rest := by simpa using found
    rcases List.append_eq_append_iff.mp same with ⟨more, longer, rest⟩ | ⟨more, longer, rest⟩
    · cases more with
      | nil => exact different (String.toList_inj.mp (by simpa using longer.symm))
      | cons c more =>
        obtain rfl : '-' = c := (List.cons.inj rest).1
        exact apart ⟨more, by simpa using longer.symm⟩
    · cases more with
      | nil => exact different (String.toList_inj.mp (by simpa using longer))
      | cons c more =>
        obtain rfl : '-' = c := (List.cons.inj rest).1
        exact apart' ⟨more, by simpa using longer.symm⟩
  rw [parameterName?, foreign]

end

end FormDependencies.Declaration
