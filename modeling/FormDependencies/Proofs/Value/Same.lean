import FormDependencies.Value.Basic

/-!
Equality of values: every value agrees with itself, those that are not a number included, and a list
agrees only with lists of its length.
-/

namespace FormDependencies

theorem Binary64.same_self (x : Binary64) : x.same x = true := by
  unfold Binary64.same
  cases x.isNaN <;> simp

namespace Value

mutual

theorem same_self (value : Value) : same value value = true := by
  cases value with
  | undefined => rfl
  | null => rfl
  | bool b => simp [same]
  | number n => exact Binary64.same_self n
  | text s => simp [same]
  | list items => exact sameItems_self items
  | map entries => exact sameEntries_self entries

theorem sameItems_self (items : List Value) : sameItems items items = true := by
  cases items with
  | nil => rfl
  | cons first rest => simp [sameItems, same_self first, sameItems_self rest]

theorem sameEntries_self (entries : List (String × Value)) :
    sameEntries entries entries = true := by
  cases entries with
  | nil => rfl
  | cons first rest =>
    obtain ⟨key, value⟩ := first
    simp [sameEntries, same_self value, sameEntries_self rest]

end

instance : ReflBEq Value where
  rfl := same_self _

theorem length_of_sameItems {items others : List Value} (h : sameItems items others = true) :
    items.length = others.length := by
  induction items generalizing others with
  | nil =>
    cases others with
    | nil => rfl
    | cons _ _ => cases h
  | cons first rest ih =>
    cases others with
    | nil => cases h
    | cons other others =>
      simp only [sameItems, Bool.and_eq_true] at h
      simp [ih h.2]

/-- What agrees with a list is a list of its length. -/
theorem eq_list_of_beq {items : List Value} {value : Value}
    (h : (value == .list items) = true) :
    ∃ others, value = .list others ∧ others.length = items.length := by
  cases value with
  | list others => exact ⟨others, rfl, length_of_sameItems h⟩
  | _ => cases h

theorem eq_undefined_of_beq {value : Value} (h : (value == .undefined) = true) :
    value = .undefined := by
  cases value with
  | undefined => rfl
  | _ => cases h

end Value

end FormDependencies
