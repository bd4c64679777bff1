import Mathlib.Data.List.Basic
import FormDependencies.Text.Split

/-!
Pieces that a separator joins are the pieces that it cuts, when it stands in none of them.
-/

namespace FormDependencies.Text

variable {separator : Char}

theorem splitChars_of_not_mem {piece : List Char} (absent : separator ∉ piece) :
    splitChars separator piece = [piece] := by
  induction piece with
  | nil => rfl
  | cons c piece ih =>
    obtain ⟨other, absent⟩ := not_or.mp (List.mem_cons.not.mp absent)
    rw [splitChars, if_neg (Ne.symm other), ih absent]

theorem splitChars_append {piece : List Char} (absent : separator ∉ piece) (rest : List Char) :
    splitChars separator (piece ++ separator :: rest) = piece :: splitChars separator rest := by
  induction piece with
  | nil => simp [splitChars]
  | cons c piece ih =>
    obtain ⟨other, absent⟩ := not_or.mp (List.mem_cons.not.mp absent)
    rw [List.cons_append, splitChars, if_neg (Ne.symm other), ih absent]

theorem splitChars_intercalate {pieces : List (List Char)} (some : pieces ≠ [])
    (absent : ∀ piece ∈ pieces, separator ∉ piece) :
    splitChars separator (List.intercalate [separator] pieces) = pieces := by
  induction pieces with
  | nil => exact absurd rfl some
  | cons piece rest ih =>
    obtain ⟨first, others⟩ := List.forall_mem_cons.mp absent
    cases rest with
    | nil => rw [List.intercalate_singleton, splitChars_of_not_mem first]
    | cons next rest =>
      rw [List.intercalate_cons_cons, List.append_assoc, List.singleton_append,
        splitChars_append first, ih (by simp) others]

theorem splitLast?_eq_none_iff {cs : List Char} :
    splitLast? separator cs = none ↔ separator ∉ cs := by
  induction cs with
  | nil => simp [splitLast?]
  | cons c cs ih =>
    rw [splitLast?]
    split
    · next before after found =>
      have mem : separator ∈ cs := by
        by_contra absent
        rw [ih.mpr absent] at found
        cases found
      simp [mem]
    · next none =>
      simp [ih.mp none, eq_comm]

theorem splitLast?_eq_some_iff {cs before after : List Char} :
    splitLast? separator cs = some (before, after) ↔
      cs = before ++ separator :: after ∧ separator ∉ after := by
  constructor
  · intro found
    induction cs generalizing before with
    | nil => cases found
    | cons c cs ih =>
      rw [splitLast?] at found
      split at found
      · next front back shorter =>
        cases found
        obtain ⟨rfl, absent⟩ := ih shorter
        exact ⟨rfl, absent⟩
      · next none =>
        split at found
        · next same =>
          cases found
          exact ⟨by rw [same, List.nil_append], splitLast?_eq_none_iff.mp none⟩
        · cases found
  · rintro ⟨rfl, absent⟩
    induction before with
    | nil => simp [splitLast?, splitLast?_eq_none_iff.mpr absent]
    | cons c before ih => simp [splitLast?, ih]

end FormDependencies.Text
