import FormDependencies.Json.Writer
import FormDependencies.Proofs.Json.Grammar

/-!
What is written as JSON belongs to its grammar: a string in quotes denotes the characters that were
escaped, and the digits of a whole number are a number.
-/

namespace FormDependencies.JsonGrammar

open Json (escapeChar hexDigit stringChars)

/-! ## Strings -/

theorem hex_hexDigit {n : Nat} (small : n < 16) : Hex (hexDigit n) n := by
  refine ⟨small, .inl ?_⟩
  decide +revert

theorem part_control {c : Char} (control : c.toNat < 0x20) :
    Part ['\\', 'u', '0', '0', hexDigit (c.toNat / 16), hexDigit (c.toNat % 16)]
      (.unit c.toNat) := by
  have zero : Hex '0' 0 := by decide
  have part := Part.unit zero zero (hex_hexDigit (n := c.toNat / 16) (by omega))
    (hex_hexDigit (n := c.toNat % 16) (by omega))
  have value : ((0 * 16 + 0) * 16 + c.toNat / 16) * 16 + c.toNat % 16 = c.toNat := by omega
  rwa [value] at part

theorem part_letter {letter c d : Char} (same : (c == d) = true) (mem : (letter, d) ∈ escapes) :
    Part ['\\', letter] (.char c) :=
  eq_of_beq same ▸ .escape mem

/-- A character is written as itself, by its letter, or as a unit if it is a control character. -/
theorem part_escapeChar (c : Char) :
    Part (escapeChar c) (.char c) ∨ c.toNat < 0x20 ∧ Part (escapeChar c) (.unit c.toNat) := by
  unfold escapeChar
  split
  · next same => exact .inl (part_letter same (by decide))
  next quote =>
  split
  · next same => exact .inl (part_letter same (by decide))
  next backslash =>
  split
  · next same => exact .inl (part_letter same (by decide))
  split
  · next same => exact .inl (part_letter same (by decide))
  split
  · next same => exact .inl (part_letter same (by decide))
  split
  · next same => exact .inl (part_letter same (by decide))
  split
  · next same => exact .inl (part_letter same (by decide))
  split
  · next control => exact .inr ⟨control, part_control control⟩
  · next printable =>
    exact .inl (.plain (Nat.not_lt.mp printable) (by simpa using quote) (by simpa using backslash))

theorem parts_escaped (cs : List Char) :
    ∃ parts, Parts (cs.flatMap escapeChar) parts ∧ Denotes parts cs := by
  induction cs with
  | nil => exact ⟨[], .nil, .nil⟩
  | cons c cs ih =>
    obtain ⟨parts, written, denoted⟩ := ih
    rw [List.flatMap_cons]
    rcases part_escapeChar c with part | ⟨control, part⟩
    · exact ⟨_, .cons part written, .char denoted⟩
    · exact ⟨_, .cons part written, .unit (by omega) denoted⟩

theorem quoted_stringChars (s : String) :
    ∃ parts, Quoted (stringChars s) parts ∧ Denotes parts s.toList := by
  obtain ⟨parts, written, denoted⟩ := parts_escaped s.toList
  exact ⟨parts, .mk written, denoted⟩

/-! ## Whole numbers -/

theorem toDigits_ne_zero_cons {n : Nat} (positive : 0 < n) (ds : List Char) :
    Nat.toDigits 10 n ≠ '0' :: ds := by
  induction n using Nat.strongRecOn generalizing ds with
  | ind n ih =>
    rw [Nat.toDigits_eq_if (by decide)]
    split
    · intro same
      have zero := Nat.digitChar_eq_zero.mp (List.cons.inj same).1
      omega
    · have some : Nat.toDigits 10 (n / 10) ≠ [] := Nat.toDigits_ne_nil
      obtain ⟨c, cs, same⟩ := List.exists_cons_of_ne_nil some
      have first := ih (n / 10) (by omega) (by omega) cs
      rw [same] at first ⊢
      intro zero
      exact first (congrArg (· :: cs) (List.cons.inj zero).1)

theorem whole_toDigits (n : Nat) : Whole (Nat.toDigits 10 n) := by
  obtain rfl | positive := Nat.eq_zero_or_pos n
  · exact .zero
  · have all := Decimal.digits_toDigits n
    have first := toDigits_ne_zero_cons positive
    have some : Nat.toDigits 10 n ≠ [] := Nat.toDigits_ne_nil
    obtain ⟨c, cs, same⟩ := List.exists_cons_of_ne_nil some
    rw [same] at all first ⊢
    exact .digits (fun zero => first cs (congrArg (· :: cs) zero)) all

theorem number_toDigits (n : Nat) :
    Number (Nat.toDigits 10 n) ⟨false, Nat.toDigits 10 n, none, none⟩ := by
  have magnitude : Magnitude _ false _ := .mk (whole_toDigits n) .absent .absent
  simp only [List.append_nil] at magnitude
  exact .plain magnitude

end FormDependencies.JsonGrammar
