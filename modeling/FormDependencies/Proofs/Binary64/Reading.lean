import FormDependencies.Binary64.Notation
import FormDependencies.Proofs.Binary64.Exact
import FormDependencies.Proofs.Text.Runs

/-!
The text of a number reads back as the number. Positional notation writes a decimal with neither a
power of ten nor a rounding, so what is read is the decimal that was written, and that of a number
is rounded to the number itself.
-/

namespace FormDependencies

open Text (Stops stops_cons stops_nil)

namespace Decimal

/-! ## Digits -/

theorem ofDigits_eq (cs : List Char) : ofDigits cs = Nat.ofDigitChars 10 cs 0 :=
  Nat.ofDigitChars_eq_foldl.symm

theorem ofDigits_toDigits (n : Nat) : ofDigits (Nat.toDigits 10 n) = n := by
  rw [ofDigits_eq, Nat.ofDigitChars_ten_toDigits]

theorem ofDigits_zeros_append (count : Nat) (cs : List Char) :
    ofDigits (List.replicate count '0' ++ cs) = ofDigits cs := by
  simp only [ofDigits_eq, Nat.ofDigitChars_append, Nat.ofDigitChars_replicate_zero, Nat.mul_zero]

theorem ofDigits_append_zeros (cs : List Char) (count : Nat) :
    ofDigits (cs ++ List.replicate count '0') = ofDigits cs * Nat.pow 10 count := by
  simp only [ofDigits_eq, Nat.ofDigitChars_append, Nat.ofDigitChars_replicate_zero]
  exact Nat.mul_comm _ _

def Digits (cs : List Char) : Prop :=
  ∀ c ∈ cs, c.isDigit = true

theorem digits_nil : Digits [] := fun _ mem => absurd mem List.not_mem_nil

theorem digits_zeros (count : Nat) : Digits (List.replicate count '0') := by
  intro c mem
  rw [(List.mem_replicate.mp mem).2]
  rfl

theorem digits_toDigits (n : Nat) : Digits (Nat.toDigits 10 n) :=
  fun _ mem => Nat.isDigit_of_mem_toDigits (by decide) (by decide) mem

theorem Digits.append {cs ds : List Char} (h : Digits cs) (h' : Digits ds) : Digits (cs ++ ds) :=
  fun c mem => (List.mem_append.mp mem).elim (h c) (h' c)

/-! ## Positional notation -/

/-- What the digits before and after the point are of a decimal. -/
structure Placed (d : Decimal) (whole fraction : List Char) : Prop where
  whole_digits : Digits whole
  whole_nonempty : whole ≠ []
  fraction_digits : Digits fraction
  /-- A power of ten that is not negative is written out in zeros. -/
  value : d.code = Decimal.code ⟨ofDigits (whole ++ fraction), -(fraction.length : Int)⟩

theorem placed_positional (d : Decimal) : Placed d d.positional.1 d.positional.2 := by
  have all : Digits d.digitChars := digits_toDigits d.digits
  have some : d.digitChars ≠ [] := Nat.toDigits_ne_nil
  have read : ofDigits d.digitChars = d.digits := ofDigits_toDigits d.digits
  obtain ⟨digits, exponent⟩ := d
  cases exponent with
  | ofNat count =>
    simp only [positional]
    generalize Decimal.digitChars ⟨digits, .ofNat count⟩ = shown at *
    refine ⟨all.append (digits_zeros count), ?_, digits_nil, ?_⟩
    · exact List.append_ne_nil_of_left_ne_nil some _
    · simp [ofDigits_append_zeros, read, code]
  | negSucc before =>
    simp only [positional]
    generalize Decimal.digitChars ⟨digits, .negSucc before⟩ = shown at *
    split
    · refine ⟨fun c mem => all c (List.mem_of_mem_take mem), ?_,
        fun c mem => all c (List.mem_of_mem_drop mem), ?_⟩
      · simp only [ne_eq, List.take_eq_nil_iff, some, or_false]
        omega
      · have places : shown.length - (shown.length - (before + 1)) = before + 1 := by omega
        simp only [List.take_append_drop, read, List.length_drop, places]
        rfl
    · refine ⟨digits_zeros 1, List.cons_ne_nil _ _, (digits_zeros _).append all, ?_⟩
      have places : before + 1 - shown.length + shown.length = before + 1 := by omega
      have leading : ['0'] = List.replicate 1 '0' := rfl
      simp only [leading, ofDigits_zeros_append, read, List.length_append, List.length_replicate,
        places]
      rfl

theorem exists_plainChars_eq_cons (d : Decimal) :
    ∃ c cs, d.plainChars = c :: cs ∧ c.isDigit = true := by
  have placed := d.placed_positional
  obtain ⟨c, cs, whole⟩ := List.exists_cons_of_ne_nil placed.whole_nonempty
  have digit : c.isDigit = true := placed.whole_digits c (by simp [whole])
  unfold plainChars
  dsimp only
  split
  · exact ⟨c, cs, whole, digit⟩
  · exact ⟨c, cs ++ '.' :: d.positional.2, by rw [whole, List.cons_append], digit⟩

theorem isBlank_of_isDigit {c : Char} (digit : c.isDigit = true) : Text.isBlank c = false := by
  have range := Text.isDigit_iff.mp digit
  exact Text.isBlank_eq_false (by omega) (by omega)

theorem not_blank_plainChars (d : Decimal) : ∀ c ∈ d.plainChars, Text.isBlank c = false := by
  have placed := d.placed_positional
  intro c mem
  unfold plainChars at mem
  dsimp only at mem
  split at mem
  · exact isBlank_of_isDigit (placed.whole_digits c mem)
  · rw [List.mem_append, List.mem_cons] at mem
    rcases mem with mem | rfl | mem
    · exact isBlank_of_isDigit (placed.whole_digits c mem)
    · rfl
    · exact isBlank_of_isDigit (placed.fraction_digits c mem)

theorem plainChars_whole (n : Nat) : plainChars ⟨n, 0⟩ = Nat.toDigits 10 n := by
  simp [plainChars, positional, digitChars]

/-! ## Literals -/

section
variable {whole fraction : List Char}

theorem splitDigits_run {digits rest : List Char} (all : Digits digits)
    (stop : Stops Char.isDigit rest) : splitDigits (digits ++ rest) = (digits, rest) := by
  rw [splitDigits, Text.takeWhile_run all stop, Text.dropWhile_run all stop]

theorem literal?_positional (digits : Digits whole) (some : whole ≠ [])
    (digits' : Digits fraction) :
    literal? (if fraction.isEmpty then whole else whole ++ '.' :: fraction) =
      Option.some ⟨whole, fraction, 0⟩ := by
  split
  · next empty =>
    obtain rfl := List.isEmpty_iff.mp empty
    have parts := splitDigits_run digits stops_nil
    rw [List.append_nil] at parts
    simp [literal?, parts, some]
  · have point : Stops Char.isDigit ('.' :: fraction) := stops_cons rfl
    have parts := splitDigits_run digits point
    have parts' := splitDigits_run digits' stops_nil
    rw [List.append_nil] at parts'
    simp [literal?, parts, parts', some]

/-- Without a power of ten no literal is out of range. -/
theorem toBinary64_positional (negative : Bool) :
    Literal.toBinary64 ⟨whole, fraction, 0⟩ negative =
      .ofCode negative (code ⟨ofDigits (whole ++ fraction), -(fraction.length : Int)⟩) := by
  unfold Literal.toBinary64
  dsimp only
  split
  · next zero => rw [zero, Binary64.code_of_digits_zero]
  · rw [if_neg (by omega), if_neg (by omega), Int.zero_sub, Binary64.ofDecimal_eq]

theorem isWord_of_digit {words : List String} {c : Char} (digit : c.isDigit = true)
    (letters : (words.any fun word => word.toList.head?.any Char.isDigit) = false)
    (cs : List Char) :
    isWord words (c :: cs) = false := by
  have lower : c.toLower = c := by
    apply Text.toLower_eq_self
    have range := Text.isDigit_iff.mp digit
    rw [Bool.eq_false_iff, ne_eq, Text.isUpper_iff]
    omega
  refine List.any_eq_false.mpr fun word mem same => ?_
  have first : word.toList.head? = some c := by
    rw [beq_iff_eq.mp same]
    simp [lower]
  have letter := List.any_eq_false.mp letters word mem
  rw [first, Option.any_some] at letter
  exact letter digit

end

end Decimal

namespace Binary64

def signed (negative : Bool) (cs : List Char) : List Char :=
  if negative then '-' :: cs else cs

theorem ofChars?_signed {c : Char} (plus : c ≠ '+') (minus : c ≠ '-') (negative : Bool)
    (cs : List Char) : ofChars? (signed negative (c :: cs)) = ofUnsigned? negative (c :: cs) := by
  cases negative with
  | true => rfl
  | false => simp [signed, ofChars?, plus, minus]

/-- A decimal in positional notation reads as the number that it is rounded to. -/
theorem ofChars?_plainChars (negative : Bool) (d : Decimal) :
    ofChars? (signed negative d.plainChars) = some (ofCode negative d.code) := by
  have placed := d.placed_positional
  have literal : Decimal.literal? d.plainChars = some ⟨d.positional.1, d.positional.2, 0⟩ :=
    Decimal.literal?_positional placed.whole_digits placed.whole_nonempty placed.fraction_digits
  obtain ⟨c, cs, plain, digit⟩ := d.exists_plainChars_eq_cons
  rw [plain] at literal ⊢
  rw [ofChars?_signed (by rintro rfl; cases digit) (by rintro rfl; cases digit), ofUnsigned?,
    Decimal.isWord_of_digit digit (by decide), Decimal.isWord_of_digit digit (by decide), literal]
  simp [Decimal.toBinary64_positional, ← placed.value]

/-! ## Texts of numbers -/

/-- The text of a finite number is that of a decimal that is rounded to its magnitude. The sign is
missing from a negative zero only. -/
theorem exists_textChars_eq {x : Binary64} (finite : x.isFinite = true) :
    ∃ (negative : Bool) (d : Decimal), x.textChars = signed negative d.plainChars ∧
      d.code = x.magnitudeCode ∧ (negative = x.isNegative ∨ x.isZero = true) := by
  have below : x.magnitudeCode < infinityCode := of_decide_eq_true finite
  have small : x.magnitudeCode ≤ infinityCode := Nat.le_of_lt below
  have number : ¬x.isNaN = true := by simpa [isNaN] using small
  have bounded : ¬x.isInfinite = true := by simpa [isInfinite] using Nat.ne_of_lt below
  unfold textChars
  rw [if_neg number, if_neg bounded]
  split
  · next whole =>
    have exact_ : x.units % unitsPerOne = 0 := by
      simpa using (Bool.and_eq_true_iff.mp whole).1
    have units : x.units / unitsPerOne * unitsPerOne = x.units :=
      Nat.div_mul_cancel (Nat.dvd_of_mod_eq_zero exact_)
    generalize x.units / unitsPerOne = n at units
    have code : Decimal.code ⟨n, 0⟩ = x.magnitudeCode := by
      have rounded := codeOfUnits_units small Nat.one_pos
      rwa [Nat.mul_one, ← Binary64.units, ← units, ← Nat.mul_one n] at rounded
    refine ⟨x.isNegative && n != 0, ⟨n, 0⟩, ?_, code, ?_⟩
    · rw [Decimal.plainChars_whole]
      rfl
    · by_cases zero : n = 0
      · subst zero
        rw [code_of_digits_zero] at code
        exact .inr (by simp [isZero, ← code])
      · simp [zero]
  · exact ⟨x.isNegative, shortest .up x.magnitudeCode, rfl, code_shortest .up small, .inl rfl⟩

theorem textChars_of_isNaN {x : Binary64} (nan : x.isNaN = true) : x.textChars = "NaN".toList :=
  if_pos nan

theorem textChars_of_isInfinite {x : Binary64} (infinite : x.isInfinite = true) :
    x.textChars = signed x.isNegative "Infinity".toList := by
  have number : ¬x.isNaN = true := by simp [isNaN, beq_iff_eq.mp infinite]
  unfold textChars
  rw [if_neg number, if_pos infinite]
  rfl

theorem ofChars?_infinity (negative : Bool) :
    ofChars? (signed negative "Infinity".toList) = some (ofCode negative infinityCode) := by
  cases negative <;> rfl

theorem isNaN_or_isInfinite_or_isFinite (x : Binary64) :
    x.isNaN = true ∨ x.isInfinite = true ∨ x.isFinite = true := by
  simp only [isNaN, isInfinite, isFinite, decide_eq_true_eq, beq_iff_eq]
  omega

theorem solid_textChars (x : Binary64) : Text.Solid x.textChars := by
  rcases x.isNaN_or_isInfinite_or_isFinite with nan | infinite | finite
  · rw [textChars_of_isNaN nan]
    exact Text.solid_of_forall (by decide) (Text.forall_eq_false (by decide))
  · rw [textChars_of_isInfinite infinite]
    cases x.isNegative with
    | false => exact Text.solid_of_forall (by decide) (Text.forall_eq_false (by decide))
    | true => exact Text.solid_of_forall (by decide) (Text.forall_eq_false (by decide))
  · obtain ⟨negative, d, text, -, -⟩ := exists_textChars_eq finite
    obtain ⟨c, cs, plain, -⟩ := d.exists_plainChars_eq_cons
    have visible := d.not_blank_plainChars
    rw [text]
    cases negative with
    | false =>
      apply Text.solid_of_forall
      · simp [signed, plain]
      · exact visible
    | true =>
      apply Text.solid_of_forall
      · simp [signed]
      · exact List.forall_mem_cons.mpr ⟨rfl, visible⟩

end Binary64

end FormDependencies
