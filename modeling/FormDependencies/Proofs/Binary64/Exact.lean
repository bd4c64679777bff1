import FormDependencies.Binary64.Shortest

/-!
Numbers that need no rounding. A magnitude that some encoding has is rounded to that encoding, so
the decimal that equals a number reads back as it; and the shortest decimal of a number reads back
as it because nothing else is chosen.
-/

namespace FormDependencies

theorem roundDiv_mul (n : Nat) {d : Nat} (positive : 0 < d) : roundDiv (n * d) d = n := by
  simp [roundDiv, Nat.mul_div_cancel n positive, positive]

namespace Binary64

/-! ## Encodings -/

theorem codeOfUnits_le (num den : Nat) : codeOfUnits num den ≤ infinityCode :=
  Nat.min_le_right _ _

section
variable {code : Nat} (small : code ≤ infinityCode) (negative : Bool)

include small in
theorem toNat_bits_ofCode :
    (ofCode negative code).bits.toNat = if negative then signBit + code else code := by
  have bound : (if negative then signBit + code else code) < 2 ^ 64 := by
    have limit : infinityCode < signBit := by decide
    have two : signBit + signBit = 2 ^ 64 := by decide
    split <;> omega
  exact UInt64.toNat_ofNat_of_lt' bound

include small in
theorem magnitudeCode_ofCode : (ofCode negative code).magnitudeCode = code := by
  have below : code < signBit := Nat.lt_of_le_of_lt small (by decide)
  rw [magnitudeCode, toNat_bits_ofCode small]
  split
  · rw [Nat.add_mod_left, Nat.mod_eq_of_lt below]
  · exact Nat.mod_eq_of_lt below

end

theorem ofCode_magnitudeCode (x : Binary64) : ofCode x.isNegative x.magnitudeCode = x := by
  have bound : x.bits.toNat < signBit + signBit := UInt64.toNat_lt x.bits
  have split : (if x.isNegative then signBit + x.magnitudeCode else x.magnitudeCode) =
      x.bits.toNat := by
    unfold isNegative magnitudeCode
    by_cases negative : signBit ≤ x.bits.toNat
    · rw [decide_eq_true negative, if_pos rfl, Nat.mod_eq_sub_mod negative,
        Nat.mod_eq_of_lt (by omega)]
      omega
    · rw [decide_eq_false negative, if_neg (by simp), Nat.mod_eq_of_lt (by omega)]
  rw [ofCode, split, UInt64.ofNat_toNat]

/-! ## Rounding of what is exact -/

theorem unitsOfCode_of_lt {code : Nat} (small : code < fractionSize) : unitsOfCode code = code := by
  simp [unitsOfCode, Nat.div_eq_of_lt small, Nat.mod_eq_of_lt small]

theorem unitsOfCode_binade (shift : Nat) {fraction : Nat} (small : fraction < fractionSize) :
    unitsOfCode ((shift + 1) * fractionSize + fraction) =
      (fractionSize + fraction) * Nat.pow 2 shift := by
  have positive : 0 < fractionSize := by decide
  have exponent : ((shift + 1) * fractionSize + fraction) / fractionSize = shift + 1 := by
    rw [Nat.mul_comm, Nat.mul_add_div positive, Nat.div_eq_of_lt small, Nat.add_zero]
  have rest : ((shift + 1) * fractionSize + fraction) % fractionSize = fraction := by
    rw [Nat.mul_comm, Nat.mul_add_mod, Nat.mod_eq_of_lt small]
  simp [unitsOfCode, exponent, rest]

theorem log2_of_binade {n : Nat} (above : fractionSize ≤ n) (below : n < 2 * fractionSize)
    (shift : Nat) : (n * Nat.pow 2 shift).log2 = 52 + shift := by
  have size : fractionSize = 2 ^ 52 := by decide
  have some : n * Nat.pow 2 shift ≠ 0 := by
    have positive : 0 < fractionSize := by decide
    exact Nat.mul_ne_zero (by omega) (Nat.ne_of_gt (Nat.two_pow_pos shift))
  rw [Nat.log2_eq_iff some, Nat.add_right_comm, Nat.pow_add, Nat.pow_add]
  refine ⟨Nat.mul_le_mul_right _ (size ▸ above), Nat.mul_lt_mul_of_pos_right ?_ ?_⟩
  · rwa [Nat.pow_succ', ← size]
  · exact Nat.two_pow_pos shift

/-- A magnitude that an encoding has is rounded to that encoding. -/
theorem codeOfUnits_units {code den : Nat} (finite : code ≤ infinityCode) (positive : 0 < den) :
    codeOfUnits (unitsOfCode code * den) den = code := by
  rw [codeOfUnits, Nat.mul_div_cancel _ positive]
  by_cases small : code < fractionSize
  · have shift : code.log2 - 52 = 0 := by
      by_cases zero : code = 0
      · simp [zero]
      · have below : code.log2 < 52 := (Nat.log2_lt zero).mpr small
        omega
    simp only [unitsOfCode_of_lt small, shift, Nat.zero_mul, Nat.zero_add, Nat.pow_eq, Nat.pow_zero,
      Nat.mul_one, roundDiv_mul _ positive]
    exact Nat.min_eq_left finite
  · have some : 0 < code / fractionSize := Nat.div_pos (by omega) (by decide)
    obtain ⟨shift, exponent⟩ := Nat.exists_eq_add_of_lt some
    have fraction : code % fractionSize < fractionSize := Nat.mod_lt _ (by decide)
    have parts : (shift + 1) * fractionSize + code % fractionSize = code := by
      have whole := Nat.div_add_mod' code fractionSize
      rw [exponent, Nat.zero_add] at whole
      exact whole
    have units := unitsOfCode_binade shift fraction
    have log := log2_of_binade (n := fractionSize + code % fractionSize) (by omega) (by omega) shift
    rw [parts] at units
    simp only [units, log, Nat.add_sub_cancel_left]
    have scaled : 0 < den * Nat.pow 2 shift := Nat.mul_pos positive (Nat.two_pow_pos shift)
    rw [Nat.mul_assoc, Nat.mul_comm (Nat.pow 2 shift) den, roundDiv_mul _ scaled,
      ← Nat.add_assoc, ← Nat.succ_mul, parts]
    exact Nat.min_eq_left finite

theorem codeOfUnits_zero {den : Nat} (positive : 0 < den) : codeOfUnits 0 den = 0 := by
  have exact_ := codeOfUnits_units (Nat.zero_le infinityCode) positive
  rwa [unitsOfCode_of_lt (by decide), Nat.zero_mul] at exact_

end Binary64

/-! ## Decimals -/

/-- The encoding that the magnitude of a decimal is rounded to. -/
def Decimal.code (d : Decimal) : Nat :=
  match d.exponent with
  | .ofNat k => Binary64.codeOfUnits (d.digits * Nat.pow 10 k * Binary64.unitsPerOne) 1
  | .negSucc k => Binary64.codeOfUnits (d.digits * Binary64.unitsPerOne) (Nat.pow 10 (k + 1))

namespace Binary64

theorem ofDecimal_eq (negative : Bool) (d : Decimal) :
    ofDecimal negative d = ofCode negative d.code := by
  obtain ⟨digits, exponent⟩ := d
  cases exponent <;> rfl

theorem code_le (d : Decimal) : d.code ≤ infinityCode := by
  unfold Decimal.code
  split <;> exact codeOfUnits_le _ _

theorem code_of_digits_zero (exponent : Int) : Decimal.code ⟨0, exponent⟩ = 0 := by
  unfold Decimal.code
  cases exponent with
  | ofNat k => simp [codeOfUnits_zero]
  | negSucc k =>
    simp only [Nat.zero_mul]
    exact codeOfUnits_zero (Nat.pow_pos (by decide))

theorem code_of_readsAs {code : Nat} (finite : code ≤ infinityCode) {d : Decimal}
    (reads : readsAs code d = true) : d.code = code := by
  have same := congrArg UInt64.toNat (beq_iff_eq.mp reads)
  rw [ofDecimal_eq, toNat_bits_ofCode (code_le d), toNat_bits_ofCode finite] at same
  exact same

/-! ## Shortest decimals -/

theorem readsAs_of_choice {code : Nat} {low high d : Decimal} {takeHigh : Bool}
    (chosen : (match readsAs code low, readsAs code high with
      | true, true => some (if takeHigh then high else low)
      | true, false => some low
      | false, true => some high
      | false, false => none) = some d) : readsAs code d = true := by
  cases isLow : readsAs code low <;> cases isHigh : readsAs code high <;>
    simp only [isLow, isHigh, reduceCtorEq, Option.some.injEq] at chosen
  · exact chosen ▸ isHigh
  · exact chosen ▸ isLow
  · cases takeHigh
    · exact chosen ▸ isLow
    · exact chosen ▸ isHigh

theorem readsAs_of_onGrid? {tie : Tie} {code count : Nat} {d : Decimal}
    (chosen : onGrid? tie code count = some d) : readsAs code d = true := by
  unfold onGrid? at chosen
  dsimp only at chosen
  generalize decimalPoint (unitsOfCode code) - (count : Int) = exponent at chosen
  generalize scaledBy (unitsOfCode code) exponent = scaled at chosen
  obtain ⟨num, den⟩ := scaled
  exact readsAs_of_choice chosen

theorem code_of_units {code : Nat} (finite : code ≤ infinityCode) {places before : Nat}
    (next : places = before + 1) (unit : unitsPerOne = Nat.pow 2 places) :
    Decimal.code ⟨unitsOfCode code * Nat.pow 5 places, .negSucc before⟩ = code := by
  have power : Nat.pow 5 places * Nat.pow 2 places = Nat.pow 10 places :=
    (Nat.mul_pow 5 2 places).symm
  simp only [Decimal.code, unit, Nat.mul_assoc, power, ← next]
  exact codeOfUnits_units finite (Nat.pow_pos (by decide))

theorem code_exactDecimal {code : Nat} (finite : code ≤ infinityCode) :
    (exactDecimal code).code = code := by
  have unit : unitsPerOne = Nat.pow 2 1074 := by unfold unitsPerOne; rfl
  rw [exactDecimal]
  -- No power of so great an exponent is to be computed.
  revert unit
  generalize places : 1074 = n
  intro unit
  exact code_of_units finite places.symm unit

theorem code_shortest (tie : Tie) {code : Nat} (finite : code ≤ infinityCode) :
    (shortest tie code).code = code := by
  unfold shortest
  cases found : (List.range' 1 17).findSome? (onGrid? tie code) with
  | none => exact code_exactDecimal finite
  | some d =>
    obtain ⟨count, -, chosen⟩ := List.exists_of_findSome?_eq_some found
    exact code_of_readsAs finite (readsAs_of_onGrid? chosen)

end Binary64

end FormDependencies
