import FormDependencies.Proofs.Value.Same
import FormDependencies.Reactive.Observable
import FormDependencies.Value.RefType

/-!
What equality of values leaves open. Numbers that agree differ at most in the encoding of what is no
number and in the sign of a zero, and neither shows in their text. A map is written as JSON, where a
zero keeps its sign. So values that agree have one text exactly when the zeros within their maps
have the same signs, and otherwise nothing can tell them apart.
-/

namespace FormDependencies

/-! ## Numbers -/

namespace Binary64
variable {x y : Binary64}

theorem same_iff :
    x.same y = true ↔
      (x.isNaN = true ∧ y.isNaN = true) ∨ (x.isZero = true ∧ y.isZero = true) ∨ x = y := by
  have bits : x.bits = y.bits ↔ x = y := by
    cases x
    cases y
    simp
  simp only [same, Bool.or_eq_true, Bool.and_eq_true, Bool.not_eq_true', beq_iff_eq, bits]
  constructor
  · rintro ((nan | zero) | ⟨_, same⟩)
    · exact .inl nan
    · exact .inr (.inl zero)
    · exact .inr (.inr same)
  · rintro (nan | zero | rfl)
    · exact .inl (.inl nan)
    · exact .inl (.inr zero)
    · cases nan : x.isNaN with
      | true => exact .inl (.inl ⟨rfl, rfl⟩)
      | false => exact .inr ⟨rfl, rfl⟩

theorem isZero_iff : x.isZero = true ↔ x.magnitudeCode = 0 := beq_iff_eq

theorem isFinite_of_isZero (zero : x.isZero = true) : x.isFinite = true := by
  simp [isFinite, isZero_iff.mp zero, infinityCode]

theorem isNaN_of_isZero (zero : x.isZero = true) : x.isNaN = false := by
  simp [isNaN, isZero_iff.mp zero]

theorem isZero_of_isNaN (nan : x.isNaN = true) : x.isZero = false := by
  cases zero : x.isZero with
  | true => exact absurd nan (by simp [isNaN_of_isZero zero])
  | false => rfl

theorem isFinite_of_isNaN (nan : x.isNaN = true) : x.isFinite = false := by
  simp only [isNaN, decide_eq_true_eq] at nan
  simp only [isFinite, decide_eq_false_iff_not, Nat.not_lt]
  exact Nat.le_of_lt nan

/-- The text of a zero has no sign. -/
theorem textChars_of_isZero (zero : x.isZero = true) : x.textChars = ['0'] := by
  have infinite : x.isInfinite = false := by
    simp [isInfinite, isZero_iff.mp zero, infinityCode]
  have units : x.units = 0 := by
    simp [Binary64.units, isZero_iff.mp zero, unitsOfCode]
  have small : x.isSmallInteger = true := by
    simp [isSmallInteger, units, integerBound]
  simp [textChars, isNaN_of_isZero zero, infinite, small, units, integerChars]

theorem text_congr (agree : x.same y = true) : x.text = y.text := by
  unfold text
  rcases same_iff.mp agree with ⟨nan, nan'⟩ | ⟨zero, zero'⟩ | rfl
  · simp [textChars, nan, nan']
  · rw [textChars_of_isZero zero, textChars_of_isZero zero']
  · rfl

end Binary64

/-- JSON keeps the sign of a zero. -/
theorem Json.numberChars_of_isZero {n : Binary64} (zero : n.isZero = true) :
    numberChars n = if n.isNegative then "-0.0".toList else "0.0".toList := by
  cases sign : n.isNegative <;>
    simp [numberChars, Binary64.isFinite_of_isZero zero, zero, sign]

namespace Value

/-! ## Signs of zeros -/

mutual

/-- The signs of the zeros that stand within a map, in the order in which they are written; `inMap`
says that the value itself stands in one. -/
def zeroSigns (inMap : Bool) : Value → List Bool
  | .number n => if inMap && n.isZero then [n.isNegative] else []
  | .list items => itemSigns inMap items
  | .map entries => entrySigns entries
  | _ => []

def itemSigns (inMap : Bool) : List Value → List Bool
  | [] => []
  | item :: rest => zeroSigns inMap item ++ itemSigns inMap rest

def entrySigns : List (String × Value) → List Bool
  | [] => []
  | (_, value) :: rest => zeroSigns true value ++ entrySigns rest

end

mutual

theorem length_zeroSigns (inMap : Bool) {a b : Value} (agree : same a b = true) :
    (a.zeroSigns inMap).length = (b.zeroSigns inMap).length := by
  match a, b with
  | .number x, .number y =>
    have zeros : x.isZero = y.isZero := by
      rcases Binary64.same_iff.mp agree with ⟨nan, nan'⟩ | ⟨zero, zero'⟩ | rfl
      · rw [Binary64.isZero_of_isNaN nan, Binary64.isZero_of_isNaN nan']
      · rw [zero, zero']
      · rfl
    simp only [zeroSigns, zeros]
    split <;> rfl
  | .list as, .list bs => exact length_itemSigns inMap agree
  | .map as, .map bs => exact length_entrySigns agree
  | .undefined, .undefined | .null, .null | .bool _, .bool _ | .text _, .text _ => rfl

theorem length_itemSigns (inMap : Bool) {as bs : List Value} (agree : sameItems as bs = true) :
    (itemSigns inMap as).length = (itemSigns inMap bs).length := by
  match as, bs with
  | [], [] => rfl
  | a :: as, b :: bs =>
    obtain ⟨first, rest⟩ := Bool.and_eq_true_iff.mp agree
    simp only [itemSigns, List.length_append, length_zeroSigns inMap first,
      length_itemSigns inMap rest]

theorem length_entrySigns {as bs : List (String × Value)} (agree : sameEntries as bs = true) :
    (entrySigns as).length = (entrySigns bs).length := by
  match as, bs with
  | [], [] => rfl
  | (_, a) :: as, (_, b) :: bs =>
    obtain ⟨first, rest⟩ := Bool.and_eq_true_iff.mp agree
    simp only [entrySigns, List.length_append, length_entrySigns rest,
      length_zeroSigns true (Bool.and_eq_true_iff.mp first).2]

end

section
variable {a b : Value} (agree : same a b = true)

include agree in
theorem append_signs_iff (inMap : Bool) {signs signs' : List Bool} :
    zeroSigns inMap a ++ signs = zeroSigns inMap b ++ signs' ↔
      zeroSigns inMap a = zeroSigns inMap b ∧ signs = signs' :=
  ⟨fun same => List.append_inj same (length_zeroSigns inMap agree),
    fun ⟨front, back⟩ => front ▸ back ▸ rfl⟩

include agree in
theorem itemSigns_cons_iff {inMap : Bool} {as bs : List Value} :
    itemSigns inMap (a :: as) = itemSigns inMap (b :: bs) ↔
      zeroSigns inMap a = zeroSigns inMap b ∧ itemSigns inMap as = itemSigns inMap bs :=
  append_signs_iff agree inMap

include agree in
theorem entrySigns_cons_iff {k l : String} {as bs : List (String × Value)} :
    entrySigns ((k, a) :: as) = entrySigns ((l, b) :: bs) ↔
      zeroSigns true a = zeroSigns true b ∧ entrySigns as = entrySigns bs :=
  append_signs_iff agree true

end

/-! ## Texts of JSON -/

theorem chars_number (n : Binary64) : (Value.number n).toJson.chars = Json.numberChars n := by
  simp only [toJson]
  split
  · rfl
  · next infinite => simp [Json.chars, Json.numberChars, infinite]

theorem numberChars_append_iff {x y : Binary64} (agree : x.same y = true) (s t : List Char) :
    Json.numberChars x ++ s = Json.numberChars y ++ t ↔
      zeroSigns true (.number x) = zeroSigns true (.number y) ∧ s = t := by
  rcases Binary64.same_iff.mp agree with ⟨nan, nan'⟩ | ⟨zero, zero'⟩ | rfl
  · simp [Json.numberChars, zeroSigns, Binary64.isFinite_of_isNaN, Binary64.isZero_of_isNaN, nan,
      nan']
  · rw [Json.numberChars_of_isZero zero, Json.numberChars_of_isZero zero']
    cases sign : x.isNegative <;> cases sign' : y.isNegative <;>
      simp [zeroSigns, zero, zero', sign, sign']
  · simp

mutual

/-- Where values that agree are written as JSON in front of other texts, the texts go on in the same
way exactly when the zeros have the same signs. -/
theorem chars_append_iff {a b : Value} (agree : same a b = true) (s t : List Char) :
    a.toJson.chars ++ s = b.toJson.chars ++ t ↔
      a.zeroSigns true = b.zeroSigns true ∧ s = t := by
  match a, b with
  | .number x, .number y =>
    rw [chars_number, chars_number]
    exact numberChars_append_iff agree s t
  | .list as, .list bs =>
    simp only [toJson, Json.chars, zeroSigns, List.cons_append, List.cons.injEq, true_and]
    exact itemsChars_append_iff agree s t
  | .map as, .map bs =>
    simp only [toJson, Json.chars, zeroSigns, List.cons_append, List.cons.injEq, true_and]
    exact membersChars_append_iff agree s t
  | .undefined, .undefined | .null, .null => simp [zeroSigns]
  | .bool x, .bool y =>
    obtain rfl : x = y := beq_iff_eq.mp agree
    simp
  | .text x, .text y =>
    obtain rfl : x = y := beq_iff_eq.mp agree
    simp

theorem itemsChars_append_iff {as bs : List Value} (agree : sameItems as bs = true)
    (s t : List Char) :
    Json.itemsChars (itemsToJson as) ++ s = Json.itemsChars (itemsToJson bs) ++ t ↔
      itemSigns true as = itemSigns true bs ∧ s = t := by
  match as, bs with
  | [], [] => simp
  | [a], [b] =>
    obtain ⟨first, _⟩ := Bool.and_eq_true_iff.mp agree
    simp [itemsToJson, Json.itemsChars, itemSigns, chars_append_iff first]
  | a :: a' :: as, b :: b' :: bs =>
    obtain ⟨first, rest⟩ := Bool.and_eq_true_iff.mp agree
    rw [itemSigns_cons_iff first, and_assoc, ← itemsChars_append_iff rest s t]
    simp only [itemsToJson, Json.itemsChars, List.append_assoc, List.cons_append,
      chars_append_iff first, List.cons.injEq, true_and]
  | [_], _ :: _ :: _ | _ :: _ :: _, [_] => simp [sameItems] at agree

theorem membersChars_append_iff {as bs : List (String × Value)} (agree : sameEntries as bs = true)
    (s t : List Char) :
    Json.membersChars (entriesToJson as) ++ s = Json.membersChars (entriesToJson bs) ++ t ↔
      entrySigns as = entrySigns bs ∧ s = t := by
  match as, bs with
  | [], [] => simp
  | [(k, a)], [(l, b)] =>
    simp only [sameEntries, Bool.and_eq_true, beq_iff_eq] at agree
    obtain ⟨⟨rfl, first⟩, _⟩ := agree
    simp [entriesToJson, Json.membersChars, entrySigns, chars_append_iff first]
  | (k, a) :: a' :: as, (l, b) :: b' :: bs =>
    obtain ⟨own, rest⟩ := Bool.and_eq_true_iff.mp agree
    obtain ⟨key, first⟩ := Bool.and_eq_true_iff.mp own
    obtain rfl : k = l := beq_iff_eq.mp key
    rw [entrySigns_cons_iff first, and_assoc, ← membersChars_append_iff rest s t]
    simp only [entriesToJson, Json.membersChars, List.append_assoc, List.cons_append,
      List.append_cancel_left_eq, chars_append_iff first, List.cons.injEq, true_and]
  | [_], _ :: _ :: _ | _ :: _ :: _, [_] => simp [sameEntries] at agree

end

/-! ## Texts -/

mutual

theorem toText_append_iff {a b : Value} (agree : same a b = true) (s t : List Char) :
    a.toText.toList ++ s = b.toText.toList ++ t ↔
      a.zeroSigns false = b.zeroSigns false ∧ s = t := by
  match a, b with
  | .number x, .number y =>
    simp only [toText, Binary64.text_congr agree]
    simp [zeroSigns]
  | .list as, .list bs =>
    simp only [toText, zeroSigns]
    exact joined_append_iff agree s t
  | .map as, .map bs =>
    simp only [toText, Json.render, String.toList_ofList]
    exact chars_append_iff agree s t
  | .undefined, .undefined | .null, .null => simp [zeroSigns]
  | .bool x, .bool y =>
    obtain rfl : x = y := beq_iff_eq.mp agree
    simp
  | .text x, .text y =>
    obtain rfl : x = y := beq_iff_eq.mp agree
    simp

theorem joined_append_iff {as bs : List Value} (agree : sameItems as bs = true) (s t : List Char) :
    (",".intercalate (itemTexts as)).toList ++ s = (",".intercalate (itemTexts bs)).toList ++ t ↔
      itemSigns false as = itemSigns false bs ∧ s = t := by
  match as, bs with
  | [], [] => simp
  | [a], [b] =>
    obtain ⟨first, _⟩ := Bool.and_eq_true_iff.mp agree
    simp [itemTexts, itemSigns, toText_append_iff first]
  | a :: a' :: as, b :: b' :: bs =>
    obtain ⟨first, rest⟩ := Bool.and_eq_true_iff.mp agree
    rw [itemSigns_cons_iff first, and_assoc, ← joined_append_iff rest s t]
    simp only [itemTexts, String.toList_intercalate, List.map_cons, List.intercalate_cons_cons,
      List.append_assoc, toText_append_iff first, List.append_cancel_left_eq]
  | [_], _ :: _ :: _ | _ :: _ :: _, [_] => simp [sameItems] at agree

end

theorem toText_eq_iff {a b : Value} (agree : same a b = true) :
    a.toText = b.toText ↔ a.zeroSigns false = b.zeroSigns false := by
  simpa [String.toList_inj] using toText_append_iff agree [] []

mutual

/-- Only the text of a map begins with a brace, and every map within a list has its text in that of
the list. -/
theorem brace_mem_toText {a : Value} (signed : a.zeroSigns false ≠ []) :
    '\x7b' ∈ a.toText.toList := by
  match a with
  | .list items => exact brace_mem_joined signed
  | .map entries => simp [toText, toJson, Json.render, Json.chars]
  | .number _ | .undefined | .null | .bool _ | .text _ => simp [zeroSigns] at signed

theorem brace_mem_joined {items : List Value} (signed : itemSigns false items ≠ []) :
    '\x7b' ∈ (",".intercalate (itemTexts items)).toList := by
  match items with
  | [] => simp [itemSigns] at signed
  | [item] =>
    have own : item.zeroSigns false ≠ [] := by simpa [itemSigns] using signed
    simpa [itemTexts] using brace_mem_toText own
  | item :: next :: rest =>
    rw [itemTexts, itemTexts, String.toList_intercalate, List.map_cons, List.map_cons,
      List.intercalate_cons_cons, List.mem_append, List.mem_append]
    by_cases own : item.zeroSigns false = []
    · have later : itemSigns false (next :: rest) ≠ [] := by
        rwa [itemSigns, own, List.nil_append] at signed
      have mem := brace_mem_joined later
      rw [itemTexts, String.toList_intercalate] at mem
      exact .inr mem
    · exact .inl (.inl (brace_mem_toText own))

end

/-! ## Casts -/

/-- Values that agree are the same, or numbers, lists or maps that agree. -/
theorem cases_of_same {a b : Value} (agree : same a b = true) :
    a = b ∨ (∃ x y, a = .number x ∧ b = .number y ∧ x.same y = true) ∨
      (∃ as bs, a = .list as ∧ b = .list bs ∧ sameItems as bs = true) ∨
      ∃ as bs, a = .map as ∧ b = .map bs ∧ sameEntries as bs = true := by
  match a, b with
  | .number x, .number y => exact .inr (.inl ⟨x, y, rfl, rfl, agree⟩)
  | .list as, .list bs => exact .inr (.inr (.inl ⟨as, bs, rfl, rfl, agree⟩))
  | .map as, .map bs => exact .inr (.inr (.inr ⟨as, bs, rfl, rfl, agree⟩))
  | .undefined, .undefined | .null, .null => exact .inl rfl
  | .bool x, .bool y => exact .inl (congrArg Value.bool (beq_iff_eq.mp agree))
  | .text x, .text y => exact .inl (congrArg Value.text (beq_iff_eq.mp agree))

section
variable {a b : Value}

theorem isTruthy_congr (agree : same a b = true) : a.isTruthy = b.isTruthy := by
  rcases cases_of_same agree with rfl | ⟨x, y, rfl, rfl, agree⟩ | ⟨_, _, rfl, rfl, _⟩ |
    ⟨_, _, rfl, rfl, _⟩
  · rfl
  · rcases Binary64.same_iff.mp agree with ⟨nan, nan'⟩ | ⟨zero, zero'⟩ | rfl
    · simp [isTruthy, nan, nan']
    · simp [isTruthy, zero, zero']
    · rfl
  · rfl
  · rfl

theorem isBlank_congr (agree : same a b = true) : a.isBlank = b.isBlank := by
  rcases cases_of_same agree with rfl | ⟨_, _, rfl, rfl, _⟩ | ⟨as, bs, rfl, rfl, agree⟩ |
    ⟨_, _, rfl, rfl, _⟩
  · rfl
  · rfl
  · simp only [isBlank]
    rw [Bool.eq_iff_iff, List.isEmpty_iff_length_eq_zero, List.isEmpty_iff_length_eq_zero,
      length_of_sameItems agree]
  · rfl

theorem isUndefined_congr (agree : same a b = true) : a.isUndefined = b.isUndefined := by
  rcases cases_of_same agree with rfl | ⟨_, _, rfl, rfl, _⟩ | ⟨_, _, rfl, rfl, _⟩ |
    ⟨_, _, rfl, rfl, _⟩ <;> rfl

theorem toNumber_congr (agree : same a b = true) : a.toNumber.same b.toNumber = true := by
  rcases cases_of_same agree with rfl | ⟨x, y, rfl, rfl, agree⟩ | ⟨_, _, rfl, rfl, _⟩ |
    ⟨_, _, rfl, rfl, _⟩
  · exact Binary64.same_self _
  · exact agree
  · exact Binary64.same_self .nan
  · exact Binary64.same_self .nan

/-- A text without braces belongs to one value as to the other. -/
theorem isText_congr (agree : same a b = true) {text : String} (plain : '\x7b' ∉ text.toList) :
    a.toText = text ↔ b.toText = text := by
  by_cases signs : a.zeroSigns false = b.zeroSigns false
  · rw [(toText_eq_iff agree).mpr signs]
  · have lengths := length_zeroSigns false agree
    have signed : a.zeroSigns false ≠ [] := fun none =>
      signs (none.trans (List.length_eq_zero_iff.mp (by simpa [none] using lengths.symm)).symm)
    have signed' : b.zeroSigns false ≠ [] := fun none =>
      signed (List.length_eq_zero_iff.mp (by simpa [none] using lengths))
    have other : ∀ {value : Value}, value.zeroSigns false ≠ [] → value.toText ≠ text :=
      fun signed same => plain (same ▸ brace_mem_toText signed)
    exact iff_of_false (other signed) (other signed')

theorem cast_congr (agree : same a b = true) {type : RefType} (other : type ≠ .string) :
    same (a.cast type) (b.cast type) = true := by
  unfold cast
  rw [isUndefined_congr agree]
  split
  · exact agree
  · cases type with
    | auto | any => exact agree
    | boolean =>
      simp only [isTruthy_congr agree]
      exact same_self _
    | boolString =>
      have plain : '\x7b' ∉ "true".toList := by decide
      have shown : (a.toText == "true") = (b.toText == "true") := by
        rw [Bool.eq_iff_iff, beq_iff_eq, beq_iff_eq, isText_congr agree plain]
      simp only [shown]
      exact same_self _
    | string => exact absurd rfl other
    | number => exact toNumber_congr agree
    | json =>
      rcases cases_of_same agree with rfl | ⟨_, _, rfl, rfl, agree⟩ | ⟨_, _, rfl, rfl, agree⟩ |
        ⟨_, _, rfl, rfl, agree⟩
      · exact same_self _
      · exact agree
      · exact agree
      · exact agree

theorem cast_string_congr (agree : same a b = true) :
    same (a.cast .string) (b.cast .string) = true ↔ a.toText = b.toText := by
  unfold cast
  rw [isUndefined_congr agree]
  split
  · next undefined =>
    cases b with
    | undefined =>
      obtain rfl := eq_undefined_of_beq agree
      exact iff_of_true rfl rfl
    | _ => cases undefined
  · exact beq_iff_eq

end

/-- Values that agree are both truthy or both falsy, both blank or both not, and are cast to values
that agree. Their texts alone can differ: they do exactly when some zero within a map has another
sign. An observable that holds one of them and is set to the other keeps what it holds, so that it
shows the text of the new value exactly when the signs are the same. -/
theorem agreement_exact {a b : Value} (agree : (a == b) = true) :
    a.isTruthy = b.isTruthy ∧ a.isBlank = b.isBlank ∧
      (∀ type, type ≠ .string → (a.cast type == b.cast type) = true) ∧
      ((a.cast .string == b.cast .string) = true ↔ a.toText = b.toText) ∧
      (a.toText = b.toText ↔ a.zeroSigns false = b.zeroSigns false) ∧
      ∀ {β : Type} (o : Observable Value β), o.value = a → o.set b = (o, false) := by
  refine ⟨isTruthy_congr agree, isBlank_congr agree, fun _ other => cast_congr agree other,
    cast_string_congr agree, toText_eq_iff agree, fun o holds => ?_⟩
  rw [Observable.set, holds, if_pos agree]

/-- A map that holds a zero and one that holds a negative zero agree and have different texts. -/
theorem agreement_exact_negativeZero :
    let plus : Value := .map [("n", .number .zero)]
    let minus : Value := .map [("n", .number .negativeZero)]
    (plus == minus) = true ∧ plus.toText ≠ minus.toText ∧
      (plus.cast .string == minus.cast .string) = false ∧
      (plus.cast .boolString == minus.cast .boolString) = true := by
  intro plus minus
  have agree : (plus == minus) = true := by decide +kernel
  obtain ⟨-, -, others, string, text, -⟩ := agreement_exact agree
  have signs : plus.zeroSigns false ≠ minus.zeroSigns false := by decide +kernel
  have texts : plus.toText ≠ minus.toText := fun same => signs (text.mp same)
  have strings : ¬(plus.cast .string == minus.cast .string) = true := fun same =>
    texts (string.mp same)
  exact ⟨agree, texts, Bool.eq_false_iff.mpr strings, others .boolString (by decide)⟩

end Value

end FormDependencies
