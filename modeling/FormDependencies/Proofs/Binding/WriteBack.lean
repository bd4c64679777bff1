import FormDependencies.Proofs.Binary64.Reading
import FormDependencies.Proofs.Binding.Truth
import FormDependencies.Proofs.Value.Representative
import FormDependencies.Proofs.Widget.RoundTrip

/-!
A number that is written into a field is read as the same number. So a reference of type number,
set to the number that it holds already, is not seen as changing, and nobody is called.
-/

namespace FormDependencies

/-- The text of a number reads as a number that agrees with it. -/
theorem Binary64.exists_ofChars?_textChars (x : Binary64) :
    ∃ y, ofChars? x.textChars = some y ∧ y.same x = true := by
  rcases x.isNaN_or_isInfinite_or_isFinite with nan | infinite | finite
  · refine ⟨.nan, ?_, same_iff.mpr (.inl ⟨by decide, nan⟩)⟩
    rw [textChars_of_isNaN nan]
    rfl
  · refine ⟨x, ?_, same_self x⟩
    have itself := ofCode_magnitudeCode x
    rw [beq_iff_eq.mp infinite] at itself
    rw [textChars_of_isInfinite infinite, ofChars?_infinity, itself]
  · obtain ⟨negative, d, text, code, sign⟩ := exists_textChars_eq finite
    refine ⟨ofCode negative d.code, text ▸ ofChars?_plainChars negative d, ?_⟩
    rcases sign with rfl | zero
    · rw [code, ofCode_magnitudeCode]
      exact same_self x
    · refine same_iff.mpr (.inr (.inl ⟨?_, zero⟩))
      rw [isZero_iff, magnitudeCode_ofCode (code_le d), code]
      exact isZero_iff.mp zero

theorem Value.toNumber_text_same (n : Binary64) :
    (Value.text (Value.number n).toText).toNumber.same n = true := by
  obtain ⟨m, read, agree⟩ := n.exists_ofChars?_textChars
  have solid := n.solid_textChars
  have some : n.textChars.isEmpty = false := by simpa using solid.nonempty
  simp [toNumber, toText, Binary64.text, solid.trimChars_eq, some, read, agree]

theorem AccessorTable.get_set_plain {doc : Document} {el : ElementId} (rooted : doc.Rooted)
    (there : doc.contains el) (kind : doc.widgetKind el = .plain) (value : Value)
    (notify : Bool) :
    builtin.get (builtin.set doc el value notify) el = .text value.toText := by
  have holds : el ∈ (doc.widgetKind el).holders doc el := by simp [kind, WidgetKind.holders]
  obtain ⟨e, -, own⟩ := element?_holder rooted there holds value notify
  rw [kind] at own
  unfold get
  rw [Document.resolve_builtin, (looksAlike_set rooted el value notify el).widgetKind, kind]
  exact congrArg Value.text (Document.value_of_element? own)

namespace Bindings
variable {ν : Type}

theorem write_of_agreeing {b : Bindings ν} {id : SlotId} {value : Value}
    (agree : (b.read id == value) = true) : b.write id value = (b, false) := by
  have same : (b.slot id).set value = (b.slot id, false) := if_pos agree
  simp [write, same]

/-- The text of a number is read as a number that agrees with it. Where a reference of type number
holds a number already, writing that number into its field and reading the field again is no change:
all slots, and the observers that wait, are as they were. -/
theorem number_settles (n : Binary64) :
    (Value.number (Value.text (Value.number n).toText).toNumber == Value.number n) = true ∧
      ∀ {ν : Type} (b : Bindings ν) (doc : Document) (r : Reference) (notify : Bool),
        doc.Rooted → doc.contains r.element → doc.widgetKind r.element = .plain →
        r.type = .number → (b.read r.slot == .number n) = true →
          let after := AccessorTable.builtin.set doc r.element (.number n) notify
          let value := .number (Value.text (Value.number n).toText).toNumber
          b.reread after .builtin r = (b.log (.reread r.element r.name value), false) := by
  have reads := Value.toNumber_text_same n
  refine ⟨reads, ?_⟩
  intro ν b doc r notify rooted there kind type holds after value
  have written : AccessorTable.builtin.get after r.element = .text (Value.number n).toText :=
    AccessorTable.get_set_plain rooted there kind (.number n) notify
  have typed : AccessorTable.builtin.getTyped after r.element r.type = value := by
    rw [AccessorTable.getTyped, written, type]
    rfl
  have converted : AccessorTable.builtin.castFailure? after r.element r.type = none := by
    rw [AccessorTable.castFailure?, written, type]
    rfl
  have agree : (b.read r.slot == value) = true := Value.same_trans holds (Value.same_symm reads)
  unfold reread
  simp only [typed, converted, logCast]
  exact write_of_agreeing agree

/-- A field with text that is no number, set to the number that stands for it. -/
theorem number_settles_nan :
    let doc := (Form.addReference Form.new "n" "abc").1
    let r : Reference := ⟨⟨3⟩, "n", .number, ⟨0⟩⟩
    let b : Bindings Unit := { slots := #[{ value := .number .nan }], references := [r] }
    let after := AccessorTable.builtin.set doc r.element (.number .nan) true
    doc.Rooted ∧ doc.contains r.element ∧ doc.widgetKind r.element = .plain ∧
      (b.read r.slot == .number .nan) = true ∧ after.value r.element = "NaN" ∧
      (b.reread after .builtin r).2 = false := by
  intro doc r b after
  have rooted : doc.Rooted := by decide +kernel
  have there : doc.contains r.element := by decide +kernel
  have kind : doc.widgetKind r.element = .plain := by decide +kernel
  have holds : (b.read r.slot == .number .nan) = true := by decide +kernel
  have settles := (number_settles .nan).2 b doc r true rooted there kind rfl holds
  exact ⟨rooted, there, kind, holds, by decide +kernel, congrArg Prod.snd settles⟩

end Bindings

end FormDependencies
