import FormDependencies.Proofs.Reactive.Run
import FormDependencies.Proofs.Value.Congruence

/-!
Values that agree have one representative, in which whatever is no number is the one chosen NaN and
every zero is positive. Agreement is therefore an equivalence, wherever such numbers stand within
lists and maps, and storing what is stored already is no change.
-/

namespace FormDependencies

/-- Of all numbers that agree, the one that stands for them. -/
def Binary64.representative (x : Binary64) : Binary64 :=
  if x.isNaN then nan else if x.isZero then zero else x

section
variable {x y : Binary64}

theorem Binary64.isNaN_representative : x.representative.isNaN = x.isNaN := by
  unfold representative
  split
  · next nan => rw [nan]; decide
  · next number =>
    split
    · rw [Bool.eq_false_iff.mpr number]; decide
    · rfl

theorem Binary64.isZero_representative : x.representative.isZero = x.isZero := by
  unfold representative
  split
  · next nan => rw [isZero_of_isNaN nan]; decide
  · split
    · next zero => rw [zero]; decide
    · rfl

theorem Binary64.same_iff_representative :
    x.same y = true ↔ x.representative = y.representative := by
  rw [same_iff]
  constructor
  · rintro (⟨nan, nan'⟩ | ⟨zero, zero'⟩ | rfl)
    · simp [representative, nan, nan']
    · simp [representative, isNaN_of_isZero, zero, zero']
    · rfl
  · intro agree
    have nans : x.isNaN = y.isNaN := by
      rw [← isNaN_representative, agree, isNaN_representative]
    have zeros : x.isZero = y.isZero := by
      rw [← isZero_representative, agree, isZero_representative]
    cases nan : x.isNaN with
    | true => exact .inl ⟨rfl, nans ▸ nan⟩
    | false =>
      cases zero : x.isZero with
      | true => exact .inr (.inl ⟨rfl, zeros ▸ zero⟩)
      | false =>
        simp only [representative, ← nans, ← zeros, nan, zero, Bool.false_eq_true, if_false]
          at agree
        exact .inr (.inr agree)

end

namespace Value

mutual

def representative : Value → Value
  | .number n => .number n.representative
  | .list items => .list (itemRepresentatives items)
  | .map entries => .map (entryRepresentatives entries)
  | value => value

def itemRepresentatives : List Value → List Value
  | [] => []
  | item :: rest => representative item :: itemRepresentatives rest

def entryRepresentatives : List (String × Value) → List (String × Value)
  | [] => []
  | (key, value) :: rest => (key, representative value) :: entryRepresentatives rest

end

mutual

theorem same_iff_representative (a b : Value) :
    same a b = true ↔ a.representative = b.representative := by
  cases a with
  | undefined | null | bool _ | text _ => cases b <;> simp [same, representative]
  | number x =>
    cases b with
    | number y => simpa [same, representative] using Binary64.same_iff_representative
    | _ => simp [same, representative]
  | list as =>
    cases b with
    | list bs => simpa [same, representative] using sameItems_iff_representatives as bs
    | _ => simp [same, representative]
  | map as =>
    cases b with
    | map bs => simpa [same, representative] using sameEntries_iff_representatives as bs
    | _ => simp [same, representative]

theorem sameItems_iff_representatives (as bs : List Value) :
    sameItems as bs = true ↔ itemRepresentatives as = itemRepresentatives bs := by
  cases as with
  | nil => cases bs <;> simp [sameItems, itemRepresentatives]
  | cons a as =>
    cases bs with
    | nil => simp [sameItems, itemRepresentatives]
    | cons b bs =>
      simp [sameItems, itemRepresentatives, same_iff_representative a b,
        sameItems_iff_representatives as bs]

theorem sameEntries_iff_representatives (as bs : List (String × Value)) :
    sameEntries as bs = true ↔ entryRepresentatives as = entryRepresentatives bs := by
  cases as with
  | nil => cases bs <;> simp [sameEntries, entryRepresentatives]
  | cons a as =>
    cases bs with
    | nil => simp [sameEntries, entryRepresentatives]
    | cons b bs =>
      simp [sameEntries, entryRepresentatives, same_iff_representative a.2 b.2,
        sameEntries_iff_representatives as bs, and_assoc]

end

theorem same_symm {a b : Value} (agree : same a b = true) : same b a = true := by
  rw [same_iff_representative] at *
  exact agree.symm

theorem same_trans {a b c : Value} (first : same a b = true) (second : same b c = true) :
    same a c = true := by
  rw [same_iff_representative] at *
  exact first.trans second

/-- Agreement is an equivalence, that of having one representative. An observable that is set to
what it holds stays as it is and answers that nothing has changed; where observables are shared, no
subscriber is called. -/
theorem agreement_equivalence :
    (∀ a b : Value, (a == b) = true ↔ a.representative = b.representative) ∧
      (Equivalence fun a b : Value => (a == b) = true) ∧
      (∀ {β : Type} (o : Observable Value β), o.set o.value = (o, false)) ∧
      ∀ {σ : Type} (s : Observables Value σ) (handle index : Nat)
        (o : Observable Value (Subscriber Value σ)), s.locate? handle = some (index, o) →
          s.set handle o.value = (s.record (.set index o.value false), false, []) := by
  refine ⟨same_iff_representative, ⟨same_self, same_symm, same_trans⟩, ?_, ?_⟩
  · intro β o
    exact if_pos (same_self o.value)
  · intro σ s handle index o found
    exact Observables.set_of_same found (same_self o.value)

/-- Two encodings of no number and both zeros, below a list and a map. -/
theorem agreement_equivalence_nested :
    let a : Value := .list [.number .nan, .map [("n", .number .zero)]]
    let b : Value := .list [.number (.ofCode true 0x7ff0000000000001),
      .map [("n", .number .negativeZero)]]
    let s : Observables Value Unit := ({ memory := () } : Observables Value Unit).create a
    (a == b) = true ∧ (b == a) = true ∧ s.locate? 0 = some (0, { value := a }) ∧
      s.set 0 a = (s.record (.set 0 a false), false, []) := by
  intro a b s
  obtain ⟨-, equivalence, -, shared⟩ := agreement_equivalence
  have agree : (a == b) = true := by decide +kernel
  have found : s.locate? 0 = some (0, { value := a }) := rfl
  exact ⟨agree, equivalence.symm agree, found, shared s 0 0 { value := a } found⟩

end Value

end FormDependencies
