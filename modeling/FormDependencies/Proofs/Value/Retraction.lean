import FormDependencies.Proofs.Value.Same

/-!
A value turned into JSON and back. Undefined and the numbers that are not finite come back as null,
wherever they stand, and all else comes back as it was: the items of a list in their places, the
entries of a map under their keys. So a value without them comes back itself, and to turn a value
into JSON and back once more changes nothing.
-/

namespace FormDependencies.Value

mutual

/-- The value with null in place of what JSON cannot express. -/
def withNulls : Value → Value
  | .undefined => .null
  | .number n => if n.isFinite then .number n else .null
  | .list items => .list (itemsWithNulls items)
  | .map entries => .map (entriesWithNulls entries)
  | value => value

def itemsWithNulls : List Value → List Value
  | [] => []
  | item :: rest => withNulls item :: itemsWithNulls rest

def entriesWithNulls : List (String × Value) → List (String × Value)
  | [] => []
  | (key, value) :: rest => (key, withNulls value) :: entriesWithNulls rest

end

theorem itemsWithNulls_eq_map (items : List Value) :
    itemsWithNulls items = items.map withNulls := by
  induction items with
  | nil => rfl
  | cons item rest ih => simp [itemsWithNulls, ih]

theorem entriesWithNulls_eq_map (entries : List (String × Value)) :
    entriesWithNulls entries = entries.map fun entry => (entry.1, entry.2.withNulls) := by
  induction entries with
  | nil => rfl
  | cons entry rest ih => simp [entriesWithNulls, ih]

inductive Part (part : Value) : Value → Prop
  | self : Part part part
  | item {item : Value} {items : List Value} : item ∈ items → Part part item →
      Part part (.list items)
  | entry {entry : String × Value} {entries : List (String × Value)} : entry ∈ entries →
      Part part entry.2 → Part part (.map entries)

def Inexpressible (value : Value) : Prop :=
  value = .undefined ∨ ∃ n, value = .number n ∧ n.isFinite = false

def Expressible (value : Value) : Prop :=
  ∀ part, Part part value → ¬part.Inexpressible

def Ordered (value : Value) : Prop :=
  ∀ entries, Part (.map entries) value → KeyedList.Ascending entries

/-! ## To JSON and back -/

mutual

theorem ofJson_toJson_eq (value : Value) : ofJson value.toJson = value.withNulls := by
  cases value with
  | undefined | null | bool _ | text _ => rfl
  | number n =>
    cases finite : n.isFinite <;> simp [toJson, withNulls, ofJson, finite]
  | list items => simp only [toJson, ofJson, withNulls, itemsOfJson_itemsToJson items]
  | map entries => simp only [toJson, ofJson, withNulls, entriesOfJson_entriesToJson entries]

theorem itemsOfJson_itemsToJson (items : List Value) :
    itemsOfJson (itemsToJson items) = itemsWithNulls items := by
  cases items with
  | nil => rfl
  | cons item rest =>
    simp only [itemsToJson, itemsOfJson, itemsWithNulls, ofJson_toJson_eq item,
      itemsOfJson_itemsToJson rest]

theorem entriesOfJson_entriesToJson (entries : List (String × Value)) :
    entriesOfJson (entriesToJson entries) = entriesWithNulls entries := by
  cases entries with
  | nil => rfl
  | cons entry rest =>
    simp only [entriesToJson, entriesOfJson, entriesWithNulls, ofJson_toJson_eq entry.2,
      entriesOfJson_entriesToJson rest]

end

mutual

/-- What null is put in place of is written as null. -/
theorem toJson_withNulls (value : Value) : value.withNulls.toJson = value.toJson := by
  cases value with
  | undefined | null | bool _ | text _ => rfl
  | number n =>
    cases finite : n.isFinite <;> simp [toJson, withNulls, finite]
  | list items => simp only [toJson, withNulls, itemsToJson_itemsWithNulls items]
  | map entries => simp only [toJson, withNulls, entriesToJson_entriesWithNulls entries]

theorem itemsToJson_itemsWithNulls (items : List Value) :
    itemsToJson (itemsWithNulls items) = itemsToJson items := by
  cases items with
  | nil => rfl
  | cons item rest =>
    simp only [itemsToJson, itemsWithNulls, toJson_withNulls item, itemsToJson_itemsWithNulls rest]

theorem entriesToJson_entriesWithNulls (entries : List (String × Value)) :
    entriesToJson (entriesWithNulls entries) = entriesToJson entries := by
  cases entries with
  | nil => rfl
  | cons entry rest =>
    simp only [entriesToJson, entriesWithNulls, toJson_withNulls entry.2,
      entriesToJson_entriesWithNulls rest]

end

/-! ## What comes back itself -/

section
variable {value : Value}

theorem Expressible.item {items : List Value} (h : Expressible (.list items)) {item : Value}
    (mem : item ∈ items) : item.Expressible :=
  fun part within => h part (.item mem within)

theorem Expressible.entry {entries : List (String × Value)} (h : Expressible (.map entries))
    {entry : String × Value} (mem : entry ∈ entries) : entry.2.Expressible :=
  fun part within => h part (.entry mem within)

theorem withNulls_of_inexpressible (lost : value.Inexpressible) : value.withNulls = .null := by
  rcases lost with rfl | ⟨n, rfl, infinite⟩
  · rfl
  · simp [withNulls, infinite]

end

mutual

theorem withNulls_of_expressible {value : Value} (h : value.Expressible) :
    value.withNulls = value := by
  cases value with
  | undefined => exact absurd (.inl rfl) (h _ .self)
  | null | bool _ | text _ => rfl
  | number n =>
    cases finite : n.isFinite with
    | true => simp [withNulls, finite]
    | false => exact absurd (.inr ⟨n, rfl, finite⟩) (h _ .self)
  | list items =>
    exact congrArg Value.list (itemsWithNulls_of_expressible fun item mem => h.item mem)
  | map entries =>
    exact congrArg Value.map (entriesWithNulls_of_expressible fun entry mem => h.entry mem)

theorem itemsWithNulls_of_expressible {items : List Value}
    (h : ∀ item ∈ items, item.Expressible) : itemsWithNulls items = items := by
  cases items with
  | nil => rfl
  | cons item rest =>
    obtain ⟨first, others⟩ := List.forall_mem_cons.mp h
    rw [itemsWithNulls, withNulls_of_expressible first, itemsWithNulls_of_expressible others]

theorem entriesWithNulls_of_expressible {entries : List (String × Value)}
    (h : ∀ entry ∈ entries, entry.2.Expressible) : entriesWithNulls entries = entries := by
  cases entries with
  | nil => rfl
  | cons entry rest =>
    obtain ⟨first, others⟩ := List.forall_mem_cons.mp h
    rw [entriesWithNulls, withNulls_of_expressible first, entriesWithNulls_of_expressible others]

end

theorem same_of_mem_items {items : List Value}
    (agree : sameItems (itemsWithNulls items) items = true) {item : Value} (mem : item ∈ items) :
    same item.withNulls item = true := by
  induction items with
  | nil => cases mem
  | cons first rest ih =>
    obtain ⟨own, others⟩ := Bool.and_eq_true_iff.mp agree
    rcases List.mem_cons.mp mem with rfl | mem
    · exact own
    · exact ih others mem

theorem same_of_mem_entries {entries : List (String × Value)}
    (agree : sameEntries (entriesWithNulls entries) entries = true) {entry : String × Value}
    (mem : entry ∈ entries) : same entry.2.withNulls entry.2 = true := by
  induction entries with
  | nil => cases mem
  | cons first rest ih =>
    obtain ⟨own, others⟩ := Bool.and_eq_true_iff.mp agree
    rcases List.mem_cons.mp mem with rfl | mem
    · exact (Bool.and_eq_true_iff.mp own).2
    · exact ih others mem

/-- Null agrees with nothing that JSON cannot express, so the value must agree part by part. -/
theorem expressible_of_same {value : Value} (agree : same value.withNulls value = true) :
    value.Expressible := by
  intro part within lost
  induction within with
  | self =>
    rw [withNulls_of_inexpressible lost] at agree
    rcases lost with rfl | ⟨n, rfl, infinite⟩
    · cases agree
    · cases agree
  | item mem _ ih => exact ih (same_of_mem_items agree mem)
  | entry mem _ ih => exact ih (same_of_mem_entries agree mem)

/-! ## Order of keys -/

theorem eq_list_of_withNulls {value : Value} {items : List Value}
    (replaced : value.withNulls = .list items) :
    ∃ originals, value = .list originals ∧ items = originals.map withNulls := by
  cases value with
  | list originals =>
    rw [withNulls, itemsWithNulls_eq_map, Value.list.injEq] at replaced
    exact ⟨originals, rfl, replaced.symm⟩
  | number n => cases finite : n.isFinite <;> simp [withNulls, finite] at replaced
  | _ => simp [withNulls] at replaced

theorem eq_map_of_withNulls {value : Value} {entries : List (String × Value)}
    (replaced : value.withNulls = .map entries) :
    ∃ originals, value = .map originals ∧
      entries = originals.map fun entry => (entry.1, entry.2.withNulls) := by
  cases value with
  | map originals =>
    rw [withNulls, entriesWithNulls_eq_map, Value.map.injEq] at replaced
    exact ⟨originals, rfl, replaced.symm⟩
  | number n => cases finite : n.isFinite <;> simp [withNulls, finite] at replaced
  | _ => simp [withNulls] at replaced

theorem exists_part_of_part_withNulls {part value : Value} (within : Part part value.withNulls) :
    ∃ origin, Part origin value ∧ part = origin.withNulls := by
  generalize replaced : value.withNulls = whole at within
  induction within generalizing value with
  | self => exact ⟨value, .self, replaced.symm⟩
  | item mem _ ih =>
    obtain ⟨originals, rfl, rfl⟩ := eq_list_of_withNulls replaced
    obtain ⟨original, here, same⟩ := List.mem_map.mp mem
    obtain ⟨origin, stands, rfl⟩ := ih same
    exact ⟨origin, .item here stands, rfl⟩
  | entry mem _ ih =>
    obtain ⟨originals, rfl, rfl⟩ := eq_map_of_withNulls replaced
    obtain ⟨original, here, same⟩ := List.mem_map.mp mem
    obtain ⟨origin, stands, rfl⟩ := ih (congrArg Prod.snd same)
    exact ⟨origin, .entry here stands, rfl⟩

theorem ordered_withNulls {value : Value} (ordered : value.Ordered) : value.withNulls.Ordered := by
  intro entries within
  obtain ⟨origin, stands, same⟩ := exists_part_of_part_withNulls within
  obtain ⟨originals, rfl, rfl⟩ := eq_map_of_withNulls same.symm
  exact List.pairwise_map.mpr (ordered originals stands)

/-- To JSON and back, a value becomes the one with null for all that JSON cannot express, and maps
keep the order of their keys. It comes back itself exactly when nothing in it is of that kind, and
what has come back once comes back itself. -/
theorem ofJson_toJson_retraction (value : Value) :
    ofJson value.toJson = value.withNulls ∧
      ((ofJson value.toJson == value) = true ↔ value.Expressible) ∧
      (ofJson value.toJson = value ↔ value.Expressible) ∧
      ofJson (ofJson value.toJson).toJson = ofJson value.toJson ∧
      (value.Ordered → (ofJson value.toJson).Ordered) := by
  rw [ofJson_toJson_eq, toJson_withNulls, ofJson_toJson_eq]
  refine ⟨rfl, ⟨expressible_of_same, fun h => ?_⟩, ⟨fun same => ?_, withNulls_of_expressible⟩, rfl,
    ordered_withNulls⟩
  · rw [withNulls_of_expressible h]
    exact same_self value
  · apply expressible_of_same
    rw [same]
    exact same_self value

/-- A list that holds undefined and a map, in which one of two numbers is not finite. -/
theorem ofJson_toJson_retraction_nested :
    let value : Value := .list [.undefined, .map [("a", .number .infinity), ("b", .number .zero)]]
    value.Ordered ∧
      ofJson value.toJson = .list [.null, .map [("a", .null), ("b", .number .zero)]] ∧
      ¬value.Expressible ∧ (ofJson value.toJson).Ordered := by
  intro value
  obtain ⟨replaced, -, -, -, sorted⟩ := ofJson_toJson_retraction value
  have result : value.withNulls = .list [.null, .map [("a", .null), ("b", .number .zero)]] := by
    have infinite : Binary64.infinity.isFinite = false := by decide +kernel
    have finite : Binary64.zero.isFinite = true := by decide +kernel
    simp [value, withNulls, itemsWithNulls, entriesWithNulls, infinite, finite]
  have ordered : value.Ordered := by
    intro entries within
    unfold value at within
    cases within with
    | item mem within =>
      simp only [List.mem_cons, List.not_mem_nil, or_false] at mem
      rcases mem with rfl | rfl
      · cases within
      · cases within with
        | self => exact List.pairwise_pair.mpr (by decide +kernel)
        | entry mem within =>
          simp only [List.mem_cons, List.not_mem_nil, or_false] at mem
          rcases mem with rfl | rfl <;> cases within
  refine ⟨ordered, replaced.trans result, fun expressible => ?_, sorted ordered⟩
  exact expressible .undefined (.item List.mem_cons_self .self) (.inl rfl)

end FormDependencies.Value
