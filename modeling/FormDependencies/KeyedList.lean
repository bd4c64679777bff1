/-!
Lists of entries in ascending order of their keys, one entry for each key. Keys are compared by
code points.
-/

namespace FormDependencies

/-- A list of keys with their values. -/
abbrev KeyedList (α : Type) := List (String × α)

namespace KeyedList
variable {α : Type}

/-- Puts a value under a key, in place of the one it had. -/
def insert (key : String) (value : α) : KeyedList α → KeyedList α
  | [] => [(key, value)]
  | entry :: rest =>
    if key = entry.1 then (key, value) :: rest
    else if key < entry.1 then (key, value) :: entry :: rest
    else entry :: insert key value rest

def get? (entries : KeyedList α) (key : String) : Option α :=
  (entries.find? fun entry => entry.1 == key).map (·.2)

def contains (entries : KeyedList α) (key : String) : Bool :=
  entries.any fun entry => entry.1 == key

/-- Sorts entries by key; of several with one key the last stays. -/
def ofList (entries : List (String × α)) : KeyedList α :=
  entries.foldl (fun sorted entry => insert entry.1 entry.2 sorted) []

def Ascending (entries : KeyedList α) : Prop :=
  entries.Pairwise fun a b => a.1 < b.1

theorem get?_cons (entry : String × α) (rest : KeyedList α) (key : String) :
    get? (entry :: rest) key = if entry.1 = key then some entry.2 else get? rest key := by
  by_cases h : entry.1 = key <;> simp [get?, h]

theorem get?_insert (entries : KeyedList α) (key other : String) (value : α) :
    get? (insert key value entries) other =
      if key = other then some value else get? entries other := by
  induction entries with
  | nil => simp [insert, get?_cons]
  | cons entry rest ih =>
    unfold insert
    split
    · next h => subst h; by_cases h : entry.1 = other <;> simp [get?_cons, h]
    · split
      · simp [get?_cons]
      · next h _ =>
        rw [get?_cons, get?_cons, ih]
        by_cases h' : entry.1 = other
        · simp [h', show key ≠ other from fun e => h (e.trans h'.symm)]
        · simp [h']

theorem eq_or_mem_of_mem_insert {entries : KeyedList α} {key : String} {value : α}
    {entry : String × α} (h : entry ∈ insert key value entries) :
    entry = (key, value) ∨ entry ∈ entries := by
  induction entries with
  | nil => simpa [insert] using h
  | cons first rest ih =>
    unfold insert at h
    split at h
    · rcases List.mem_cons.mp h with h | h
      · exact .inl h
      · exact .inr (List.mem_cons_of_mem _ h)
    · split at h
      · exact List.mem_cons.mp h
      · rcases List.mem_cons.mp h with h | h
        · exact .inr (h ▸ List.mem_cons_self)
        · exact (ih h).imp_right (List.mem_cons_of_mem _)

theorem Ascending.insert {entries : KeyedList α} (h : Ascending entries) (key : String)
    (value : α) : Ascending (insert key value entries) := by
  induction entries with
  | nil => exact List.pairwise_singleton ..
  | cons first rest ih =>
    obtain ⟨below, ascending⟩ := List.pairwise_cons.mp h
    unfold KeyedList.insert
    split
    · next eq => exact List.pairwise_cons.mpr ⟨fun b hb => eq ▸ below b hb, ascending⟩
    · split
      · next lt =>
        refine List.pairwise_cons.mpr ⟨fun b hb => ?_, h⟩
        rcases List.mem_cons.mp hb with rfl | hb
        · exact lt
        · exact String.lt_trans lt (below b hb)
      · next ne not_lt =>
        refine List.pairwise_cons.mpr ⟨fun b hb => ?_, ih ascending⟩
        rcases eq_or_mem_of_mem_insert hb with rfl | hb
        · refine Decidable.byContradiction fun h => ne ?_
          exact String.le_antisymm (String.not_lt.mp h) (String.not_lt.mp not_lt)
        · exact below b hb

theorem ascending_ofList (entries : List (String × α)) : Ascending (ofList entries) := by
  suffices ∀ sorted : KeyedList α, Ascending sorted →
      Ascending (entries.foldl (fun sorted entry => insert entry.1 entry.2 sorted) sorted) from
    this [] List.Pairwise.nil
  induction entries with
  | nil => exact fun _ h => h
  | cons entry rest ih => exact fun sorted h => ih _ (h.insert entry.1 entry.2)

theorem perm_insert {entries : KeyedList α} {key : String}
    (fresh : ∀ entry ∈ entries, entry.1 ≠ key) (value : α) :
    (insert key value entries).Perm ((key, value) :: entries) := by
  induction entries with
  | nil => exact .refl _
  | cons first rest ih =>
    obtain ⟨other, fresh⟩ := List.forall_mem_cons.mp fresh
    rw [insert, if_neg (Ne.symm other)]
    split
    · exact .refl _
    · exact ((ih fresh).cons first).trans (.swap _ _ _)

theorem Ascending.nodup_keys {entries : KeyedList α} (h : Ascending entries) :
    (entries.map (·.1)).Nodup := by
  refine List.pairwise_map.mpr (h.imp ?_)
  intro a b below same
  rw [same] at below
  exact String.lt_irrefl _ below

/-- Where no two entries have one key, every entry is found under its own. -/
theorem get?_of_mem {entries : KeyedList α} (distinct : (entries.map (·.1)).Nodup) {key : String}
    {value : α} (mem : (key, value) ∈ entries) : get? entries key = some value := by
  induction entries with
  | nil => exact absurd mem List.not_mem_nil
  | cons first rest ih =>
    obtain ⟨fresh, distinct⟩ := List.nodup_cons.mp distinct
    rw [get?_cons]
    rcases List.mem_cons.mp mem with rfl | mem
    · exact if_pos rfl
    · have other : first.1 ≠ key := fun same => fresh (List.mem_map.mpr ⟨_, mem, same.symm⟩)
      rw [if_neg other, ih distinct mem]

theorem perm_ofList {entries : List (String × α)} (distinct : (entries.map (·.1)).Nodup) :
    (ofList entries).Perm entries := by
  suffices ∀ sorted : KeyedList α, ((entries ++ sorted).map (·.1)).Nodup →
      (entries.foldl (fun sorted entry => insert entry.1 entry.2 sorted) sorted).Perm
        (entries ++ sorted) by
    simpa [ofList] using this [] (by simpa using distinct)
  clear distinct
  induction entries with
  | nil => exact fun _ _ => .refl _
  | cons entry rest ih =>
    intro sorted distinct
    have fresh : ∀ other ∈ rest ++ sorted, other.1 ≠ entry.1 := fun other mem same =>
      (List.nodup_cons.mp distinct).1 (List.mem_map.mpr ⟨other, mem, same⟩)
    have inserted : (insert entry.1 entry.2 sorted).Perm (entry :: sorted) :=
      perm_insert (fun other mem => fresh other (List.mem_append_right _ mem)) entry.2
    have moved : (rest ++ insert entry.1 entry.2 sorted).Perm (entry :: (rest ++ sorted)) :=
      (inserted.append_left rest).trans List.perm_middle
    exact (ih _ ((moved.map _).nodup_iff.mpr distinct)).trans moved

/-- What is in ascending order is found again from its entries in any order. -/
theorem ofList_eq_of_perm {entries : List (String × α)} {sorted : KeyedList α}
    (ascending : Ascending sorted) (perm : entries.Perm sorted) : ofList entries = sorted := by
  have distinct := (perm.map Prod.fst).nodup_iff.mpr ascending.nodup_keys
  have same := (perm_ofList distinct).trans perm
  refine same.eq_of_pairwise (fun a b _ _ below above => ?_) (ascending_ofList entries) ascending
  exact absurd (String.lt_trans below above) (String.lt_irrefl _)

end KeyedList

end FormDependencies
