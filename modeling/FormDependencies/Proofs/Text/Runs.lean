import FormDependencies.Text.Blank

/-!
Readers take the longest run of characters of a kind. What they take and what they leave is known
once the text is given as a run and a rest that begins with another kind of character.
-/

namespace FormDependencies

theorem bind_eq_ok {ε α β : Type} {first : Except ε α} {then_ : α → Except ε β} {b : β} :
    first >>= then_ = .ok b ↔ ∃ a, first = .ok a ∧ then_ a = .ok b := by
  cases first with
  | error e => simp [bind, Except.bind]
  | ok a => simp [bind, Except.bind]

theorem bind_eq_error {ε α β : Type} {first : Except ε α} {then_ : α → Except ε β} {e : ε} :
    first >>= then_ = .error e ↔ first = .error e ∨ ∃ a, first = .ok a ∧ then_ a = .error e := by
  cases first <;> simp [bind, Except.bind]

theorem bind_congr_ok {ε α β : Type} {first : Except ε α} {then_ then' : α → Except ε β}
    (same : ∀ a, first = .ok a → then_ a = then' a) : first >>= then_ = first >>= then' := by
  cases first with
  | error e => rfl
  | ok a => exact same a rfl

namespace Text

section
variable {c : Char}

theorem isUpper_iff : c.isUpper = true ↔ 65 ≤ c.toNat ∧ c.toNat ≤ 90 :=
  decide_eq_true_iff

theorem isLower_iff : c.isLower = true ↔ 97 ≤ c.toNat ∧ c.toNat ≤ 122 :=
  Bool.and_eq_true_iff.trans (and_congr decide_eq_true_iff decide_eq_true_iff)

theorem isDigit_iff : c.isDigit = true ↔ 48 ≤ c.toNat ∧ c.toNat ≤ 57 :=
  Bool.and_eq_true_iff.trans (and_congr decide_eq_true_iff decide_eq_true_iff)

theorem isAlphanum_iff :
    c.isAlphanum = true ↔ (c.isUpper = true ∨ c.isLower = true) ∨ c.isDigit = true :=
  Bool.or_eq_true_iff.trans (or_congr_left Bool.or_eq_true_iff)

theorem toLower_eq_self (lower : c.isUpper = false) : c.toLower = c :=
  dif_neg (of_decide_eq_false lower)

theorem isBlank_eq_false (above : 0x20 < c.toNat) (below : c.toNat < 0x7F) :
    isBlank c = false := by
  simp only [isBlank, Bool.or_eq_false_iff, Bool.and_eq_false_iff, decide_eq_false_iff_not,
    beq_eq_false_iff_ne]
  omega

end

theorem forall_eq_false {p : Char → Bool} {cs : List Char} (none : cs.any p = false) :
    ∀ c ∈ cs, p c = false := by
  simpa using none

/-- Whether a text ends or goes on with a character of another kind. -/
def Stops (p : Char → Bool) (cs : List Char) : Prop :=
  ∀ c ∈ cs.head?, p c = false

section
variable {p : Char → Bool} {run rest : List Char}

theorem stops_nil : Stops p [] := fun _ mem => absurd mem (by simp)

theorem stops_cons {c : Char} (other : p c = false) : Stops p (c :: rest) := by
  intro d first
  obtain rfl : c = d := by simpa using first
  exact other

theorem Stops.append {front : List Char} (other : ∀ c ∈ front, p c = false) (h : Stops p rest) :
    Stops p (front ++ rest) := by
  cases front with
  | nil => exact h
  | cons c front => exact stops_cons (other c List.mem_cons_self)

theorem stops_dropWhile (p : Char → Bool) (cs : List Char) : Stops p (cs.dropWhile p) := by
  intro c first
  have first' := List.head?_dropWhile_not p cs
  rw [Option.mem_def.mp first] at first'
  exact first'

theorem takeWhile_run (all : ∀ c ∈ run, p c = true) (stop : Stops p rest) :
    (run ++ rest).takeWhile p = run := by
  rw [List.takeWhile_append_of_pos all]
  cases rest with
  | nil => simp
  | cons c rest => simp [stop c rfl]

theorem dropWhile_run (all : ∀ c ∈ run, p c = true) (stop : Stops p rest) :
    (run ++ rest).dropWhile p = rest := by
  rw [List.dropWhile_append_of_pos all]
  cases rest with
  | nil => rfl
  | cons c rest => simp [stop c rfl]

end

def Blank (cs : List Char) : Prop :=
  ∀ c ∈ cs, isBlank c = true

theorem blank_nil : Blank [] := fun _ mem => absurd mem List.not_mem_nil

theorem Blank.append {cs ds : List Char} (h : Blank cs) (h' : Blank ds) : Blank (cs ++ ds) :=
  fun c mem => (List.mem_append.mp mem).elim (h c) (h' c)

theorem blank_takeWhile (cs : List Char) : Blank (cs.takeWhile isBlank) := by
  intro c mem
  exact List.all_eq_true.mp List.all_takeWhile c mem

theorem blank_of_trimChars {cs : List Char} (empty : trimChars cs = []) : Blank cs := by
  have whole := List.takeWhile_append_dropWhile (p := isBlank) (l := cs)
  cases left : cs.dropWhile isBlank with
  | nil =>
    rw [left, List.append_nil] at whole
    exact whole ▸ blank_takeWhile cs
  | cons c rest =>
    have solid : isBlank c = false := stops_dropWhile isBlank cs c (by rw [left]; rfl)
    have back : (c :: rest).reverse.dropWhile isBlank = [] := by
      simpa only [trimChars, dropWhileEnd, left, List.reverse_eq_nil_iff] using empty
    have all := List.takeWhile_append_dropWhile (p := isBlank) (l := (c :: rest).reverse)
    rw [back, List.append_nil] at all
    have blank := blank_takeWhile (c :: rest).reverse
    rw [all] at blank
    rw [blank c (List.mem_reverse.mpr List.mem_cons_self)] at solid
    cases solid

structure Solid (cs : List Char) : Prop where
  nonempty : cs ≠ []
  first : Stops isBlank cs
  last : Stops isBlank cs.reverse

section
variable {cs rest : List Char}

theorem solid_of_forall (some : cs ≠ []) (all : ∀ c ∈ cs, isBlank c = false) : Solid cs where
  nonempty := some
  first := by simpa using Stops.append all stops_nil
  last := by
    have all' : ∀ c ∈ cs.reverse, isBlank c = false := by simpa using all
    simpa using Stops.append all' stops_nil

theorem Solid.append (h : Solid cs) (h' : Solid rest) (middle : List Char) :
    Solid (cs ++ middle ++ rest) where
  nonempty := by simp [h.nonempty]
  first := by
    obtain ⟨c, cs, rfl⟩ := List.exists_cons_of_ne_nil h.nonempty
    exact h.first
  last := by
    obtain ⟨c, back, same⟩ :=
      List.exists_cons_of_ne_nil (List.reverse_ne_nil_iff.mpr h'.nonempty)
    have last := h'.last
    rw [List.reverse_append, same] at *
    exact last

/-- Trimming takes exactly the blank characters around a solid text. -/
theorem trimChars_append {before core after : List Char} (leading : Blank before)
    (solid : Solid core) (trailing : Blank after) :
    trimChars (before ++ core ++ after) = core := by
  have front : (before ++ core ++ after).dropWhile isBlank = core ++ after := by
    rw [List.append_assoc]
    apply dropWhile_run leading
    obtain ⟨c, cs, rfl⟩ := List.exists_cons_of_ne_nil solid.nonempty
    exact solid.first
  have back : (core ++ after).reverse.dropWhile isBlank = core.reverse := by
    rw [List.reverse_append]
    exact dropWhile_run (fun c mem => trailing c (List.mem_reverse.mp mem)) solid.last
  rw [trimChars, dropWhileEnd, front, back, List.reverse_reverse]

theorem Solid.trimChars_eq (h : Solid cs) : trimChars cs = cs := by
  simpa using trimChars_append blank_nil h blank_nil

end

end Text

end FormDependencies
