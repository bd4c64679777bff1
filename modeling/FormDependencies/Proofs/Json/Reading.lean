import FormDependencies.Json.Reader
import FormDependencies.Proofs.Json.Grammar

/-!
What the grammar of JSON derives is read, and read as it is divided. Each reader takes all of a
text of its rule when what comes next cannot belong to it. The count that bounds the recursion is
never used up: every rule that takes two steps takes a character.
-/

namespace FormDependencies.JsonGrammar

open JsonText
open Decimal (Digits)
open FormDependencies.Text (Stops forall_eq_false stops_cons takeWhile_run dropWhile_run)

variable {cs rest : List Char}

/-! ## White space -/

theorem isSpace_iff {c : Char} : isSpace c = true ↔ c ∈ [' ', '\t', '\n', '\r'] := by
  simp [isSpace, or_assoc]

theorem Space.isSpace (h : Space cs) : ∀ c ∈ cs, isSpace c = true :=
  fun c mem => isSpace_iff.mpr (h c mem)

theorem skipSpace_append (h : Space cs) (stop : Stops isSpace rest) :
    skipSpace (cs ++ rest) = rest :=
  dropWhile_run h.isSpace stop

theorem skipSpace_eq (stop : Stops isSpace rest) : skipSpace rest = rest :=
  skipSpace_append space_nil stop

theorem skipSpace_cons {c : Char} (solid : isSpace c = false) (cs : List Char) :
    skipSpace (c :: cs) = c :: cs :=
  skipSpace_eq (stops_cons solid)

theorem skipSpace_skipSpace (cs : List Char) : skipSpace (skipSpace cs) = skipSpace cs :=
  skipSpace_eq (FormDependencies.Text.stops_dropWhile isSpace cs)

/-! ## Numbers -/

/-- What may come after a value. -/
def Ends (cs : List Char) : Prop :=
  ∀ c ∈ cs.head?, c ∈ [' ', '\t', '\n', '\r', ',', ']', '\x7d']

theorem Ends.stops (h : Ends rest) {p : Char → Bool}
    (other : [' ', '\t', '\n', '\r', ',', ']', '\x7d'].any p = false) : Stops p rest :=
  fun c first => forall_eq_false other c (h c first)

theorem digits?_complete (some : cs ≠ []) (all : Digits cs) (stop : Stops Char.isDigit rest) :
    digits? (cs ++ rest) = .some (cs, rest) := by
  simp [digits?, takeWhile_run all stop, dropWhile_run all stop, some]

theorem Exponent.stops {exponent : Option (Bool × List Char)} (h : Exponent cs exponent)
    (ends : Ends rest) : Stops (fun c => c.isDigit || c == '.') (cs ++ rest) := by
  cases h with
  | absent => exact ends.stops (by decide)
  | given isLetter => rcases isLetter with rfl | rfl <;> exact stops_cons rfl

theorem Fraction.stops {fraction : Option (List Char)} (h : Fraction cs fraction)
    (stop : Stops (fun c => c.isDigit || c == '.') rest) : Stops Char.isDigit (cs ++ rest) := by
  cases h with
  | absent => exact fun c first => (Bool.or_eq_false_iff.mp (stop c first)).1
  | given => exact stops_cons rfl

theorem whole?_complete (h : Whole cs) (stop : Stops Char.isDigit rest) :
    whole? (cs ++ rest) = some (cs, rest) := by
  cases h with
  | zero => rfl
  | digits other all =>
    have read := digits?_complete (List.cons_ne_nil _ _) all stop
    unfold whole?
    split
    · next same => exact absurd (List.cons.inj same).1 other
    · exact read

theorem fraction?_complete {fraction : Option (List Char)} (h : Fraction cs fraction)
    (stop : Stops (fun c => c.isDigit || c == '.') rest) :
    fraction? (cs ++ rest) = some (fraction, rest) := by
  cases h with
  | absent =>
    unfold fraction?
    split
    · next same => cases stop '.' (by rw [← List.nil_append rest, same]; rfl)
    · rfl
  | given some all =>
    have noDigit : Stops Char.isDigit rest :=
      fun c first => (Bool.or_eq_false_iff.mp (stop c first)).1
    simp [fraction?, digits?_complete some all noDigit]

theorem exponentRest?_complete {sign digits : List Char} {negative : Bool}
    (signed : Sign sign negative) (some : digits ≠ []) (all : Digits digits)
    (stop : Stops Char.isDigit rest) :
    exponentRest? (sign ++ digits ++ rest) = .some (.some (negative, digits), rest) := by
  have read := digits?_complete some all stop
  cases signed with
  | absent =>
    obtain ⟨c, cs, rfl⟩ := List.exists_cons_of_ne_nil some
    have digit := all c List.mem_cons_self
    unfold exponentRest?
    split
    next negative ds same =>
    split at same
    · next first => obtain ⟨rfl, -⟩ := List.cons.inj first; cases digit
    · next first => obtain ⟨rfl, -⟩ := List.cons.inj first; cases digit
    · cases same
      exact congrArg (Option.map _) read
  | plus => exact congrArg (Option.map _) read
  | minus => exact congrArg (Option.map _) read

theorem exponent?_complete {exponent : Option (Bool × List Char)} (h : Exponent cs exponent)
    (ends : Ends rest) : exponent? (cs ++ rest) = some (exponent, rest) := by
  cases h with
  | absent =>
    have stop : Stops (fun c => c == 'e' || c == 'E') rest := ends.stops (by decide)
    unfold exponent?
    split
    · next same => cases stop 'e' (by rw [← List.nil_append rest, same]; rfl)
    · next same => cases stop 'E' (by rw [← List.nil_append rest, same]; rfl)
    · rfl
  | given isLetter signed some all =>
    have read := exponentRest?_complete signed some all (ends.stops (by decide))
    rcases isLetter with rfl | rfl
    · exact read
    · exact read

theorem Whole.exists_cons (h : Whole cs) : ∃ c ds, cs = c :: ds ∧ c.isDigit = true := by
  cases h with
  | zero => exact ⟨'0', [], rfl, rfl⟩
  | @digits c ds other all => exact ⟨c, ds, rfl, all c List.mem_cons_self⟩

theorem Magnitude.exists_cons {negative : Bool} {n : JsonNumber} (h : Magnitude cs negative n) :
    ∃ c ds, cs = c :: ds ∧ c.isDigit = true := by
  cases h with
  | mk whole =>
    obtain ⟨c, ds, rfl, digit⟩ := whole.exists_cons
    exact ⟨c, _, rfl, digit⟩

/-- Reading a number after its sign. -/
theorem magnitude_complete {negative : Bool} {n : JsonNumber} (h : Magnitude cs negative n)
    (ends : Ends rest) :
    (do
      let (whole, cs) ← whole? (cs ++ rest)
      let (fraction, cs) ← fraction? cs
      let (exponent, cs) ← exponent? cs
      return (⟨negative, whole, fraction, exponent⟩, cs)) = some (n, rest) := by
  cases h with
  | mk whole fraction exponent =>
    have noPoint := exponent.stops ends
    rw [List.append_assoc, List.append_assoc]
    simp only [whole?_complete whole (fraction.stops noPoint), fraction?_complete fraction noPoint,
      exponent?_complete exponent ends, bind, Option.bind, pure]

theorem number?_complete {n : JsonNumber} (h : Number cs n) (ends : Ends rest) :
    number? (cs ++ rest) = some (n, rest) := by
  cases h with
  | plain magnitude =>
    have read := magnitude_complete magnitude ends
    obtain ⟨c, ds, rfl, digit⟩ := magnitude.exists_cons
    unfold number?
    split
    next negative ds' same =>
    split at same
    · next first => obtain ⟨rfl, -⟩ := List.cons.inj first; cases digit
    · cases same
      exact read
  | negative magnitude => exact magnitude_complete magnitude ends

/-! ## Strings -/

theorem hexValue?_complete {c : Char} {n : Nat} (h : Hex c n) : hexValue? c = some n := by
  obtain ⟨small, rfl | rfl⟩ := h
  · decide +revert
  · decide +revert

theorem escaped?_complete {letter c : Char} (mem : (letter, c) ∈ escapes) :
    letter ≠ 'u' ∧ escaped? letter = some c := by
  have all : (escapes.all fun entry => entry.1 != 'u' && escaped? entry.1 == some entry.2) =
      true := by decide
  simpa using List.all_eq_true.mp all _ mem

theorem stringRest?_append {part : JsonStringPart} (h : Part cs part) {parts : List JsonStringPart}
    {behind : List Char} (read : stringRest? rest = some (parts, behind)) :
    stringRest? (cs ++ rest) = some (part :: parts, behind) := by
  cases h with
  | plain above quote backslash =>
    have printable := Nat.not_lt.mpr above
    simp [stringRest?, printable, backslash, read]
  | escape mem =>
    obtain ⟨other, meant⟩ := escaped?_complete mem
    simp [stringRest?, other, meant, read]
  | unit a b c d =>
    simp [stringRest?, hexUnit?, hexValue?_complete a, hexValue?_complete b, hexValue?_complete c,
      hexValue?_complete d, read]

theorem stringRest?_complete {parts : List JsonStringPart} (h : Parts cs parts)
    (rest : List Char) : stringRest? (cs ++ '"' :: rest) = some (parts, rest) := by
  induction h with
  | nil => simp [stringRest?]
  | cons part _ ih =>
    rw [List.append_assoc]
    exact stringRest?_append part ih

theorem string?_complete {parts : List JsonStringPart} (h : Quoted cs parts) (rest : List Char) :
    string? (cs ++ rest) = some (parts, rest) := by
  cases h with
  | mk parts => simpa [string?] using stringRest?_complete parts rest

/-! ## What strings denote -/

theorem decodeParts?_unit {n : Nat} (plain : n < 0xD800 ∨ 0xDFFF < n)
    (parts : List JsonStringPart) :
    decodeParts? (.unit n :: parts) = (decodeParts? parts).map (Char.ofNat n :: ·) := by
  have noHigh : ¬ (0xD800 ≤ n ∧ n ≤ 0xDBFF) := by omega
  have noLow : ¬ (0xDC00 ≤ n ∧ n ≤ 0xDFFF) := by omega
  have neither : ¬ (0xD800 ≤ n ∧ n ≤ 0xDFFF) := by omega
  cases parts with
  | nil => simp [decodeParts?, neither]
  | cons part rest =>
    cases part with
    | char => simp [decodeParts?, neither]
    | unit => rw [decodeParts?, if_neg noHigh, if_neg noLow]

theorem decodeParts?_complete {parts : List JsonStringPart} (h : Denotes parts cs) :
    decodeParts? parts = some cs := by
  induction h with
  | nil => rfl
  | char _ ih => simp [decodeParts?, ih]
  | @unit c parts cs small rest ih =>
    have plain : c.toNat < 0xD800 ∨ 0xDFFF < c.toNat := c.valid.imp id And.left
    rw [decodeParts?_unit plain, ih, Char.ofNat_toNat, Option.map_some]
  | @pair c high low parts cs high' low' code rest ih =>
    have isHigh : 0xD800 ≤ 0xD800 + high ∧ 0xD800 + high ≤ 0xDBFF := by omega
    have isLow : 0xDC00 ≤ 0xDC00 + low ∧ 0xDC00 + low ≤ 0xDFFF := by omega
    rw [decodeParts?, if_pos isHigh, if_pos isLow, Nat.add_sub_cancel_left,
      Nat.add_sub_cancel_left, ← code, Char.ofNat_toNat, ih, Option.map_some]

theorem Denotes.unique {parts : List JsonStringPart} {ds : List Char} (h : Denotes parts cs)
    (h' : Denotes parts ds) : cs = ds :=
  Option.some.inj ((decodeParts?_complete h).symm.trans (decodeParts?_complete h'))

/-! ## Values -/

theorem value?_skipSpace (depth : Nat) (cs : List Char) :
    value? depth (skipSpace cs) = value? depth cs := by
  cases depth with
  | zero => rfl
  | succ depth => simp only [value?, skipSpace_skipSpace]

theorem items?_skipSpace (depth : Nat) (cs : List Char) :
    items? depth (skipSpace cs) = items? depth cs := by
  cases depth with
  | zero => rfl
  | succ depth => simp only [items?, value?_skipSpace]

theorem members?_skipSpace (depth : Nat) (cs : List Char) :
    members? depth (skipSpace cs) = members? depth cs := by
  cases depth with
  | zero => rfl
  | succ depth => simp only [members?, skipSpace_skipSpace]

def Closes (cs : List Char) : Prop :=
  ∀ c ∈ cs.head?, c ∈ [',', ']', '\x7d']

theorem Closes.stops (h : Closes rest) : Stops isSpace rest := by
  have other : [',', ']', '\x7d'].any isSpace = false := by decide
  exact fun c first => forall_eq_false other c (h c first)

theorem Closes.ends (h : Closes rest) (blank : Space cs) : Ends (cs ++ rest) := by
  cases cs with
  | nil => exact fun c first => List.mem_append_right [' ', '\t', '\n', '\r'] (h c first)
  | cons d ds =>
    intro c first
    obtain rfl : d = c := by simpa using first
    exact List.mem_append_left [',', ']', '\x7d'] (blank d List.mem_cons_self)

theorem Number.exists_cons {n : JsonNumber} (h : Number cs n) :
    ∃ c ds, cs = c :: ds ∧ (c = '-' ∨ c.isDigit = true) := by
  cases h with
  | plain magnitude =>
    obtain ⟨c, ds, same, digit⟩ := magnitude.exists_cons
    exact ⟨c, ds, same, .inr digit⟩
  | negative => exact ⟨'-', _, rfl, .inl rfl⟩

theorem Number.starts {c : Char} {n : JsonNumber} (h : Number (c :: cs) n) :
    c ≠ '"' ∧ c ≠ '[' ∧ c ≠ '\x7b' ∧ c ≠ 'n' ∧ c ≠ 't' ∧ c ≠ 'f' := by
  obtain ⟨d, ds, same, start⟩ := h.exists_cons
  obtain rfl : c = d := (List.cons.inj same).1
  rcases start with rfl | digit
  · decide
  · refine ⟨?_, ?_, ?_, ?_, ?_, ?_⟩ <;>
    · rintro rfl
      cases digit

/-- A value begins with neither white space nor the end of an array. -/
theorem Value.exists_cons {t : JsonText} (h : Value cs t) :
    ∃ c ds, cs = c :: ds ∧ isSpace c = false ∧ c ≠ ']' := by
  cases h with
  | null => exact ⟨_, _, rfl, rfl, by decide⟩
  | yes => exact ⟨_, _, rfl, rfl, by decide⟩
  | no => exact ⟨_, _, rfl, rfl, by decide⟩
  | number n =>
    obtain ⟨c, ds, rfl, rfl | digit⟩ := n.exists_cons
    · exact ⟨_, _, rfl, rfl, by decide⟩
    · refine ⟨c, ds, rfl, Bool.eq_false_iff.mpr ?_, ?_⟩
      · intro blank
        have other : [' ', '\t', '\n', '\r'].any Char.isDigit = false := by decide
        rw [forall_eq_false other c (isSpace_iff.mp blank)] at digit
        cases digit
      · rintro rfl
        cases digit
  | text quoted => cases quoted with | mk => exact ⟨_, _, rfl, rfl, by decide⟩
  | emptyArray => exact ⟨_, _, rfl, rfl, by decide⟩
  | array => exact ⟨_, _, rfl, rfl, by decide⟩
  | emptyObject => exact ⟨_, _, rfl, rfl, by decide⟩
  | object => exact ⟨_, _, rfl, rfl, by decide⟩

theorem Value.stops {t : JsonText} (h : Value cs t) : Stops isSpace (cs ++ rest) := by
  obtain ⟨c, ds, rfl, solid, -⟩ := h.exists_cons
  exact stops_cons solid

theorem Quoted.stops {parts : List JsonStringPart} (h : Quoted cs parts) :
    Stops isSpace (cs ++ rest) := by
  cases h with
  | mk => exact stops_cons rfl

/-- What is read with a count that suffices for the length of the text. -/
structure Reads (depth : Nat) : Prop where
  value : ∀ {cs rest : List Char} {t : JsonText}, Value cs t → 2 * cs.length ≤ depth →
    Ends rest → value? depth (cs ++ rest) = some (t, rest)
  items : ∀ {cs : List Char} {items : List JsonText}, Items cs items →
    2 * cs.length + 1 ≤ depth → ∀ rest, items? depth (cs ++ ']' :: rest) = some (items, rest)
  members : ∀ {cs : List Char} {members : List (List JsonStringPart × JsonText)},
    Members cs members → 2 * cs.length + 1 ≤ depth →
    ∀ rest, members? depth (cs ++ '\x7d' :: rest) = some (members, rest)

/-- The white space after a value is left to be skipped. -/
theorem Reads.padded {depth : Nat} (reads : Reads depth) {t : JsonText} (h : Padded cs t)
    (enough : 2 * cs.length ≤ depth) (closes : Closes rest) :
    ∃ left, value? depth (cs ++ rest) = some (t, left) ∧ skipSpace left = rest := by
  cases h with
  | @mk before cs after t leading value trailing =>
    simp only [List.length_append] at enough
    refine ⟨after ++ rest, ?_, skipSpace_append trailing closes.stops⟩
    rw [List.append_assoc, List.append_assoc, ← value?_skipSpace,
      skipSpace_append leading value.stops]
    exact reads.value value (by omega) (closes.ends trailing)

theorem value?_number {depth : Nat} {n : JsonNumber} (h : Number cs n) (ends : Ends rest) :
    value? (depth + 1) (cs ++ rest) = some (.number n, rest) := by
  have read := number?_complete h ends
  obtain ⟨c, ds, rfl, solid, -⟩ := (Value.number h).exists_cons
  obtain ⟨quote, bracket, brace, n, t, f⟩ := h.starts
  rw [List.cons_append] at read ⊢
  simp [value?, skipSpace_cons solid, read, quote, bracket, brace, n, t, f]

theorem skipSpace_ne {c d : Char} {ds after : List Char} (before : Space cs)
    (solid : isSpace d = false) (other : d ≠ c) : skipSpace (cs ++ d :: ds) ≠ c :: after := by
  rw [skipSpace_append before (stops_cons solid)]
  exact fun same => other (List.cons.inj same).1

theorem Items.skipSpace_ne {items : List JsonText} (h : Items cs items) (after : List Char) :
    skipSpace (cs ++ rest) ≠ ']' :: after := by
  have first : ∀ {cs t}, Padded cs t → ∀ rest, skipSpace (cs ++ rest) ≠ ']' :: after := by
    rintro _ t ⟨before, value, -⟩ rest
    obtain ⟨c, ds, rfl, solid, other⟩ := value.exists_cons
    simpa using JsonGrammar.skipSpace_ne before solid other
  cases h with
  | single padded => exact first padded rest
  | cons padded => rw [List.append_assoc]; exact first padded _

theorem Members.skipSpace_ne {members : List (List JsonStringPart × JsonText)}
    (h : Members cs members) (after : List Char) : skipSpace (cs ++ rest) ≠ '\x7d' :: after := by
  have first : ∀ {name key}, Key name key → ∀ rest,
      skipSpace (name ++ rest) ≠ '\x7d' :: after := by
    rintro _ key ⟨before, quoted, -⟩ rest
    cases quoted
    simpa using JsonGrammar.skipSpace_ne before (d := '"') rfl (by decide)
  cases h with
  | single named => rw [List.append_assoc]; exact first named _
  | cons named => rw [List.append_assoc]; exact first named _

theorem value?_array (depth : Nat) (unclosed : ∀ after, skipSpace cs ≠ ']' :: after) :
    value? (depth + 1) ('[' :: cs) =
      (items? depth cs).map fun (items, rest) => (.array items, rest) := by
  simp only [value?, skipSpace_cons (c := '[') rfl, items?_skipSpace]

theorem value?_object (depth : Nat) (unclosed : ∀ after, skipSpace cs ≠ '\x7d' :: after) :
    value? (depth + 1) ('\x7b' :: cs) =
      (members? depth cs).map fun (members, rest) => (.object members, rest) := by
  simp only [value?, skipSpace_cons (c := '\x7b') rfl, members?_skipSpace]

theorem Reads.value_succ {depth : Nat} (reads : Reads depth) {t : JsonText} (h : Value cs t)
    (enough : 2 * cs.length ≤ depth + 1) (ends : Ends rest) :
    value? (depth + 1) (cs ++ rest) = some (t, rest) := by
  cases h with
  | null => rfl
  | yes => rfl
  | no => rfl
  | number n => exact value?_number n ends
  | text quoted =>
    cases quoted with
    | @mk cs parts all =>
      simp only [List.cons_append, List.append_assoc, List.nil_append, value?,
        skipSpace_cons (c := '"') rfl, stringRest?_complete all, Option.map_some]
  | @emptyArray blanks blank =>
    have skipped : skipSpace (blanks ++ ']' :: rest) = ']' :: rest :=
      skipSpace_append blank (stops_cons rfl)
    simp only [List.cons_append, List.append_assoc, List.nil_append, value?,
      skipSpace_cons (c := '[') rfl, skipped]
  | @array cs items all =>
    simp only [List.length_cons, List.length_append, List.length_nil] at enough
    simp only [List.cons_append, List.append_assoc, List.nil_append]
    rw [value?_array depth all.skipSpace_ne, reads.items all (by omega), Option.map_some]
  | @emptyObject blanks blank =>
    have skipped : skipSpace (blanks ++ '\x7d' :: rest) = '\x7d' :: rest :=
      skipSpace_append blank (stops_cons rfl)
    simp only [List.cons_append, List.append_assoc, List.nil_append, value?,
      skipSpace_cons (c := '\x7b') rfl, skipped]
  | @object cs members all =>
    simp only [List.length_cons, List.length_append, List.length_nil] at enough
    simp only [List.cons_append, List.append_assoc, List.nil_append]
    rw [value?_object depth all.skipSpace_ne, reads.members all (by omega), Option.map_some]

theorem Reads.items_succ {depth : Nat} (reads : Reads depth) {items : List JsonText}
    (h : Items cs items) (enough : 2 * cs.length + 1 ≤ depth + 1) (rest : List Char) :
    items? (depth + 1) (cs ++ ']' :: rest) = some (items, rest) := by
  cases h with
  | single padded =>
    have closes : Closes (']' :: rest) := by simp [Closes]
    obtain ⟨left, read, skipped⟩ := reads.padded padded (by omega) closes
    simp only [items?, read, skipped, bind, Option.bind, pure]
  | @cons cs more item items padded others =>
    simp only [List.length_append, List.length_cons] at enough
    have closes : Closes (',' :: (more ++ ']' :: rest)) := by simp [Closes]
    obtain ⟨left, read, skipped⟩ := reads.padded padded (by omega) closes
    have read' := reads.items others (by omega) rest
    simp only [List.append_assoc, List.cons_append, items?, read, skipped, read', bind,
      Option.bind, pure]

theorem key_complete {key : List JsonStringPart} (h : Key cs key) (rest : List Char) :
    ∃ left, string? (skipSpace (cs ++ ':' :: rest)) = some (key, left) ∧
      skipSpace left = ':' :: rest := by
  cases h with
  | @mk before cs after key leading quoted trailing =>
    refine ⟨after ++ ':' :: rest, ?_, skipSpace_append trailing (stops_cons rfl)⟩
    rw [List.append_assoc, List.append_assoc, skipSpace_append leading quoted.stops]
    exact string?_complete quoted _

theorem Reads.members_succ {depth : Nat} (reads : Reads depth)
    {members : List (List JsonStringPart × JsonText)} (h : Members cs members)
    (enough : 2 * cs.length + 1 ≤ depth + 1) (rest : List Char) :
    members? (depth + 1) (cs ++ '\x7d' :: rest) = some (members, rest) := by
  cases h with
  | @single name cs key value named padded =>
    simp only [List.length_append, List.length_cons] at enough
    have closes : Closes ('\x7d' :: rest) := by simp [Closes]
    obtain ⟨left, read, skipped⟩ := key_complete named (cs ++ '\x7d' :: rest)
    obtain ⟨left', read', skipped'⟩ := reads.padded padded (by omega) closes
    simp only [List.append_assoc, List.cons_append, members?, read, skipped, read', skipped',
      bind, Option.bind, pure]
  | @cons name cs more key value members named padded others =>
    simp only [List.length_append, List.length_cons] at enough
    have closes : Closes (',' :: (more ++ '\x7d' :: rest)) := by simp [Closes]
    obtain ⟨left, read, skipped⟩ := key_complete named (cs ++ ',' :: (more ++ '\x7d' :: rest))
    obtain ⟨left', read', skipped'⟩ := reads.padded padded (by omega) closes
    have read'' := reads.members others (by omega) rest
    simp only [List.append_assoc, List.cons_append, members?, read, skipped, read', skipped',
      read'', bind, Option.bind, pure]

theorem reads (depth : Nat) : Reads depth := by
  induction depth with
  | zero =>
    refine ⟨?_, fun _ enough => by omega, fun _ enough => by omega⟩
    intro cs rest t h enough
    obtain ⟨c, ds, rfl, -⟩ := h.exists_cons
    simp at enough
  | succ depth ih => exact ⟨ih.value_succ, ih.items_succ, ih.members_succ⟩

/-- Every text that the grammar derives is read, as it is divided. -/
theorem ofChars?_complete {t : JsonText} (h : Padded cs t) : ofChars? cs = some t := by
  have closes : Closes [] := by simp [Closes]
  obtain ⟨left, read, skipped⟩ := (reads (2 * cs.length + 2)).padded h (by omega) closes
  rw [List.append_nil] at read
  simp [ofChars?, read, skipped]

end FormDependencies.JsonGrammar
