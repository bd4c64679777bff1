import FormDependencies.Proofs.Selector.Soundness

/-!
What the grammar says is read. Each reader takes all of a text of its rule when what comes next
cannot belong to it, and the rules see to it that this is so.
-/

namespace FormDependencies.SelectorGrammar

open SelectorParser
open Text (Blank Stops stops_cons isBlank)

variable {taken rest : List Char}

theorem isBlank_of_isIdentChar {c : Char} (h : isIdentChar c = true) : isBlank c = false := by
  have range : 45 ≤ c.toNat ∧ c.toNat < 127 := by
    simp only [isIdentChar, Bool.or_eq_true, beq_iff_eq, Text.isAlphanum_iff, Text.isUpper_iff,
      Text.isLower_iff, Text.isDigit_iff] at h
    rcases h with (letter | rfl) | rfl
    · omega
    · decide
    · decide
  exact Text.isBlank_eq_false (Nat.le_trans (by decide) range.1) range.2

theorem isIdentChar_of_isBlank {c : Char} (h : isBlank c = true) : isIdentChar c = false := by
  cases word : isIdentChar c with
  | false => rfl
  | true => rw [isBlank_of_isIdentChar word] at h; cases h

/-- A text stops for identifiers where it stops for tags. -/
theorem stops_isIdentChar (stop : Stops (fun c => isIdentChar c || c == '*') rest) :
    Stops isIdentChar rest :=
  fun c first => (Bool.or_eq_false_iff.mp (stop c first)).1

theorem Ident.exists_cons {name : String} (h : Ident taken name) :
    ∃ c cs, taken = c :: cs ∧ isIdentChar c = true := by
  cases h with
  | mk some all =>
    obtain ⟨c, cs, rfl⟩ := List.exists_cons_of_ne_nil some
    exact ⟨c, cs, rfl, all c List.mem_cons_self⟩

theorem Ident.stops_isBlank {name : String} (h : Ident taken name) :
    Stops isBlank (taken ++ rest) := by
  obtain ⟨c, cs, rfl, word⟩ := h.exists_cons
  exact stops_cons (isBlank_of_isIdentChar word)

/-! ## Words, values and tests -/

theorem skipBlanks_complete {blanks : List Char} (blank : Blank blanks)
    (stop : Stops isBlank rest) : skipBlanks (blanks ++ rest) = rest :=
  Text.dropWhile_run blank stop

theorem ident_complete {name : String} (h : Ident taken name) (stop : Stops isIdentChar rest) :
    ident (taken ++ rest) = .ok (name, rest) := by
  cases h with
  | mk some all =>
    simp only [ident, Text.takeWhile_run all stop, Text.dropWhile_run all stop]
    rw [if_neg (by simpa using some)]

theorem quotedText_complete {quote : Char} {text : List Char} (free : quote ∉ text) :
    quotedText quote (quote :: (text ++ quote :: rest)) = .ok (String.ofList text, rest) := by
  have inside : ∀ c ∈ text, (c != quote) = true := by
    intro c mem
    simpa using fun same : c = quote => free (same ▸ mem)
  have closes : Stops (· != quote) (quote :: rest) := stops_cons (by simp)
  simp only [quotedText, List.drop_one, List.tail_cons, Text.takeWhile_run inside closes,
    Text.dropWhile_run inside closes]

theorem attributeValue_complete {value : String} (h : Value taken value)
    (stop : Stops isIdentChar rest) : attributeValue (taken ++ rest) = .ok (value, rest) := by
  cases h with
  | ident word =>
    have read := ident_complete word stop
    obtain ⟨c, cs, rfl, isIdent⟩ := word.exists_cons
    unfold attributeValue
    split
    · next same => obtain ⟨rfl, -⟩ := List.cons.inj same; cases isIdent
    · next same => obtain ⟨rfl, -⟩ := List.cons.inj same; cases isIdent
    · exact read
  | quoted isQuote free =>
    simp only [List.cons_append, List.append_assoc, List.nil_append]
    rcases isQuote with rfl | rfl
    · exact quotedText_complete free
    · exact quotedText_complete free

theorem Value.stops_isBlank {value : String} (h : Value taken value) :
    Stops isBlank (taken ++ rest) := by
  cases h with
  | ident word => exact word.stops_isBlank
  | quoted isQuote free =>
    rcases isQuote with rfl | rfl
    · exact stops_cons rfl
    · exact stops_cons rfl

theorem Expected.stops {value : Option String} (h : Expected taken value) (rest : List Char) :
    Stops isBlank (taken ++ ']' :: rest) ∧ Stops isIdentChar (taken ++ ']' :: rest) := by
  cases h with
  | absent => exact ⟨stops_cons rfl, stops_cons rfl⟩
  | given => exact ⟨stops_cons rfl, stops_cons rfl⟩

theorem attributeValue?_complete {value : Option String} (h : Expected taken value) :
    attributeValue? (taken ++ ']' :: rest) = .ok (value, ']' :: rest) := by
  cases h with
  | absent => rfl
  | @given before cs after value leading valued trailing =>
    have behind : Stops isIdentChar (after ++ ']' :: rest) :=
      .append (fun c mem => isIdentChar_of_isBlank (trailing c mem)) (stops_cons rfl)
    have bracket : Stops isBlank (']' :: rest) := stops_cons rfl
    simp only [List.cons_append, List.append_assoc, attributeValue?,
      skipBlanks_complete leading valued.stops_isBlank, attributeValue_complete valued behind,
      skipBlanks_complete trailing bracket, bind, Except.bind, pure, Except.pure]

theorem attributeTest_complete {test : AttributeTest} (h : Test taken test) (rest : List Char) :
    attributeTest (taken ++ rest) = .ok (test, rest) := by
  cases h with
  | @mk before cs after more name value leading word trailing expected =>
    obtain ⟨noBlank, noWord⟩ := expected.stops rest
    have behind : Stops isIdentChar (after ++ (more ++ ']' :: rest)) :=
      .append (fun c mem => isIdentChar_of_isBlank (trailing c mem)) noWord
    simp only [List.cons_append, List.append_assoc, List.nil_append, attributeTest,
      List.drop_one, List.tail_cons, skipBlanks_complete leading word.stops_isBlank,
      ident_complete word behind, skipBlanks_complete trailing noBlank,
      attributeValue?_complete expected, bind, Except.bind, pure, Except.pure]

/-! ## Compounds -/

/-- Whether a text goes on as it may after a compound. -/
def Ends (cs : List Char) : Prop :=
  ∀ c ∈ cs.head?, isBlank c = true ∨ c = ','

theorem Ends.stops (h : Ends rest) : Stops (fun c => isIdentChar c || c == '*') rest := by
  intro c first
  rcases h c first with blank | rfl
  · have word := isIdentChar_of_isBlank blank
    have star : c ≠ '*' := by rintro rfl; cases blank
    simp [word, star]
  · rfl

/-- Neither a word nor a star comes after a tag. -/
theorem Tests.stops {classes : List String} {attributes : List AttributeTest}
    (h : Tests taken classes attributes) (ends : Ends rest) :
    Stops (fun c => isIdentChar c || c == '*') (taken ++ rest) := by
  cases h with
  | nil => exact ends.stops
  | classTest => exact stops_cons rfl
  | attributeTest test =>
    obtain ⟨more, rfl⟩ := test.exists_cons
    exact stops_cons rfl

theorem Tests.stops_isIdentChar {classes : List String} {attributes : List AttributeTest}
    (h : Tests taken classes attributes) (ends : Ends rest) :
    Stops isIdentChar (taken ++ rest) :=
  SelectorGrammar.stops_isIdentChar (h.stops ends)

theorem tests_complete {classes : List String} {attributes : List AttributeTest}
    (h : Tests taken classes attributes) (ends : Ends rest) {fuel : Nat}
    (enough : taken.length ≤ fuel) (start : Compound) :
    tests start fuel (taken ++ rest) =
      .ok ({ start with classes := start.classes ++ classes
                        attributes := start.attributes ++ attributes }, rest) := by
  induction h generalizing fuel start with
  | nil =>
    simp only [List.nil_append, List.append_nil]
    cases fuel with
    | zero => rfl
    | succ fuel =>
      unfold tests
      split
      · exact absurd (ends _ rfl) (by decide)
      · exact absurd (ends _ rfl) (by decide)
      · rfl
  | @classTest cs more name classes attributes word others ih =>
    cases fuel with
    | zero => simp at enough
    | succ fuel =>
      simp only [List.length_cons, List.length_append] at enough
      simp only [List.cons_append, List.append_assoc, tests,
        ident_complete word (others.stops_isIdentChar ends), bind, Except.bind]
      rw [ih (by omega)]
      simp
  | @attributeTest cs more test classes attributes isTest others ih =>
    have read := attributeTest_complete isTest (more ++ rest)
    obtain ⟨inner, rfl⟩ := isTest.exists_cons
    cases fuel with
    | zero => simp at enough
    | succ fuel =>
      simp only [List.length_cons, List.length_append] at enough
      simp only [List.cons_append, List.append_assoc] at read ⊢
      simp only [tests, read, bind, Except.bind]
      rw [ih (by omega)]
      simp

theorem tag?_complete {tag : Option String} (h : Tag taken tag)
    (stop : Stops (fun c => isIdentChar c || c == '*') rest) :
    tag? (taken ++ rest) = (tag, rest) := by
  have noWord : Stops isIdentChar rest := stops_isIdentChar stop
  cases h with
  | absent =>
    rw [List.nil_append]
    unfold tag?
    split
    · exact absurd (stop '*' rfl) (by decide)
    · have none : rest.takeWhile isIdentChar = [] := by
        have empty : ([] ++ rest).takeWhile isIdentChar = [] :=
          Text.takeWhile_run (fun _ mem => absurd mem List.not_mem_nil) noWord
        exact empty
      simp [none]
  | any => rfl
  | word some all =>
    obtain ⟨c, cs, rfl⟩ := List.exists_cons_of_ne_nil some
    have word := all c List.mem_cons_self
    unfold tag?
    split
    · next same => obtain ⟨rfl, -⟩ := List.cons.inj same; cases word
    · simp only [Text.takeWhile_run all noWord, Text.dropWhile_run all noWord]
      rfl

theorem compound_complete {c : Compound} (h : IsCompound taken c) (ends : Ends rest) :
    compound (taken ++ rest) = .ok (c, rest) := by
  cases h with
  | @mk cs more tag classes attributes tagged tested some =>
    have enough : more.length ≤ (more ++ rest).length := by simp
    have isSome := mt (append_eq_nil_iff tagged tested).mpr some
    simp only [List.append_assoc, compound, tag?_complete tagged (tested.stops ends),
      tests_complete tested ends enough, bind, Except.bind, List.nil_append]
    rw [if_neg isSome]
    rfl

/-! ## Chains and lists -/

theorem IsCompound.exists_cons {c : Compound} (h : IsCompound taken c) :
    ∃ d cs, taken = d :: cs ∧ isBlank d = false ∧ d ≠ ',' := by
  cases h with
  | @mk cs more tag classes attributes tagged tested some =>
    cases tagged with
    | absent =>
      cases tested with
      | nil => exact absurd rfl some
      | classTest => exact ⟨'.', _, rfl, rfl, by decide⟩
      | attributeTest test =>
        obtain ⟨inner, rfl⟩ := test.exists_cons
        exact ⟨'[', _, rfl, rfl, by decide⟩
    | any => exact ⟨'*', _, rfl, rfl, by decide⟩
    | word some all =>
      obtain ⟨d, cs, rfl⟩ := List.exists_cons_of_ne_nil some
      have isIdent := all d List.mem_cons_self
      exact ⟨d, _, rfl, isBlank_of_isIdentChar isIdent, by rintro rfl; cases isIdent⟩

def Done (cs : List Char) : Prop :=
  ∀ c ∈ cs.head?, c = ','

theorem Done.stops (h : Done rest) : Stops isBlank rest := by
  intro c first
  rw [h c first]
  rfl

theorem ends_of_blank {blanks : List Char} (blank : Blank blanks) (h : Ends rest) :
    Ends (blanks ++ rest) := by
  cases blanks with
  | nil => exact h
  | cons c blanks =>
    intro d first
    obtain rfl : c = d := by simpa using first
    exact .inl (blank c List.mem_cons_self)

theorem Descent.ends {chain : Chain} (h : Descent taken chain) (ends : Ends rest) :
    Ends (taken ++ rest) := by
  cases h with
  | nil => exact ends
  | cons blank some =>
    obtain ⟨c, blanks, rfl⟩ := List.exists_cons_of_ne_nil some
    intro d first
    obtain rfl : c = d := by simpa using first
    exact .inl (blank c List.mem_cons_self)

theorem compounds_complete {chain : Chain} (h : Descent taken chain) {blanks : List Char}
    (blank : Blank blanks) (done : Done rest) {fuel : Nat} (enough : taken.length < fuel) :
    compounds fuel (taken ++ (blanks ++ rest)) = .ok (chain, rest) := by
  have ends : Ends (blanks ++ rest) := ends_of_blank blank fun c first => .inr (done c first)
  induction h generalizing fuel with
  | nil =>
    obtain ⟨fuel, rfl⟩ := Nat.exists_eq_succ_of_ne_zero (Nat.ne_zero_of_lt enough)
    simp only [List.nil_append, compounds, skipBlanks_complete blank done.stops]
    cases rest with
    | nil => rfl
    | cons c rest =>
      obtain rfl := done c rfl
      rfl
  | @cons before cs more c chain leading some isCompound others ih =>
    obtain ⟨fuel, rfl⟩ := Nat.exists_eq_succ_of_ne_zero (Nat.ne_zero_of_lt enough)
    have read := compound_complete isCompound (others.ends ends)
    obtain ⟨d, inner, rfl, noBlank, noComma⟩ := isCompound.exists_cons
    have used := List.length_pos_iff.mpr some
    simp only [List.length_append, List.length_cons] at enough
    simp only [List.cons_append] at read
    simp only [List.append_assoc, List.cons_append, compounds,
      skipBlanks_complete leading (stops_cons noBlank)]
    have further := @ih fuel (by omega)
    have shorter : (inner ++ (more ++ (blanks ++ rest))).length + 1 <
        (before ++ d :: (inner ++ (more ++ (blanks ++ rest)))).length := by
      simp only [List.length_append, List.length_cons]
      omega
    rw [if_pos shorter, read]
    simp only [bind, Except.bind, further]
    rfl

theorem chain_complete {chain : Chain} (h : IsChain taken chain) {blanks : List Char}
    (blank : Blank blanks) (done : Done rest) :
    SelectorParser.chain (taken ++ (blanks ++ rest)) = .ok (chain, rest) := by
  cases h with
  | @mk cs more c chain isCompound others =>
    have ends : Ends (blanks ++ rest) := ends_of_blank blank fun c first => .inr (done c first)
    have enough : more.length < (more ++ (blanks ++ rest)).length + 1 := by
      rw [List.length_append]
      omega
    simp only [List.append_assoc, SelectorParser.chain,
      compound_complete isCompound (others.ends ends), compounds_complete others blank done enough,
      bind, Except.bind]
    rfl

theorem IsChain.stops_isBlank {chain : Chain} (h : IsChain taken chain) :
    Stops isBlank (taken ++ rest) := by
  cases h with
  | mk isCompound =>
    obtain ⟨c, cs, rfl, noBlank, noComma⟩ := isCompound.exists_cons
    exact stops_cons noBlank

theorem chains_complete {alternatives : List Chain} (h : Alternatives taken alternatives)
    {fuel : Nat} (enough : taken.length < fuel) : chains fuel taken = .ok alternatives := by
  induction h generalizing fuel with
  | @single before cs after chain leading isChain trailing =>
    obtain ⟨fuel, rfl⟩ := Nat.exists_eq_succ_of_ne_zero (Nat.ne_zero_of_lt enough)
    have done : Done [] := fun c first => absurd first (by simp)
    have read := chain_complete isChain trailing done
    rw [List.append_nil] at read
    simp only [List.append_assoc, chains, skipBlanks_complete leading isChain.stops_isBlank, read,
      bind, Except.bind]
    rfl
  | @cons before cs after rest chain others leading isChain trailing more ih =>
    obtain ⟨fuel, rfl⟩ := Nat.exists_eq_succ_of_ne_zero (Nat.ne_zero_of_lt enough)
    have done : Done (',' :: rest) := fun c first => by simpa using first.symm
    simp only [List.length_append, List.length_cons] at enough
    simp only [List.append_assoc, chains, skipBlanks_complete leading isChain.stops_isBlank,
      chain_complete isChain trailing done, bind, Except.bind]
    rw [ih (by omega)]
    rfl

end FormDependencies.SelectorGrammar
