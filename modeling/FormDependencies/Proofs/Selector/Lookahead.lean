import FormDependencies.Proofs.Selector.Recognition

/-!
How far readers look. A reader of selectors decides by what it takes and by the one character after
that. So it reads the same whatever comes later, and where it meets a character that cannot stand
there, it fails whatever comes after that character.
-/

namespace FormDependencies.SelectorParser

variable {α β : Type} {cs rest : List Char}

inductive Fault.At : Fault → Char → List Char → Prop
  | unexpected (c : Char) (after : List Char) : At (.unexpected c (c :: after)) c after
  | missingIdent (c : Char) (after : List Char) : At (.missingIdent (c :: after)) c after

/-- Reads the bracket that closes a test; `whole` is blamed when the text ends before. -/
def closeTest (whole : List Char) (test : AttributeTest) (cs : List Char) :
    Except Fault (AttributeTest × List Char) :=
  match cs with
  | ']' :: rest => .ok (test, rest)
  | found :: _ => .error (.unexpected found cs)
  | [] => .error (.unterminatedAttribute whole)

/-- A compound must not be empty; what stands in its place is blamed. -/
def closeCompound (c : Compound) (cs : List Char) : Except Fault (Compound × List Char) :=
  if c.isEmpty then
    match cs with
    | found :: _ => .error (.unexpected found cs)
    | [] => .error (.missingIdent cs)
  else .ok (c, cs)

/-- Readers that look at one character beyond what they take. -/
structure Prompt (read : List Char → Except Fault (α × List Char)) : Prop where
  ok : ∀ {cs rest value}, read cs = .ok (value, rest) →
    ∃ taken, cs = taken ++ rest ∧
      ∀ rest', rest'.head? = rest.head? → read (taken ++ rest') = .ok (value, rest')
  error : ∀ {cs fault c after}, read cs = .error fault → fault.At c after →
    ∃ before, cs = before ++ c :: after ∧ ∀ more result, read (before ++ c :: more) ≠ .ok result

theorem head?_append_congr {rest' : List Char} (taken : List Char)
    (same : rest'.head? = rest.head?) : (taken ++ rest').head? = (taken ++ rest).head? := by
  rw [List.head?_append, List.head?_append, same]

namespace Prompt

/-! ## Ways to put readers together -/

theorem leave (value : α) : Prompt fun cs => .ok (value, cs) where
  ok read := by
    obtain ⟨rfl, rfl⟩ := Prod.mk.inj (Except.ok.inj read)
    exact ⟨[], rfl, fun _ _ => rfl⟩
  error failed := nomatch failed

theorem fail {fault : List Char → Fault}
    (here : ∀ {cs c after}, (fault cs).At c after → cs = c :: after) :
    Prompt fun cs => (.error (fault cs) : Except Fault (α × List Char)) where
  ok read := nomatch read
  error failed found := by
    obtain rfl := Except.error.inj failed
    exact ⟨[], here found, fun _ _ read => nomatch read⟩

theorem advance : Prompt fun cs => .ok ((), cs.drop 1) where
  ok {cs rest value} read := by
    obtain ⟨-, rfl⟩ := Prod.mk.inj (Except.ok.inj read)
    cases cs with
    | nil =>
      refine ⟨[], rfl, fun rest' first => ?_⟩
      rw [List.head?_eq_none_iff.mp first]
      rfl
    | cons c cs => exact ⟨[c], rfl, fun _ _ => rfl⟩
  error failed := nomatch failed

theorem skip : Prompt fun cs => .ok ((), skipBlanks cs) where
  ok {cs rest value} read := by
    obtain ⟨-, rfl⟩ := Prod.mk.inj (Except.ok.inj read)
    obtain ⟨blanks, blank, same⟩ := SelectorGrammar.skipBlanks_sound cs
    refine ⟨blanks, same, fun rest' first => ?_⟩
    have stop : Text.Stops Text.isBlank rest' := fun c head =>
      Text.stops_dropWhile Text.isBlank cs c (first ▸ head)
    rw [SelectorGrammar.skipBlanks_complete blank stop]
  error failed := nomatch failed

theorem bind {first : List Char → Except Fault (α × List Char)}
    {next : α → List Char → Except Fault (β × List Char)} (h : Prompt first)
    (h' : ∀ value, Prompt (next value)) :
    Prompt fun cs => first cs >>= fun read => next read.1 read.2 where
  ok read := by
    obtain ⟨⟨value, rest⟩, one, other⟩ := bind_eq_ok.mp read
    obtain ⟨taken', rfl, again'⟩ := (h' value).ok (show next value rest = _ from other)
    obtain ⟨taken, rfl, again⟩ := h.ok one
    refine ⟨taken ++ taken', (List.append_assoc ..).symm, fun rest' head => ?_⟩
    rw [List.append_assoc]
    exact bind_eq_ok.mpr ⟨_, again _ (head?_append_congr taken' head), again' rest' head⟩
  error {cs fault c after} failed found := by
    rcases bind_eq_error.mp failed with one | ⟨⟨value, rest⟩, one, other⟩
    · obtain ⟨before, same, none⟩ := h.error one found
      refine ⟨before, same, fun more result read => ?_⟩
      obtain ⟨_, one', _⟩ := bind_eq_ok.mp read
      exact none _ _ one'
    · obtain ⟨before, rfl, none⟩ := (h' value).error (show next value rest = _ from other) found
      obtain ⟨taken, rfl, again⟩ := h.ok one
      refine ⟨taken ++ before, (List.append_assoc ..).symm, fun more result read => ?_⟩
      rw [List.append_assoc] at read
      obtain ⟨_, one', other'⟩ := bind_eq_ok.mp read
      rw [again (before ++ c :: more) (head?_append_congr before rfl)] at one'
      obtain rfl := Except.ok.inj one'
      exact none _ _ other'

/-- The first character may decide how to go on. -/
theorem look {read : List Char → Except Fault (α × List Char)}
    (ended : ∃ chosen, Prompt chosen ∧ read [] = chosen [])
    (each : ∀ c, ∃ chosen, Prompt chosen ∧ ∀ rest, read (c :: rest) = chosen (c :: rest)) :
    Prompt read := by
  have byHead : ∀ first, ∃ chosen, Prompt chosen ∧
      ∀ cs, cs.head? = first → read cs = chosen cs := by
    rintro (_ | c)
    · obtain ⟨chosen, h, same⟩ := ended
      exact ⟨chosen, h, fun cs head => List.head?_eq_none_iff.mp head ▸ same⟩
    · obtain ⟨chosen, h, same⟩ := each c
      refine ⟨chosen, h, fun cs head => ?_⟩
      obtain ⟨rest, rfl⟩ := List.head?_eq_some_iff.mp head
      exact same rest
  constructor
  · intro cs rest value got
    obtain ⟨chosen, h, same⟩ := byHead cs.head?
    rw [same cs rfl] at got
    obtain ⟨taken, rfl, again⟩ := h.ok got
    refine ⟨taken, rfl, fun rest' head => ?_⟩
    rw [same _ (head?_append_congr taken head)]
    exact again rest' head
  · intro cs fault c after failed found
    obtain ⟨chosen, h, same⟩ := byHead cs.head?
    rw [same cs rfl] at failed
    obtain ⟨before, rfl, none⟩ := h.error failed found
    refine ⟨before, rfl, fun more result got => ?_⟩
    rw [same (before ++ c :: more) (head?_append_congr before rfl)] at got
    exact none more result got

/-- What a reader is given beside the text, and takes from the text, makes no difference if for any
two texts there is one such thing that serves both. -/
theorem of_family {ι : Type} {read : ι → List Char → Except Fault (α × List Char)}
    (each : ∀ i, Prompt (read i)) (index : List Char → ι)
    (serves : ∀ cs cs', ∃ i, read i cs = read (index cs) cs ∧
      ∀ result, read i cs' = .ok result ↔ read (index cs') cs' = .ok result) :
    Prompt fun cs => read (index cs) cs where
  ok {cs rest value} got := by
    obtain ⟨taken, rfl, -⟩ := (each _).ok got
    refine ⟨taken, rfl, fun rest' head => ?_⟩
    obtain ⟨i, here, there⟩ := serves (taken ++ rest) (taken ++ rest')
    obtain ⟨taken', split, again⟩ := (each i).ok (here.trans got)
    obtain rfl := List.append_cancel_right split
    exact (there _).mp (again rest' head)
  error {cs fault c after} failed found := by
    obtain ⟨before, rfl, -⟩ := (each _).error failed found
    refine ⟨before, rfl, fun more result got => ?_⟩
    obtain ⟨i, here, there⟩ := serves (before ++ c :: after) (before ++ c :: more)
    obtain ⟨before', split, none⟩ := (each i).error (here.trans failed) found
    obtain rfl := List.append_cancel_right split
    exact none more result ((there result).mpr got)

/-- A count that bounds a loop makes no difference once it is large enough. -/
theorem of_fuel {read : Nat → List Char → Except Fault (α × List Char)}
    (each : ∀ fuel, Prompt (read fuel)) (need : List Char → Nat)
    (enough : ∀ {fuel fuel' cs}, need cs ≤ fuel → need cs ≤ fuel' → read fuel cs = read fuel' cs) :
    Prompt fun cs => read (need cs) cs := by
  refine of_family each need fun cs cs' => ⟨need cs + need cs', ?_, fun result => ?_⟩
  · exact enough (Nat.le_add_right ..) (Nat.le_refl _)
  · rw [enough (Nat.le_add_left ..) (Nat.le_refl (need cs'))]

/-! ## Words, values and tests -/

theorem ident : Prompt ident where
  ok {cs rest value} read := by
    obtain ⟨taken, word, same⟩ := SelectorGrammar.ident_sound read
    refine ⟨taken, same, fun rest' head => SelectorGrammar.ident_complete word fun c first => ?_⟩
    have left : rest = cs.dropWhile isIdentChar := by
      unfold SelectorParser.ident at read
      simp only at read
      split at read
      · cases read
      · exact (Prod.mk.inj (Except.ok.inj read)).2.symm
    exact Text.stops_dropWhile isIdentChar cs c (left ▸ head ▸ first)
  error {cs fault c after} failed found := by
    unfold SelectorParser.ident at failed
    simp only at failed
    split at failed
    · next empty =>
      obtain rfl := Except.error.inj failed
      cases found
      have other : isIdentChar c = false := by
        simpa [List.takeWhile_cons] using empty
      refine ⟨[], rfl, fun more result read => ?_⟩
      simp [SelectorParser.ident, other] at read
    · cases failed

theorem quotedText (quote : Char) : Prompt (quotedText quote) where
  ok {cs rest value} read := by
    unfold SelectorParser.quotedText at read
    simp only at read
    split at read
    · cases read
    · next closing left found =>
      obtain ⟨rfl, rfl⟩ := Prod.mk.inj (Except.ok.inj read)
      cases cs with
      | nil => cases found
      | cons c cs =>
        simp only [List.drop_one, List.tail_cons] at found ⊢
        have inside : ∀ c ∈ cs.takeWhile (· != quote), (c != quote) = true :=
          List.all_eq_true.mp List.all_takeWhile
        have stop := Text.stops_dropWhile (· != quote) cs closing (by rw [found]; rfl)
        have whole := List.takeWhile_append_dropWhile (p := (· != quote)) (l := cs)
        rw [found] at whole
        refine ⟨c :: (cs.takeWhile (· != quote) ++ [closing]), by simp [whole], fun rest' _ => ?_⟩
        have closes : Text.Stops (· != quote) (closing :: rest') := Text.stops_cons stop
        simp only [SelectorParser.quotedText, List.cons_append, List.append_assoc,
          List.nil_append, List.drop_one, List.tail_cons, Text.takeWhile_run inside closes,
          Text.dropWhile_run inside closes]
  error {cs fault c after} failed found := by
    unfold SelectorParser.quotedText at failed
    simp only at failed
    split at failed
    · obtain rfl := Except.error.inj failed
      cases found
    · cases failed

theorem attributeValue : Prompt attributeValue := by
  refine look ⟨_, ident, rfl⟩ fun c => ?_
  by_cases double : c = '"'
  · subst double
    exact ⟨_, quotedText '"', fun _ => rfl⟩
  by_cases single : c = '\x27'
  · subst single
    exact ⟨_, quotedText '\x27', fun _ => rfl⟩
  · exact ⟨_, ident, fun rest => by simp [SelectorParser.attributeValue, double, single]⟩

theorem attributeValue? : Prompt attributeValue? := by
  refine look ⟨_, leave none, rfl⟩ fun c => ?_
  by_cases equals : c = '='
  · subst equals
    exact ⟨_, advance.bind fun _ => skip.bind fun _ => attributeValue.bind fun value =>
      skip.bind fun _ => leave (some value), fun _ => rfl⟩
  · exact ⟨_, leave none, fun rest => by simp [SelectorParser.attributeValue?, equals]⟩

theorem missing : Prompt fun cs => (.error (.missingIdent cs) : Except Fault (α × List Char)) :=
  fail fun found => by cases found; rfl

theorem unexpected (c : Char) :
    Prompt fun cs => (.error (.unexpected c cs) : Except Fault (α × List Char)) :=
  fail fun found => by cases found; rfl

/-- What is blamed when a test is not closed makes no difference to what is read. -/
theorem closeTest_eq_ok_iff (whole whole' : List Char) {test : AttributeTest}
    {result : AttributeTest × List Char} :
    closeTest whole test cs = .ok result ↔ closeTest whole' test cs = .ok result := by
  unfold closeTest
  split
  · rfl
  · rfl
  · exact ⟨(nomatch ·), (nomatch ·)⟩

theorem closeTest (whole : List Char) (test : AttributeTest) : Prompt (closeTest whole test) := by
  refine look ⟨fun _ => .error (.unterminatedAttribute whole), fail (nomatch ·), rfl⟩ fun c => ?_
  by_cases bracket : c = ']'
  · subst bracket
    exact ⟨_, advance.bind fun _ => leave test, fun _ => rfl⟩
  · exact ⟨_, unexpected c, fun rest => by simp [SelectorParser.closeTest]⟩

theorem attributeTest : Prompt attributeTest := by
  have each : ∀ whole, Prompt _ := fun whole => advance.bind fun _ => skip.bind fun _ =>
    ident.bind fun name => skip.bind fun _ => attributeValue?.bind fun value =>
      closeTest whole ⟨name, value⟩
  refine of_family each id fun cs cs' => ⟨cs, rfl, fun result => ?_⟩
  simp only [bind_eq_ok, closeTest_eq_ok_iff cs cs', id]

/-! ## Compounds -/

theorem tag? : Prompt fun cs => .ok (tag? cs) := by
  refine look ⟨_, leave none, rfl⟩ fun c => ?_
  by_cases star : c = '*'
  · subst star
    exact ⟨_, advance.bind fun _ => leave (some "*"), fun _ => rfl⟩
  by_cases word : isIdentChar c
  · refine ⟨_, ident.bind fun name => leave (some (String.ofList (name.toList.map Char.toLower))),
      fun rest => ?_⟩
    simp [SelectorParser.tag?, SelectorParser.ident, star, word, Bind.bind, Except.bind]
  · exact ⟨_, leave none, fun rest => by simp [SelectorParser.tag?, star, word]⟩

theorem tests (c : Compound) (fuel : Nat) : Prompt (tests c fuel) := by
  induction fuel generalizing c with
  | zero => exact leave c
  | succ fuel ih =>
    refine look ⟨_, leave c, rfl⟩ fun first => ?_
    by_cases dot : first = '.'
    · subst dot
      exact ⟨_, advance.bind fun _ => ident.bind fun name =>
        ih { c with classes := c.classes ++ [name] }, fun _ => rfl⟩
    by_cases bracket : first = '['
    · subst bracket
      exact ⟨_, attributeTest.bind fun test =>
        ih { c with attributes := c.attributes ++ [test] }, fun _ => rfl⟩
    · exact ⟨_, leave c, fun rest => by simp [SelectorParser.tests, dot, bracket]⟩

end Prompt

theorem tests_fuel {c : Compound} {fuel fuel' : Nat} (enough : cs.length ≤ fuel)
    (enough' : cs.length ≤ fuel') : tests c fuel cs = tests c fuel' cs := by
  induction fuel generalizing c fuel' cs with
  | zero =>
    obtain rfl := List.length_eq_zero_iff.mp (Nat.le_zero.mp enough)
    cases fuel' <;> rfl
  | succ fuel ih =>
    cases fuel' with
    | zero =>
      obtain rfl := List.length_eq_zero_iff.mp (Nat.le_zero.mp enough')
      rfl
    | succ fuel' =>
      unfold tests
      split
      · apply bind_congr_ok
        rintro ⟨name, left⟩ read
        obtain ⟨taken, _, rfl⟩ := SelectorGrammar.ident_sound read
        simp only [List.length_cons, List.length_append] at enough enough'
        exact ih (by omega) (by omega)
      · apply bind_congr_ok
        rintro ⟨test, left⟩ read
        obtain ⟨taken, isTest, same⟩ := SelectorGrammar.attributeTest_sound read
        obtain ⟨inner, rfl⟩ := isTest.exists_cons
        rw [same] at enough enough'
        simp only [List.cons_append, List.length_cons, List.length_append] at enough enough'
        exact ih (by omega) (by omega)
      · rfl

namespace Prompt

theorem closeCompound (c : Compound) : Prompt (closeCompound c) := by
  unfold SelectorParser.closeCompound
  by_cases empty : c.isEmpty
  · simp only [empty, if_true]
    exact look ⟨_, missing, rfl⟩ fun first => ⟨_, unexpected first, fun _ => rfl⟩
  · simp only [empty]
    exact leave c

theorem compound : Prompt compound :=
  tag?.bind fun tag => (of_fuel (tests { tag }) List.length tests_fuel).bind closeCompound

end Prompt

/-! ## Chains and lists -/

def furtherCompounds (fuel : Nat) (cs : List Char) : Except Fault (Chain × List Char) :=
  match cs with
  | [] => .ok ([], [])
  | found :: _ =>
    if found = ',' then .ok ([], cs)
    else do
      let (c, rest) ← compound cs
      let (chain, rest) ← compounds fuel rest
      return (c :: chain, rest)

theorem compounds_of_blank {c : Char} (blank : Text.isBlank c) (fuel : Nat) (rest : List Char) :
    compounds (fuel + 1) (c :: rest) = furtherCompounds fuel (skipBlanks rest) := by
  have skipped : skipBlanks (c :: rest) = skipBlanks rest := List.dropWhile_cons_of_pos blank
  have shorter : (skipBlanks rest).length ≤ rest.length := (List.dropWhile_sublist _).length_le
  unfold compounds furtherCompounds
  rw [skipped]
  split
  · next ended => rw [ended]
  · next ended => simp only [ended, if_true]
  · next found following noComma ended =>
    simp only [ended, List.length_cons] at shorter ⊢
    rw [if_pos (Nat.lt_succ_of_le shorter), if_neg noComma]

/-- A compound that is not the first one stands behind a blank. -/
theorem compounds_of_not_blank {c : Char} (solid : ¬Text.isBlank c) (fuel : Nat)
    (rest : List Char) :
    compounds (fuel + 1) (c :: rest) =
      if c = ',' then .ok ([], c :: rest) else .error (.unexpected c (c :: rest)) := by
  have stays : skipBlanks (c :: rest) = c :: rest := List.dropWhile_cons_of_neg solid
  unfold compounds
  rw [stays]
  split
  · next ended => cases ended
  · next ended =>
    obtain ⟨rfl, rfl⟩ := List.cons.inj ended
    rfl
  · next found following noComma ended =>
    obtain ⟨rfl, rfl⟩ := List.cons.inj ended
    rw [List.length_cons, if_neg (Nat.lt_irrefl _), if_neg noComma]

namespace Prompt

theorem compounds (fuel : Nat) : Prompt (compounds fuel) := by
  induction fuel with
  | zero => exact leave []
  | succ fuel ih =>
    have further : Prompt (furtherCompounds fuel) := by
      refine look ⟨_, leave [], rfl⟩ fun c => ?_
      by_cases comma : c = ','
      · exact ⟨_, leave [], fun rest => if_pos comma⟩
      · exact ⟨_, compound.bind fun c => ih.bind fun chain => leave (c :: chain),
          fun rest => if_neg comma⟩
    refine look ⟨_, leave [], rfl⟩ fun c => ?_
    by_cases blank : Text.isBlank c
    · exact ⟨_, advance.bind fun _ => skip.bind fun _ => further, compounds_of_blank blank fuel⟩
    by_cases comma : c = ','
    · exact ⟨_, leave [], fun rest => (compounds_of_not_blank blank fuel rest).trans (if_pos comma)⟩
    · exact ⟨_, unexpected c, fun rest =>
        (compounds_of_not_blank blank fuel rest).trans (if_neg comma)⟩

end Prompt

theorem compounds_fuel {fuel fuel' : Nat} (enough : cs.length < fuel)
    (enough' : cs.length < fuel') : compounds fuel cs = compounds fuel' cs := by
  induction fuel generalizing fuel' cs with
  | zero => exact absurd enough (Nat.not_lt_zero _)
  | succ fuel ih =>
    obtain ⟨fuel', rfl⟩ := Nat.exists_eq_succ_of_ne_zero (Nat.ne_zero_of_lt enough')
    unfold compounds
    split
    · rfl
    · rfl
    · next found following _ ended =>
      split
      · next shorter =>
        apply bind_congr_ok
        rintro ⟨c, left⟩ read
        obtain ⟨taken, _, same⟩ := SelectorGrammar.compound_sound read
        have less : left.length ≤ following.length + 1 := by
          rw [← List.length_cons, same, List.length_append]
          exact Nat.le_add_left ..
        simp only [@ih left fuel' (by omega) (by omega)]
      · rfl

namespace Prompt

theorem chain : Prompt chain :=
  compound.bind fun c =>
    (of_fuel compounds (fun cs => cs.length + 1) compounds_fuel).bind fun cs => leave (c :: cs)

theorem consume (value : α) : Prompt fun _ => .ok (value, []) where
  ok {cs rest value} read := by
    obtain ⟨rfl, rfl⟩ := Prod.mk.inj (Except.ok.inj read)
    refine ⟨cs, (List.append_nil cs).symm, fun rest' head => ?_⟩
    rw [List.head?_eq_none_iff.mp head]
  error failed := nomatch failed

end Prompt

def wholeList (fuel : Nat) (cs : List Char) : Except Fault (List Chain × List Char) :=
  chains fuel cs >>= fun alternatives => .ok (alternatives, [])

def furtherChains (fuel : Nat) (first : Chain) (cs : List Char) :
    Except Fault (List Chain × List Char) :=
  match cs with
  | [] => .ok ([first], [])
  | found :: rest =>
    if found = ',' then wholeList fuel rest >>= fun read => .ok (first :: read.1, read.2)
    else .error (.unexpected found cs)

theorem wholeList_succ (fuel : Nat) (cs : List Char) :
    wholeList (fuel + 1) cs =
      chain (skipBlanks cs) >>= fun read => furtherChains fuel read.1 read.2 := by
  unfold wholeList chains
  rw [bind_assoc]
  apply bind_congr_ok
  rintro ⟨first, left⟩ _
  cases left with
  | nil => rfl
  | cons found rest =>
    by_cases comma : found = ','
    · subst comma
      simp only [furtherChains, wholeList, if_true, bind_assoc]
      exact bind_congr_ok fun _ _ => rfl
    · simp only [furtherChains, if_neg comma]
      rfl

namespace Prompt

theorem wholeList (fuel : Nat) : Prompt (wholeList fuel) := by
  induction fuel with
  | zero => exact consume []
  | succ fuel ih =>
    have further : ∀ first, Prompt (furtherChains fuel first) := by
      intro first
      refine look ⟨_, consume [first], rfl⟩ fun c => ?_
      by_cases comma : c = ','
      · exact ⟨_, advance.bind fun _ => ih.bind fun others => leave (first :: others),
          fun rest => if_pos comma⟩
      · exact ⟨_, unexpected c, fun rest => if_neg comma⟩
    rw [funext (wholeList_succ fuel)]
    exact skip.bind fun _ => chain.bind further

end Prompt

theorem chains_fuel {fuel fuel' : Nat} (enough : cs.length < fuel) (enough' : cs.length < fuel') :
    chains fuel cs = chains fuel' cs := by
  induction fuel generalizing fuel' cs with
  | zero => exact absurd enough (Nat.not_lt_zero _)
  | succ fuel ih =>
    obtain ⟨fuel', rfl⟩ := Nat.exists_eq_succ_of_ne_zero (Nat.ne_zero_of_lt enough')
    unfold chains
    apply bind_congr_ok
    rintro ⟨first, left⟩ read
    obtain ⟨taken, blanks, _, _, same⟩ := SelectorGrammar.chain_sound read
    obtain ⟨before, _, front⟩ := SelectorGrammar.skipBlanks_sound cs
    simp only
    split
    · next rest =>
      have less : rest.length < cs.length := by
        rw [front, same]
        simp only [List.length_append, List.length_cons]
        omega
      rw [@ih rest fuel' (by omega) (by omega)]
    · rfl
    · rfl

/-- A list that cannot go on with a character is not read, whatever comes after the character. -/
theorem chains_blocked {fault : Fault} {c : Char} {after : List Char}
    (failed : chains (cs.length + 1) cs = .error fault) (found : fault.At c after) :
    ∃ before, cs = before ++ c :: after ∧
      ∀ more alternatives, ¬SelectorGrammar.Alternatives (before ++ c :: more) alternatives := by
  have prompt := Prompt.of_fuel Prompt.wholeList (fun cs => cs.length + 1) fun enough enough' => by
    unfold wholeList
    rw [chains_fuel enough enough']
  obtain ⟨before, same, none⟩ := prompt.error (bind_eq_error.mpr (.inl failed)) found
  refine ⟨before, same, fun more alternatives h => none more (alternatives, []) ?_⟩
  exact bind_eq_ok.mpr ⟨_, SelectorGrammar.chains_complete h (Nat.lt_succ_self _), rfl⟩

end FormDependencies.SelectorParser
