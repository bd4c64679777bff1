import FormDependencies.Proofs.Selector.Lookahead

/-!
Where faults of selectors are found. A reader fails at the first character that no selector has
there, or at the end of a text that the beginning of a selector is; what was opened last and not
closed is blamed where it was opened.
-/

namespace FormDependencies

namespace SelectorParser

open SelectorGrammar
open Text (Blank blank_nil)

variable {cs rest : List Char} {fault : Fault}

/-- A fault is found at the end of a text, which may go on with some more. -/
inductive Fault.Open : Fault → List Char → List Char → Prop
  | missingIdent (cs more : List Char) : Open (.missingIdent []) cs more
  | unterminatedAttribute (before : List Char) {inside : List Char} {test : AttributeTest} :
      Test ('[' :: inside ++ [']']) test →
      Open (.unterminatedAttribute ('[' :: inside)) (before ++ '[' :: inside) [']']
  | unterminatedString (before : List Char) {quote : Char} {inside : List Char} :
      quote = '"' ∨ quote = '\x27' → quote ∉ inside →
      Open (.unterminatedString (quote :: inside)) (before ++ quote :: inside) [quote, ']']

/-- A fault is found at a character, or the text can go on so that it belongs to a rule. -/
def Fault.Points (fault : Fault) (cs : List Char) (rule : List Char → Prop) : Prop :=
  (∃ c after, fault.At c after) ∨ ∃ more, fault.Open cs more ∧ rule (cs ++ more)

theorem Fault.Open.behind {more : List Char} (h : fault.Open rest more) (front : List Char) :
    fault.Open (front ++ rest) more := by
  cases h with
  | missingIdent => exact .missingIdent ..
  | unterminatedAttribute before test =>
    rw [← List.append_assoc]
    exact .unterminatedAttribute _ test
  | unterminatedString before isQuote free =>
    rw [← List.append_assoc]
    exact .unterminatedString _ isQuote free

theorem Fault.Points.behind {rule rule' : List Char → Prop} (h : fault.Points rest rule)
    (front : List Char)
    (completes : ∀ more, rule (rest ++ more) → rule' (front ++ (rest ++ more))) :
    fault.Points (front ++ rest) rule' := by
  rcases h with found | ⟨more, opened, complete⟩
  · exact .inl found
  · refine .inr ⟨more, opened.behind front, ?_⟩
    rw [List.append_assoc]
    exact completes more complete

theorem points_unexpected (c : Char) (after : List Char) (cs : List Char)
    (rule : List Char → Prop) : (Fault.unexpected c (c :: after)).Points cs rule :=
  .inl ⟨c, after, .unexpected c after⟩

/-- Where an identifier is missing, the text has ended or goes on with another character. -/
theorem points_missingIdent (front rest : List Char) {rule : List Char → Prop}
    (completes : ∃ more, rule (front ++ more)) :
    (Fault.missingIdent rest).Points (front ++ rest) rule := by
  cases rest with
  | nil =>
    obtain ⟨more, complete⟩ := completes
    exact .inr ⟨more, .missingIdent .., by simpa using complete⟩
  | cons c after => exact .inl ⟨c, after, .missingIdent c after⟩

theorem ident_error (failed : ident cs = .error fault) : fault = .missingIdent cs := by
  unfold ident at failed
  simp only at failed
  split at failed
  · exact (Except.error.inj failed).symm
  · cases failed

theorem isIdentChar_letter : ∀ c ∈ ['a'], isIdentChar c = true :=
  List.forall_mem_singleton.mpr rfl

theorem isIdent_letter : Ident ['a'] "a" := .mk (by simp) isIdentChar_letter

/-! ## Values and tests -/

theorem quotedText_error {quote : Char}
    (failed : quotedText quote (quote :: cs) = .error fault) :
    fault = .unterminatedString (quote :: cs) ∧ quote ∉ cs := by
  unfold quotedText at failed
  simp only [List.drop_one, List.tail_cons] at failed
  split at failed
  · next none =>
    refine ⟨(Except.error.inj failed).symm, fun mem => ?_⟩
    have whole := List.takeWhile_append_dropWhile (p := (· != quote)) (l := cs)
    rw [none, List.append_nil] at whole
    have inside : quote ∈ cs.takeWhile (· != quote) := whole.symm ▸ mem
    simpa using List.all_eq_true.mp List.all_takeWhile quote inside
  · cases failed

/-- A value in a test is missing, or its quote is not closed. -/
theorem attributeValue_points (failed : attributeValue cs = .error fault) (front : List Char)
    {rule : List Char → Prop}
    (completes : ∀ taken value, Value taken value → rule (front ++ (taken ++ [']']))) :
    fault.Points (front ++ cs) rule := by
  have quoted : ∀ quote inside, quote = '"' ∨ quote = '\x27' →
      quotedText quote (quote :: inside) = .error fault →
      fault.Points (front ++ quote :: inside) rule := by
    intro quote inside isQuote failed
    obtain ⟨rfl, free⟩ := quotedText_error failed
    refine .inr ⟨[quote, ']'], .unterminatedString _ isQuote free, ?_⟩
    simpa using completes _ _ (.quoted isQuote free)
  unfold attributeValue at failed
  split at failed
  · exact quoted '"' _ (.inl rfl) failed
  · exact quoted '\x27' _ (.inr rfl) failed
  · rw [ident_error failed]
    exact points_missingIdent front cs ⟨_, completes _ _ (.ident isIdent_letter)⟩

theorem attributeValue?_points (failed : attributeValue? cs = .error fault) (front : List Char)
    {rule : List Char → Prop}
    (completes : ∀ taken value, Expected taken value → rule (front ++ (taken ++ [']']))) :
    fault.Points (front ++ cs) rule := by
  unfold attributeValue? at failed
  split at failed
  · next following =>
    rcases bind_eq_error.mp failed with invalid | ⟨_, _, none⟩
    · obtain ⟨before, leading, split⟩ := skipBlanks_sound following
      have points : fault.Points ((front ++ '=' :: before) ++ _) rule :=
        attributeValue_points invalid _ fun taken value valued => by
          simpa using completes _ _ (.given leading valued blank_nil)
      simpa [← split] using points
    · cases none
  · cases failed

theorem attributeTest_points (failed : attributeTest ('[' :: cs) = .error fault) :
    fault.Points ('[' :: cs) fun ds => ∃ test, Test ds test := by
  obtain ⟨before, leading, front⟩ := skipBlanks_sound cs
  rcases bind_eq_error.mp failed with unnamed | ⟨⟨name, left⟩, named, failed⟩
  · have whole : '[' :: cs = ('[' :: before) ++ skipBlanks cs := congrArg ('[' :: ·) front
    have test := Test.mk leading isIdent_letter blank_nil .absent
    rw [ident_error unnamed, List.drop_one, List.tail_cons, whole]
    exact points_missingIdent ('[' :: before) (skipBlanks cs)
      ⟨['a', ']'], _, by simpa using test⟩
  obtain ⟨word, isIdent, split⟩ := ident_sound named
  obtain ⟨after, trailing, back⟩ := skipBlanks_sound left
  have whole : cs = before ++ (word ++ (after ++ skipBlanks left)) := by
    rw [← back, ← split]
    exact front
  rcases bind_eq_error.mp failed with invalid | ⟨⟨value, rest⟩, valued, failed⟩
  · have split' : '[' :: cs = ('[' :: (before ++ word ++ after)) ++ skipBlanks left := by
      simpa using whole
    rw [split']
    exact attributeValue?_points invalid _ fun taken value expected =>
      ⟨_, by simpa using Test.mk leading isIdent trailing expected⟩
  · obtain ⟨taken, expected, split'⟩ := attributeValue?_sound valued
    simp only at failed
    split at failed
    · cases failed
    · obtain rfl := Except.error.inj failed
      exact points_unexpected ..
    · obtain rfl := Except.error.inj failed
      have test := Test.mk leading isIdent trailing expected
      have same : cs = before ++ word ++ after ++ taken := by
        rw [whole, split']
        simp
      rw [← same] at test
      exact .inr ⟨[']'], .unterminatedAttribute [] test, _, test⟩

/-! ## Compounds -/

theorem tests_points {c : Compound} {fuel : Nat} (failed : tests c fuel cs = .error fault) :
    cs ≠ [] ∧ fault.Points cs fun ds => ∃ classes attributes, Tests ds classes attributes := by
  induction fuel generalizing c cs with
  | zero => cases failed
  | succ fuel ih =>
    unfold tests at failed
    split at failed
    · next rest =>
      refine ⟨by simp, ?_⟩
      rcases bind_eq_error.mp failed with unnamed | ⟨⟨name, left⟩, named, later⟩
      · rw [ident_error unnamed]
        have tests := Tests.classTest isIdent_letter .nil
        exact points_missingIdent ['.'] rest ⟨['a'], _, _, tests⟩
      · obtain ⟨word, isIdent, rfl⟩ := ident_sound named
        refine (ih later).2.behind ('.' :: word) fun more complete => ?_
        obtain ⟨classes, attributes, tests⟩ := complete
        exact ⟨_, _, .classTest isIdent tests⟩
    · next rest =>
      refine ⟨by simp, ?_⟩
      rcases bind_eq_error.mp failed with untested | ⟨⟨test, left⟩, tested, later⟩
      · refine (attributeTest_points untested).behind [] fun more complete => ?_
        obtain ⟨test, isTest⟩ := complete
        exact ⟨_, _, by simpa using Tests.attributeTest isTest .nil⟩
      · obtain ⟨taken, isTest, same⟩ := attributeTest_sound tested
        rw [same]
        refine (ih later).2.behind taken fun more complete => ?_
        obtain ⟨classes, attributes, tests⟩ := complete
        exact ⟨_, _, .attributeTest isTest tests⟩
    · cases failed

theorem isCompound_letter : IsCompound ['a'] ⟨some "a", [], []⟩ := by
  have tag : Tag ['a'] (some "a") := .word (by simp) isIdentChar_letter
  exact .mk tag .nil (by simp)

theorem compound_points (failed : compound cs = .error fault) :
    fault.Points cs fun ds => ∃ c, IsCompound ds c := by
  unfold compound at failed
  cases tagged : tag? cs with
  | mk tag left =>
    rw [tagged] at failed
    obtain ⟨front, isTag, rfl⟩ := tag?_sound tagged
    rcases bind_eq_error.mp failed with untested | ⟨⟨made, left'⟩, tested, later⟩
    · obtain ⟨some, points⟩ := tests_points untested
      refine points.behind front fun more complete => ?_
      obtain ⟨classes, attributes, tests⟩ := complete
      exact ⟨_, .mk isTag tests (by simp [some])⟩
    · obtain ⟨back, classes, attributes, isTests, rfl, rfl⟩ := tests_sound tested
      simp only [List.nil_append] at later
      split at later
      · next empty =>
        have none := (append_eq_nil_iff isTag isTests).mpr empty
        obtain ⟨rfl, rfl⟩ := List.append_eq_nil_iff.mp none
        split at later
        · obtain rfl := Except.error.inj later
          exact points_unexpected ..
        · obtain rfl := Except.error.inj later
          exact points_missingIdent [] [] ⟨['a'], _, isCompound_letter⟩
      · cases later

/-! ## Chains and lists -/

theorem compounds_points {fuel : Nat} (failed : compounds fuel cs = .error fault) :
    fault.Points cs fun ds => ∃ chain, Descent ds chain := by
  induction fuel generalizing cs with
  | zero => cases failed
  | succ fuel ih =>
    obtain ⟨blanks, blank, front⟩ := skipBlanks_sound cs
    unfold compounds at failed
    split at failed
    · cases failed
    · cases failed
    · next found following _ ended =>
      rw [ended] at front
      split at failed
      · next shorter =>
        have some : blanks ≠ [] := by
          rintro rfl
          simp [front] at shorter
        rw [front]
        rcases bind_eq_error.mp failed with broken | ⟨⟨c, left⟩, first, later⟩
        · refine (compound_points broken).behind blanks fun more complete => ?_
          obtain ⟨c, isCompound⟩ := complete
          exact ⟨_, by simpa using Descent.cons blank some isCompound .nil⟩
        · obtain ⟨taken, isCompound, same⟩ := compound_sound first
          rcases bind_eq_error.mp later with broken | ⟨_, _, none⟩
          · rw [same, ← List.append_assoc]
            refine (ih broken).behind (blanks ++ taken) fun more complete => ?_
            obtain ⟨chain, descent⟩ := complete
            exact ⟨_, .cons blank some isCompound descent⟩
          · cases none
      · obtain rfl := Except.error.inj failed
        exact points_unexpected ..

theorem chain_points (failed : chain cs = .error fault) :
    fault.Points cs fun ds => ∃ chain, IsChain ds chain := by
  rcases bind_eq_error.mp failed with broken | ⟨⟨c, left⟩, first, later⟩
  · refine (compound_points broken).behind [] fun more complete => ?_
    obtain ⟨c, isCompound⟩ := complete
    exact ⟨_, by simpa using IsChain.mk isCompound .nil⟩
  · obtain ⟨taken, isCompound, rfl⟩ := compound_sound first
    rcases bind_eq_error.mp later with broken | ⟨_, _, none⟩
    · refine (compounds_points broken).behind taken fun more complete => ?_
      obtain ⟨chain, descent⟩ := complete
      exact ⟨_, .mk isCompound descent⟩
    · cases none

theorem chains_points {fuel : Nat} (failed : chains fuel cs = .error fault) :
    fault.Points cs fun ds => ∃ alternatives, Alternatives ds alternatives := by
  induction fuel generalizing cs with
  | zero => cases failed
  | succ fuel ih =>
    obtain ⟨before, leading, front⟩ := skipBlanks_sound cs
    rcases bind_eq_error.mp failed with broken | ⟨⟨first, left⟩, one, later⟩
    · rw [front]
      refine (chain_points broken).behind before fun more complete => ?_
      obtain ⟨chain, isChain⟩ := complete
      exact ⟨_, by simpa using Alternatives.single leading isChain blank_nil⟩
    · obtain ⟨taken, after, isChain, trailing, same⟩ := chain_sound one
      simp only at later
      split at later
      · next following =>
        rcases bind_eq_error.mp later with broken | ⟨_, _, none⟩
        · have whole : cs = before ++ taken ++ after ++ [','] ++ following := by
            rw [front, same]
            simp
          rw [whole]
          refine (ih broken).behind _ fun more complete => ?_
          obtain ⟨chains, alternatives⟩ := complete
          exact ⟨_, by simpa using Alternatives.cons leading isChain trailing alternatives⟩
        · cases none
      · obtain rfl := Except.error.inj later
        exact points_unexpected ..
      · cases later

end SelectorParser

namespace Selector

open SelectorParser SelectorGrammar

def Accepted (text : String) : Prop := ∃ s, Selector.parse text = .ok s

/-- Whether a selector may begin with a text. -/
def Viable (text : String) : Prop := ∃ more, Accepted (text ++ more)

/-- A character stands at an offset of a text, and no selector begins like the text up to and with
this character. -/
def Blocked (text : String) (offset : Nat) (found : Char) : Prop :=
  ∃ before after, text = before ++ String.singleton found ++ after ∧
    offset = before.utf8ByteSize ∧ ¬Viable (before ++ String.singleton found)

/-- What an error says of a text is so. A character that is found, or that stands where an
identifier is missing, is where no selector has it; otherwise the text has ended too early, and what
is not terminated begins with the bracket or quote at the offset. -/
def Explains (text : String) : SelectorError → Prop
  | .empty => Viable text
  | .unexpectedChar source offset found => source = text ∧ Blocked text offset found
  | .missingIdent source offset =>
    source = text ∧ if offset < text.utf8ByteSize then ∃ found, Blocked text offset found
      else offset = text.utf8ByteSize ∧ Viable text
  | .unterminatedAttribute source offset =>
    source = text ∧ Accepted (text ++ "]") ∧
      ∃ before inside test, text = before ++ "[" ++ inside ∧ offset = before.utf8ByteSize ∧
        Test ("[" ++ inside ++ "]").toList test
  | .unterminatedString source offset =>
    source = text ∧ ∃ before quote inside, text = before ++ String.singleton quote ++ inside ∧
      offset = before.utf8ByteSize ∧ (quote = '"' ∨ quote = '\x27') ∧ quote ∉ inside.toList ∧
      Accepted (text ++ String.singleton quote ++ "]")

theorem accepted_iff {text : String} :
    Accepted text ↔ ∃ alternatives, Alternatives text.toList alternatives := by
  constructor
  · rintro ⟨s, read⟩
    exact ⟨_, (parse_eq_ok.mp read).1⟩
  · rintro ⟨alternatives, h⟩
    exact ⟨⟨Text.trim text, alternatives⟩, parse_eq_ok.mpr ⟨h, rfl⟩⟩

theorem viable_iff {text : String} :
    Viable text ↔ ∃ more alternatives, Alternatives (text.toList ++ more) alternatives := by
  unfold Viable
  constructor
  · rintro ⟨more, accepted⟩
    obtain ⟨alternatives, h⟩ := accepted_iff.mp accepted
    exact ⟨more.toList, alternatives, by simpa using h⟩
  · rintro ⟨more, alternatives, h⟩
    exact ⟨String.ofList more, accepted_iff.mpr ⟨alternatives, by simpa using h⟩⟩

/-- A text of blanks is where a selector may begin. -/
theorem viable_of_trimChars {text : String} (empty : Text.trimChars text.toList = []) :
    Viable text := by
  have chain : IsChain (['a'] ++ []) _ := .mk isCompound_letter .nil
  have alternatives := Alternatives.single (Text.blank_of_trimChars empty) chain Text.blank_nil
  exact viable_iff.mpr ⟨['a'], _, by simpa using alternatives⟩

theorem blocked_of_at {text : String} {fault : Fault} {c : Char} {after : List Char}
    (failed : chains (text.toList.length + 1) text.toList = .error fault)
    (found : fault.At c after) : Blocked text (Text.offset text.toList (c :: after)) c := by
  obtain ⟨before, same, none⟩ := chains_blocked failed found
  refine ⟨String.ofList before, String.ofList after, ?_, ?_, fun viable => ?_⟩
  · rw [← String.toList_inj]
    simpa using same
  · rw [same, Text.offset_append, Text.byteLength_eq_utf8ByteSize]
  · obtain ⟨more, alternatives, h⟩ := viable_iff.mp viable
    exact none more alternatives (by simpa using h)

theorem Blocked.lt {text : String} {offset : Nat} {found : Char} (h : Blocked text offset found) :
    offset < text.utf8ByteSize := by
  obtain ⟨before, after, rfl, rfl, -⟩ := h
  have size := Char.utf8Size_pos found
  simp only [String.utf8ByteSize_append, String.utf8ByteSize_singleton]
  omega

theorem explains_of_at {text : String} {fault : Fault} {c : Char} {after : List Char}
    (failed : chains (text.toList.length + 1) text.toList = .error fault)
    (found : fault.At c after) : Explains text (fault.toError text) := by
  have blocked := blocked_of_at failed found
  cases found with
  | unexpected => exact ⟨rfl, blocked⟩
  | missingIdent =>
    refine ⟨rfl, ?_⟩
    rw [if_pos blocked.lt]
    exact ⟨c, blocked⟩

theorem explains_of_open {text : String} {fault : Fault} {more : List Char}
    {alternatives : List Chain} (opened : fault.Open text.toList more)
    (h : Alternatives (text.toList ++ more) alternatives) :
    Explains text (fault.toError text) := by
  have viable : Viable text := viable_iff.mpr ⟨more, alternatives, h⟩
  generalize whole : text.toList = cs at opened h
  cases opened with
  | missingIdent =>
    have ended : Text.offset text.toList [] = text.utf8ByteSize := by
      rw [Text.offset, Text.byteLength_eq_utf8ByteSize, String.ofList_toList]
      rfl
    refine ⟨rfl, ?_⟩
    rw [if_neg (Nat.not_lt.mpr (Nat.le_of_eq ended.symm))]
    exact ⟨ended, viable⟩
  | @unterminatedAttribute before inside test isTest =>
    refine ⟨rfl, accepted_iff.mpr ⟨alternatives, by simpa [whole] using h⟩,
      String.ofList before, String.ofList inside, test, ?_, ?_, by simpa using isTest⟩
    · rw [← String.toList_inj]
      simpa using whole
    · rw [whole, Text.offset_append, Text.byteLength_eq_utf8ByteSize]
  | @unterminatedString before quote inside isQuote free =>
    refine ⟨rfl, String.ofList before, quote, String.ofList inside, ?_, ?_, isQuote,
      by simpa using free, accepted_iff.mpr ⟨alternatives, by simpa [whole] using h⟩⟩
    · rw [← String.toList_inj]
      simpa using whole
    · rw [whole, Text.offset_append, Text.byteLength_eq_utf8ByteSize]

/-- Whenever a text is not read, the error points at what is wrong with it. -/
theorem parse_explains {text : String} {e : SelectorError}
    (failed : Selector.parse text = .error e) : Explains text e := by
  unfold Selector.parse at failed
  simp only at failed
  split at failed
  · next blank =>
    obtain rfl := Except.error.inj failed
    exact viable_of_trimChars (List.isEmpty_iff.mp blank)
  split at failed
  · cases failed
  · next fault read =>
    obtain rfl := Except.error.inj failed
    rcases chains_points read with ⟨c, after, found⟩ | ⟨more, opened, alternatives, h⟩
    · exact explains_of_at read found
    · exact explains_of_open opened h

/-- An unexpected character behind a longer one, an identifier that is missing at the end, and a
quote and a bracket that are not closed. -/
theorem parse_explains_places :
    Selector.parse "[é='ü'é]" = .error (.missingIdent "[é='ü'é]" 1) ∧
      Explains "[é='ü'é]" (.missingIdent "[é='ü'é]" 1) ∧
      Explains "[a='ü'é]" (.unexpectedChar "[a='ü'é]" 7 'é') ∧
      Explains "a," (.missingIdent "a," 2) ∧
      Explains "b[c=\"]d" (.unterminatedString "b[c=\"]d" 4) ∧
      Explains "b[c='['" (.unterminatedAttribute "b[c='['" 1) := by
  exact ⟨rfl, parse_explains rfl, parse_explains rfl, parse_explains rfl, parse_explains rfl,
    parse_explains rfl⟩

end Selector

end FormDependencies
