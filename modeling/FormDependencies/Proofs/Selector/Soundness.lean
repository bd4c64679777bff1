import FormDependencies.Proofs.Selector.Grammar

/-!
What the readers of selectors read is what the grammar says: each of them takes a text of its rule
off the front and leaves the rest.
-/

namespace FormDependencies.SelectorGrammar

open SelectorParser
open Text (Blank)

variable {cs rest : List Char}

theorem skipBlanks_sound (cs : List Char) :
    ∃ blanks, Blank blanks ∧ cs = blanks ++ skipBlanks cs :=
  ⟨cs.takeWhile Text.isBlank, Text.blank_takeWhile cs, List.takeWhile_append_dropWhile.symm⟩

theorem ident_sound {name : String} (read : ident cs = .ok (name, rest)) :
    ∃ taken, Ident taken name ∧ cs = taken ++ rest := by
  unfold ident at read
  simp only at read
  split at read
  · cases read
  · next some =>
    obtain ⟨rfl, rfl⟩ := Prod.mk.inj (Except.ok.inj read)
    refine ⟨cs.takeWhile isIdentChar, .mk ?_ ?_, List.takeWhile_append_dropWhile.symm⟩
    · simpa using some
    · exact fun c mem => List.all_eq_true.mp List.all_takeWhile c mem

theorem quotedText_sound {quote : Char} {value : String}
    (read : quotedText quote (quote :: cs) = .ok (value, rest)) :
    ∃ text, quote ∉ text ∧ value = String.ofList text ∧
      quote :: cs = quote :: (text ++ [quote]) ++ rest := by
  unfold quotedText at read
  simp only [List.drop_one, List.tail_cons] at read
  split at read
  · cases read
  · next closing rest' left =>
    obtain ⟨rfl, rfl⟩ := Prod.mk.inj (Except.ok.inj read)
    have closes : closing = quote := by
      have := Text.stops_dropWhile (· != quote) cs closing (by rw [left]; rfl)
      simpa using this
    refine ⟨cs.takeWhile (· != quote), ?_, rfl, ?_⟩
    · intro mem
      simpa using List.all_eq_true.mp List.all_takeWhile quote mem
    · have := List.takeWhile_append_dropWhile (p := (· != quote)) (l := cs)
      rw [left, closes] at this
      simp [this]

theorem attributeValue_sound {value : String} (read : attributeValue cs = .ok (value, rest)) :
    ∃ taken, Value taken value ∧ cs = taken ++ rest := by
  unfold attributeValue at read
  split at read
  · obtain ⟨text, free, rfl, same⟩ := quotedText_sound read
    exact ⟨_, .quoted (.inl rfl) free, same⟩
  · obtain ⟨text, free, rfl, same⟩ := quotedText_sound read
    exact ⟨_, .quoted (.inr rfl) free, same⟩
  · obtain ⟨taken, word, same⟩ := ident_sound read
    exact ⟨taken, .ident word, same⟩

theorem attributeValue?_sound {value : Option String}
    (read : attributeValue? cs = .ok (value, rest)) :
    ∃ taken, Expected taken value ∧ cs = taken ++ rest := by
  unfold attributeValue? at read
  split at read
  · next following =>
    obtain ⟨⟨value', left⟩, got, same⟩ := bind_eq_ok.mp read
    obtain ⟨rfl, rfl⟩ := Prod.mk.inj (Except.ok.inj same)
    obtain ⟨before, leading, front⟩ := skipBlanks_sound following
    obtain ⟨taken, value, same⟩ := attributeValue_sound got
    obtain ⟨after, trailing, back⟩ := skipBlanks_sound left
    have whole : following = before ++ (taken ++ (after ++ skipBlanks left)) := by
      rw [← back, ← same, ← front]
    exact ⟨_, .given leading value trailing, by simp [whole]⟩
  · obtain ⟨rfl, rfl⟩ := Prod.mk.inj (Except.ok.inj read)
    exact ⟨[], .absent, rfl⟩

theorem attributeTest_sound {test : AttributeTest}
    (read : attributeTest ('[' :: cs) = .ok (test, rest)) :
    ∃ taken, Test taken test ∧ '[' :: cs = taken ++ rest := by
  obtain ⟨⟨name, left⟩, named, read⟩ := bind_eq_ok.mp read
  obtain ⟨⟨value, left'⟩, valued, read⟩ := bind_eq_ok.mp read
  obtain ⟨before, leading, front⟩ := skipBlanks_sound cs
  obtain ⟨word, isIdent, same⟩ := ident_sound named
  obtain ⟨after, trailing, back⟩ := skipBlanks_sound left
  obtain ⟨taken, expected, same'⟩ := attributeValue?_sound valued
  simp only at read
  split at read
  · next following =>
    obtain ⟨rfl, rfl⟩ := Prod.mk.inj (Except.ok.inj read)
    have whole : cs = before ++ (word ++ (after ++ (taken ++ (']' :: following)))) := by
      rw [← same', ← back, ← same]
      exact front
    exact ⟨_, .mk leading isIdent trailing expected, by simp [whole]⟩
  · cases read
  · cases read

theorem tag?_sound {tag : Option String} (read : tag? cs = (tag, rest)) :
    ∃ taken, Tag taken tag ∧ cs = taken ++ rest := by
  unfold tag? at read
  split at read
  · obtain ⟨rfl, rfl⟩ := Prod.mk.inj read
    exact ⟨['*'], .any, rfl⟩
  · simp only at read
    split at read
    · obtain ⟨rfl, rfl⟩ := Prod.mk.inj read
      exact ⟨[], .absent, rfl⟩
    · next some =>
      obtain ⟨rfl, rfl⟩ := Prod.mk.inj read
      refine ⟨cs.takeWhile isIdentChar, .word ?_ ?_, List.takeWhile_append_dropWhile.symm⟩
      · simpa using some
      · exact fun c mem => List.all_eq_true.mp List.all_takeWhile c mem

theorem tests_sound {fuel : Nat} {start c : Compound}
    (read : tests start fuel cs = .ok (c, rest)) :
    ∃ taken classes attributes, Tests taken classes attributes ∧ cs = taken ++ rest ∧
      c = { start with classes := start.classes ++ classes
                       attributes := start.attributes ++ attributes } := by
  induction fuel generalizing start cs with
  | zero =>
    obtain ⟨rfl, rfl⟩ := Prod.mk.inj (Except.ok.inj read)
    exact ⟨[], [], [], .nil, rfl, by simp⟩
  | succ fuel ih =>
    unfold tests at read
    split at read
    · obtain ⟨⟨name, left⟩, named, read⟩ := bind_eq_ok.mp read
      obtain ⟨word, isIdent, same⟩ := ident_sound named
      obtain ⟨taken, classes, attributes, more, same', made⟩ := ih read
      exact ⟨_, _, _, .classTest isIdent more, by simp [same, same'], by simp [made]⟩
    · obtain ⟨⟨test, left⟩, tested, read⟩ := bind_eq_ok.mp read
      obtain ⟨block, isTest, same⟩ := attributeTest_sound tested
      obtain ⟨taken, classes, attributes, more, same', made⟩ := ih read
      exact ⟨_, _, _, .attributeTest isTest more, by rw [same, same', List.append_assoc],
        by simp [made]⟩
    · obtain ⟨rfl, rfl⟩ := Prod.mk.inj (Except.ok.inj read)
      exact ⟨[], [], [], .nil, rfl, by simp⟩

theorem compound_sound {c : Compound} (read : compound cs = .ok (c, rest)) :
    ∃ taken, IsCompound taken c ∧ cs = taken ++ rest := by
  unfold compound at read
  cases tagged : tag? cs with
  | mk tag left =>
    rw [tagged] at read
    obtain ⟨⟨made, left'⟩, tested, read⟩ := bind_eq_ok.mp read
    obtain ⟨front, isTag, same⟩ := tag?_sound tagged
    obtain ⟨back, classes, attributes, isTests, same', rfl⟩ := tests_sound tested
    simp only [List.nil_append] at read
    split at read
    · cases left' <;> cases read
    · next some =>
      obtain ⟨rfl, rfl⟩ := Prod.mk.inj (Except.ok.inj read)
      refine ⟨front ++ back, .mk isTag isTests ?_, by rw [same, same', List.append_assoc]⟩
      exact fun empty => some ((append_eq_nil_iff isTag isTests).mp empty)

theorem compounds_sound {fuel : Nat} {chain : Chain}
    (read : compounds fuel cs = .ok (chain, rest)) :
    ∃ taken blanks, Descent taken chain ∧ Blank blanks ∧ cs = taken ++ blanks ++ rest := by
  induction fuel generalizing cs chain with
  | zero =>
    obtain ⟨rfl, rfl⟩ := Prod.mk.inj (Except.ok.inj read)
    exact ⟨[], [], .nil, Text.blank_nil, rfl⟩
  | succ fuel ih =>
    obtain ⟨blanks, blank, front⟩ := skipBlanks_sound cs
    unfold compounds at read
    split at read
    · next ended =>
      obtain ⟨rfl, rfl⟩ := Prod.mk.inj (Except.ok.inj read)
      exact ⟨[], blanks, .nil, blank, by rw [front, ended]; rfl⟩
    · next ended =>
      obtain ⟨rfl, rfl⟩ := Prod.mk.inj (Except.ok.inj read)
      exact ⟨[], blanks, .nil, blank, by rw [front, ended]; rfl⟩
    · next found following _ ended =>
      rw [ended] at front
      split at read
      · next shorter =>
        obtain ⟨⟨c, left⟩, first, read⟩ := bind_eq_ok.mp read
        obtain ⟨⟨more, left'⟩, others, read⟩ := bind_eq_ok.mp read
        obtain ⟨rfl, rfl⟩ := Prod.mk.inj (Except.ok.inj read)
        obtain ⟨taken, isCompound, same⟩ := compound_sound first
        obtain ⟨taken', blanks', descent, blank', same'⟩ := ih others
        refine ⟨_, blanks', .cons blank ?_ isCompound descent, blank', ?_⟩
        · rintro rfl
          simp [front] at shorter
        · rw [front, same, same']
          simp
      · cases read

theorem chain_sound {chain : Chain} (read : SelectorParser.chain cs = .ok (chain, rest)) :
    ∃ taken blanks, IsChain taken chain ∧ Blank blanks ∧ cs = taken ++ blanks ++ rest := by
  obtain ⟨⟨c, left⟩, first, read⟩ := bind_eq_ok.mp read
  obtain ⟨⟨more, left'⟩, others, read⟩ := bind_eq_ok.mp read
  obtain ⟨rfl, rfl⟩ := Prod.mk.inj (Except.ok.inj read)
  obtain ⟨taken, isCompound, same⟩ := compound_sound first
  obtain ⟨taken', blanks, descent, blank, same'⟩ := compounds_sound others
  exact ⟨_, blanks, .mk isCompound descent, blank, by rw [same, same']; simp⟩

theorem chains_sound {fuel : Nat} {alternatives : List Chain} (enough : cs.length < fuel)
    (read : chains fuel cs = .ok alternatives) : Alternatives cs alternatives := by
  induction fuel generalizing cs alternatives with
  | zero => exact absurd enough (Nat.not_lt_zero _)
  | succ fuel ih =>
    obtain ⟨before, leading, front⟩ := skipBlanks_sound cs
    obtain ⟨⟨first, left⟩, one, read⟩ := bind_eq_ok.mp read
    obtain ⟨taken, after, isChain, trailing, same⟩ := chain_sound one
    rw [same] at front
    simp only at read
    split at read
    · next following =>
      obtain ⟨others, more, read⟩ := bind_eq_ok.mp read
      obtain rfl := Except.ok.inj read
      have shorter : following.length < fuel := by
        rw [front] at enough
        simp only [List.length_append, List.length_cons] at enough
        omega
      have whole : cs = before ++ taken ++ after ++ ',' :: following := by rw [front]; simp
      rw [whole]
      exact .cons leading isChain trailing (ih shorter more)
    · cases read
    · obtain rfl := Except.ok.inj read
      have whole : cs = before ++ taken ++ after := by rw [front]; simp
      rw [whole]
      exact .single leading isChain trailing

end FormDependencies.SelectorGrammar
