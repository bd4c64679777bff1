import FormDependencies.Proofs.Selector.Rendering

/-!
Reading a selector and writing one. Exactly the texts of the grammar are read, each as the tree that
the grammar gives; a well-formed tree is written as a text that is read as this tree; and the text
that a selector keeps is read as the selector itself.
-/

namespace FormDependencies

namespace SelectorGrammar

open SelectorParser (isIdentChar)
open Text (Blank Solid Stops stops_cons isBlank)

variable {taken : List Char}

/-! ## The ends of a text -/

theorem Ident.solid {name : String} (h : Ident taken name) : Solid taken := by
  cases h with
  | mk some all => exact Text.solid_of_forall some fun c mem => isBlank_of_isIdentChar (all c mem)

theorem Test.solid {test : AttributeTest} (h : Test taken test) : Solid taken := by
  cases h with
  | mk =>
    constructor
    · simp
    · exact stops_cons rfl
    · rw [List.reverse_cons, List.reverse_append]
      exact stops_cons rfl

theorem Tests.solid {classes : List String} {attributes : List AttributeTest}
    (h : Tests taken classes attributes) : taken = [] ∨ Solid taken := by
  induction h with
  | nil => exact .inl rfl
  | @classTest cs rest name classes attributes word others ih =>
    have dot : Solid ['.'] := Text.solid_of_forall (by simp) (by simp; rfl)
    have first : Solid ('.' :: cs) := by simpa using dot.append word.solid []
    rcases ih with rfl | solid
    · exact .inr (by simpa using first)
    · exact .inr (by simpa using first.append solid [])
  | @attributeTest cs rest test classes attributes isTest others ih =>
    rcases ih with rfl | solid
    · exact .inr (by simpa using isTest.solid)
    · exact .inr (by simpa using isTest.solid.append solid [])

theorem Tag.solid {tag : Option String} (h : Tag taken tag) : taken = [] ∨ Solid taken := by
  cases h with
  | absent => exact .inl rfl
  | any => exact .inr (Text.solid_of_forall (by simp) (by simp; rfl))
  | word some all =>
    exact .inr (Text.solid_of_forall some fun c mem => isBlank_of_isIdentChar (all c mem))

theorem IsCompound.solid {c : Compound} (h : IsCompound taken c) : Solid taken := by
  cases h with
  | mk tagged tested some =>
    rcases tagged.solid with rfl | front
    · rcases tested.solid with rfl | back
      · exact absurd rfl some
      · exact back
    · rcases tested.solid with rfl | back
      · simpa using front
      · simpa using front.append back []

theorem Descent.solid {chain : Chain} (h : Descent taken chain) {cs : List Char}
    (front : Solid cs) : Solid (cs ++ taken) := by
  induction h generalizing cs with
  | nil => simpa using front
  | @cons blanks cs' rest c chain blank some isCompound others ih =>
    have longer := ih (front.append isCompound.solid blanks)
    simpa using longer

theorem IsChain.solid {chain : Chain} (h : IsChain taken chain) : Solid taken := by
  cases h with
  | mk isCompound others => exact others.solid isCompound.solid

theorem Alternatives.pad {alternatives : List Chain} (h : Alternatives taken alternatives)
    {blanks : List Char} (blank : Blank blanks) : Alternatives (blanks ++ taken) alternatives := by
  cases h with
  | single leading isChain trailing =>
    simpa using Alternatives.single (blank.append leading) isChain trailing
  | cons leading isChain trailing more =>
    simpa using Alternatives.cons (blank.append leading) isChain trailing more

/-- The blanks around a list of alternatives can be left out. -/
theorem Alternatives.exists_solid {alternatives : List Chain}
    (h : Alternatives taken alternatives) :
    ∃ before core after, taken = before ++ core ++ after ∧ Blank before ∧ Solid core ∧
      Blank after ∧ Alternatives core alternatives := by
  induction h with
  | @single before cs after chain leading isChain trailing =>
    refine ⟨before, cs, after, rfl, leading, isChain.solid, trailing, ?_⟩
    simpa using Alternatives.single Text.blank_nil isChain Text.blank_nil
  | @cons before cs after rest chain chains leading isChain trailing more ih =>
    obtain ⟨before', core, after', rfl, leading', solid, trailing', alternatives⟩ := ih
    refine ⟨before, cs ++ (after ++ ',' :: before') ++ core, after', by simp, leading,
      isChain.solid.append solid _, trailing', ?_⟩
    simpa using Alternatives.cons Text.blank_nil isChain trailing (alternatives.pad leading')

theorem Alternatives.trim {alternatives : List Chain} (h : Alternatives taken alternatives) :
    Text.trimChars taken ≠ [] ∧ Alternatives (Text.trimChars taken) alternatives := by
  obtain ⟨before, core, after, rfl, leading, solid, trailing, alternatives⟩ := h.exists_solid
  rw [Text.trimChars_append leading solid trailing]
  exact ⟨solid.nonempty, alternatives⟩

theorem solid_renderList {alternatives : List Chain} (h : Selector.WellFormed alternatives) :
    Solid (Selector.renderList alternatives) := by
  obtain ⟨some, all⟩ := h
  induction alternatives with
  | nil => exact absurd rfl some
  | cons chain rest ih =>
    obtain ⟨first, others⟩ := List.forall_mem_cons.mp all
    have solid := (chain_render first).solid
    cases rest with
    | nil => exact solid
    | cons next rest =>
      simpa [Selector.renderList] using solid.append (ih (by simp) others) [',']

end SelectorGrammar

namespace Selector

open SelectorGrammar

theorem parse_eq_ok {text : String} {s : Selector} :
    Selector.parse text = .ok s ↔
      Alternatives text.toList s.alternatives ∧ s.source = Text.trim text := by
  unfold Selector.parse
  simp only
  split
  · next blank =>
    refine ⟨fun none => (by cases none), fun ⟨h, _⟩ => ?_⟩
    exact absurd (List.isEmpty_iff.mp blank) h.trim.1
  · have enough : text.toList.length < text.toList.length + 1 := Nat.lt_succ_self _
    split
    · next alternatives read =>
      rw [Except.ok.injEq]
      constructor
      · rintro rfl
        exact ⟨chains_sound enough read, rfl⟩
      · rintro ⟨h, source⟩
        rw [chains_complete h enough] at read
        cases s
        cases read
        cases source
        rfl
    · next fault read =>
      refine ⟨fun none => (by cases none), fun ⟨h, _⟩ => ?_⟩
      rw [chains_complete h enough] at read
      cases read

/-- A selector is read again from the text that it keeps. -/
theorem parse_source {text : String} {s : Selector} (read : Selector.parse text = .ok s) :
    Selector.parse s.source = .ok s := by
  obtain ⟨h, source⟩ := parse_eq_ok.mp read
  apply parse_eq_ok.mpr
  obtain ⟨before, core, after, same, leading, solid, trailing, alternatives⟩ := h.exists_solid
  have kept : s.source = String.ofList core := by
    rw [source, Text.trim, same, Text.trimChars_append leading solid trailing]
  rw [kept]
  exact ⟨by simpa using alternatives, by simp [Text.trim, solid.trimChars_eq]⟩

/-- A text is read exactly when it belongs to the grammar, as the one tree that it stands for and
with its blanks trimmed. A well-formed tree is read from what is written for it, and a selector from
the text that it keeps. -/
theorem parse_recognizes_grammar :
    (∀ text s, Selector.parse text = .ok s ↔
      Alternatives text.toList s.alternatives ∧ s.source = Text.trim text) ∧
    (∀ cs alternatives alternatives', Alternatives cs alternatives →
      Alternatives cs alternatives' → alternatives = alternatives') ∧
    (∀ alternatives, WellFormed alternatives →
      Selector.parse (render alternatives) = .ok ⟨render alternatives, alternatives⟩) ∧
    ∀ text s, Selector.parse text = .ok s → Selector.parse s.source = .ok s := by
  refine ⟨fun _ _ => parse_eq_ok, ?_, ?_, fun _ _ read => parse_source read⟩
  · intro cs alternatives alternatives' h h'
    have enough := Nat.lt_succ_self cs.length
    exact Except.ok.inj ((chains_complete h enough).symm.trans (chains_complete h' enough))
  · intro alternatives wellFormed
    apply parse_eq_ok.mpr
    have solid := solid_renderList wellFormed
    refine ⟨by simpa [render] using alternatives_render wellFormed, ?_⟩
    simp [Text.trim, render, solid.trimChars_eq]

def listedFields : List Chain :=
  [[{ tag := some "input", classes := ["Big"], attributes := [⟨"type", some "a,]b"⟩] },
    { tag := some "em" }], [{ tag := some "*" }]]

theorem parse_recognizes_grammar_listedFields :
    WellFormed listedFields ∧
    Selector.parse (render listedFields) = .ok ⟨render listedFields, listedFields⟩ ∧
    Alternatives " Input[ type = 'a,]b' ].Big  em , *".toList listedFields ∧
    Selector.parse "Input[ type = 'a,]b' ].Big  em , *" =
      .ok ⟨"Input[ type = 'a,]b' ].Big  em , *", listedFields⟩ := by
  have wellFormed : WellFormed listedFields := by decide
  have read : Selector.parse " Input[ type = 'a,]b' ].Big  em , *" =
      .ok ⟨"Input[ type = 'a,]b' ].Big  em , *", listedFields⟩ := rfl
  have kept := parse_recognizes_grammar.2.2.2 _ _ read
  exact ⟨wellFormed, parse_recognizes_grammar.2.2.1 _ wellFormed,
    ((parse_recognizes_grammar.1 _ _).mp read).1, kept⟩

end Selector

end FormDependencies
