import FormDependencies.Proofs.Selector.Completeness

/-!
Writing selectors. A tree can be written when each of its parts can: identifiers are not empty, tags
are in lower case, and no value needs both kinds of quotes. What is written belongs to the grammar
and stands for the tree that was written.
-/

namespace FormDependencies

def IsWord (text : String) : Prop :=
  text.toList ≠ [] ∧ ∀ c ∈ text.toList, SelectorParser.isIdentChar c = true

instance (text : String) : Decidable (IsWord text) :=
  decidable_of_iff (text.toList ≠ [] ∧ text.toList.all SelectorParser.isIdentChar = true)
    (by rw [IsWord, List.all_eq_true])

def IsLowerCase (text : String) : Prop :=
  ∀ letter ∈ text.toList, letter.isUpper = false

instance (text : String) : Decidable (IsLowerCase text) :=
  decidable_of_iff ((text.toList.all fun letter => !letter.isUpper) = true)
    (by simp [IsLowerCase])

namespace AttributeTest

/-- A value can be written when one kind of quote does not stand in it. -/
structure WellFormed (test : AttributeTest) : Prop where
  name : IsWord test.name
  value : ∀ text ∈ test.value, '"' ∉ text.toList ∨ '\x27' ∉ text.toList

instance (test : AttributeTest) : Decidable test.WellFormed :=
  decidable_of_iff (_ ∧ _) ⟨fun h => ⟨h.1, h.2⟩, fun h => ⟨h.name, h.value⟩⟩

def quoteFor (value : String) : Char :=
  if '"' ∈ value.toList then '\x27' else '"'

def renderValue : Option String → List Char
  | none => []
  | some value => '=' :: quoteFor value :: (value.toList ++ [quoteFor value])

def render (test : AttributeTest) : List Char :=
  '[' :: (test.name.toList ++ renderValue test.value ++ [']'])

end AttributeTest

namespace Compound

structure WellFormed (c : Compound) : Prop where
  some : c.isEmpty = false
  tag : ∀ tag ∈ c.tag, tag = "*" ∨ IsWord tag ∧ IsLowerCase tag
  classes : ∀ name ∈ c.classes, IsWord name
  attributes : ∀ test ∈ c.attributes, test.WellFormed

instance (c : Compound) : Decidable c.WellFormed :=
  decidable_of_iff (_ ∧ _ ∧ _ ∧ _)
    ⟨fun h => ⟨h.1, h.2.1, h.2.2.1, h.2.2.2⟩, fun h => ⟨h.some, h.tag, h.classes, h.attributes⟩⟩

def renderTag : Option String → List Char
  | none => []
  | some tag => tag.toList

def renderTests (classes : List String) (attributes : List AttributeTest) : List Char :=
  classes.flatMap (fun name => '.' :: name.toList) ++ attributes.flatMap AttributeTest.render

def render (c : Compound) : List Char :=
  renderTag c.tag ++ renderTests c.classes c.attributes

end Compound

namespace Chain

def WellFormed (chain : Chain) : Prop :=
  chain ≠ [] ∧ ∀ c ∈ chain, c.WellFormed

instance (chain : Chain) : Decidable (WellFormed chain) :=
  inferInstanceAs (Decidable (_ ∧ _))

def renderDescent (chain : Chain) : List Char :=
  chain.flatMap fun c => ' ' :: c.render

def render : Chain → List Char
  | [] => []
  | c :: rest => c.render ++ renderDescent rest

end Chain

namespace Selector

def renderList : List Chain → List Char
  | [] => []
  | [chain] => Chain.render chain
  | chain :: rest => Chain.render chain ++ ',' :: renderList rest

/-- Writes alternatives without blanks that are not needed, with every value in quotes. -/
def render (alternatives : List Chain) : String :=
  String.ofList (renderList alternatives)

def WellFormed (alternatives : List Chain) : Prop :=
  alternatives ≠ [] ∧ ∀ chain ∈ alternatives, Chain.WellFormed chain

instance (alternatives : List Chain) : Decidable (WellFormed alternatives) :=
  inferInstanceAs (Decidable (_ ∧ _))

end Selector

namespace SelectorGrammar

open SelectorParser (isIdentChar)
open Text (Blank Solid)

theorem ident_of_isWord {name : String} (h : IsWord name) : Ident name.toList name := by
  simpa using Ident.mk h.1 h.2

theorem expected_render {value : Option String}
    (clear : ∀ text ∈ value, '"' ∉ text.toList ∨ '\x27' ∉ text.toList) :
    Expected (AttributeTest.renderValue value) value := by
  cases value with
  | none => exact .absent
  | some value =>
    have kind : AttributeTest.quoteFor value = '"' ∨ AttributeTest.quoteFor value = '\x27' := by
      unfold AttributeTest.quoteFor
      split
      · exact .inr rfl
      · exact .inl rfl
    have free : AttributeTest.quoteFor value ∉ value.toList := by
      unfold AttributeTest.quoteFor
      split
      · next inside => exact (clear value rfl).resolve_left (not_not_intro inside)
      · next outside => exact outside
    simpa [AttributeTest.renderValue] using
      Expected.given Text.blank_nil (Value.quoted kind free) Text.blank_nil

theorem test_render {test : AttributeTest} (h : test.WellFormed) : Test test.render test := by
  simpa [AttributeTest.render] using Test.mk Text.blank_nil (ident_of_isWord h.name)
    Text.blank_nil (expected_render h.value)

theorem tests_render {classes : List String} {attributes : List AttributeTest}
    (words : ∀ name ∈ classes, IsWord name) (tests : ∀ test ∈ attributes, test.WellFormed) :
    Tests (Compound.renderTests classes attributes) classes attributes := by
  induction classes with
  | nil =>
    induction attributes with
    | nil => exact .nil
    | cons test rest ih =>
      obtain ⟨first, others⟩ := List.forall_mem_cons.mp tests
      simpa [Compound.renderTests] using Tests.attributeTest (test_render first) (ih others)
  | cons name rest ih =>
    obtain ⟨first, others⟩ := List.forall_mem_cons.mp words
    simpa [Compound.renderTests] using Tests.classTest (ident_of_isWord first) (ih others)

theorem map_toLower_eq_self {cs : List Char} (lower : ∀ c ∈ cs, c.isUpper = false) :
    cs.map Char.toLower = cs := by
  have unchanged : ∀ c ∈ cs, c.toLower = id c := fun c mem => Text.toLower_eq_self (lower c mem)
  rw [List.map_congr_left unchanged, List.map_id]

theorem tag_render {tag : Option String}
    (h : ∀ name ∈ tag, name = "*" ∨ IsWord name ∧ IsLowerCase name) :
    Tag (Compound.renderTag tag) tag := by
  cases tag with
  | none => exact .absent
  | some tag =>
    rcases h tag rfl with rfl | ⟨⟨some, all⟩, lower⟩
    · exact .any
    · simpa [Compound.renderTag, map_toLower_eq_self lower] using Tag.word some all

theorem compound_render {c : Compound} (h : c.WellFormed) : IsCompound c.render c := by
  have tagged := tag_render h.tag
  have tested := tests_render h.classes h.attributes
  refine .mk tagged tested fun empty => ?_
  have := (append_eq_nil_iff tagged tested).mp empty
  rw [h.some] at this
  cases this

theorem descent_render {chain : Chain} (h : ∀ c ∈ chain, c.WellFormed) :
    Descent (Chain.renderDescent chain) chain := by
  induction chain with
  | nil => exact .nil
  | cons c rest ih =>
    obtain ⟨first, others⟩ := List.forall_mem_cons.mp h
    have blank : Blank [' '] := by simp [Blank]; rfl
    simpa [Chain.renderDescent] using
      Descent.cons blank (by simp) (compound_render first) (ih others)

theorem chain_render {chain : Chain} (h : Chain.WellFormed chain) :
    IsChain (Chain.render chain) chain := by
  obtain ⟨c, rest, rfl⟩ := List.exists_cons_of_ne_nil h.1
  obtain ⟨first, others⟩ := List.forall_mem_cons.mp h.2
  exact .mk (compound_render first) (descent_render others)

theorem alternatives_render {alternatives : List Chain} (h : Selector.WellFormed alternatives) :
    Alternatives (Selector.renderList alternatives) alternatives := by
  obtain ⟨some, all⟩ := h
  induction alternatives with
  | nil => exact absurd rfl some
  | cons chain rest ih =>
    obtain ⟨first, others⟩ := List.forall_mem_cons.mp all
    have written := chain_render first
    cases rest with
    | nil =>
      simpa [Selector.renderList] using
        Alternatives.single Text.blank_nil written Text.blank_nil
    | cons next rest =>
      simpa [Selector.renderList] using
        Alternatives.cons Text.blank_nil written Text.blank_nil (ih (by simp) others)

end SelectorGrammar

end FormDependencies
