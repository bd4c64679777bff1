import FormDependencies.Proofs.Text.Runs
import FormDependencies.Selector.Parser

/-!
The grammar of selectors, each rule a relation between characters and what they stand for. Blanks
are optional at both ends of an alternative and inside brackets; between compounds they are
required. Nothing here says how a text is read.
-/

namespace FormDependencies.SelectorGrammar

open SelectorParser (isIdentChar)
open Text (Blank Solid)

inductive Ident : List Char → String → Prop
  | mk {cs : List Char} : cs ≠ [] → (∀ c ∈ cs, isIdentChar c = true) → Ident cs (String.ofList cs)

/-- A value is an identifier or any text in quotes without quotes of that kind. -/
inductive Value : List Char → String → Prop
  | ident {cs : List Char} {name : String} : Ident cs name → Value cs name
  | quoted {quote : Char} {text : List Char} : quote = '"' ∨ quote = '\x27' → quote ∉ text →
      Value (quote :: (text ++ [quote])) (String.ofList text)

inductive Expected : List Char → Option String → Prop
  | absent : Expected [] none
  | given {before cs after : List Char} {value : String} : Blank before → Value cs value →
      Blank after → Expected ('=' :: (before ++ cs ++ after)) (some value)

inductive Test : List Char → AttributeTest → Prop
  | mk {before cs after rest : List Char} {name : String} {value : Option String} :
      Blank before → Ident cs name → Blank after → Expected rest value →
      Test ('[' :: (before ++ cs ++ after ++ rest ++ [']'])) ⟨name, value⟩

inductive Tests : List Char → List String → List AttributeTest → Prop
  | nil : Tests [] [] []
  | classTest {cs rest : List Char} {name : String} {classes : List String}
      {attributes : List AttributeTest} : Ident cs name → Tests rest classes attributes →
      Tests ('.' :: (cs ++ rest)) (name :: classes) attributes
  | attributeTest {cs rest : List Char} {test : AttributeTest} {classes : List String}
      {attributes : List AttributeTest} : Test cs test → Tests rest classes attributes →
      Tests (cs ++ rest) classes (test :: attributes)

/-- A tag is read in lower case. -/
inductive Tag : List Char → Option String → Prop
  | absent : Tag [] none
  | any : Tag ['*'] (some "*")
  | word {cs : List Char} : cs ≠ [] → (∀ c ∈ cs, isIdentChar c = true) →
      Tag cs (some (String.ofList (cs.map Char.toLower)))

inductive IsCompound : List Char → Compound → Prop
  | mk {cs rest : List Char} {tag : Option String} {classes : List String}
      {attributes : List AttributeTest} : Tag cs tag → Tests rest classes attributes →
      cs ++ rest ≠ [] → IsCompound (cs ++ rest) ⟨tag, classes, attributes⟩

/-- Further compounds of a chain, each after at least one blank. -/
inductive Descent : List Char → Chain → Prop
  | nil : Descent [] []
  | cons {blanks cs rest : List Char} {c : Compound} {chain : Chain} : Blank blanks →
      blanks ≠ [] → IsCompound cs c → Descent rest chain →
      Descent (blanks ++ cs ++ rest) (c :: chain)

inductive IsChain : List Char → Chain → Prop
  | mk {cs rest : List Char} {c : Compound} {chain : Chain} : IsCompound cs c →
      Descent rest chain → IsChain (cs ++ rest) (c :: chain)

inductive Alternatives : List Char → List Chain → Prop
  | single {before cs after : List Char} {chain : Chain} : Blank before → IsChain cs chain →
      Blank after → Alternatives (before ++ cs ++ after) [chain]
  | cons {before cs after rest : List Char} {chain : Chain} {chains : List Chain} :
      Blank before → IsChain cs chain → Blank after → Alternatives rest chains →
      Alternatives (before ++ cs ++ after ++ ',' :: rest) (chain :: chains)

theorem Tag.eq_nil_iff {cs : List Char} {tag : Option String} (h : Tag cs tag) :
    cs = [] ↔ tag = none := by
  cases h with
  | absent => simp
  | any => simp
  | word some => simp [some]

theorem Test.exists_cons {cs : List Char} {test : AttributeTest} (h : Test cs test) :
    ∃ rest, cs = '[' :: rest := by
  cases h
  exact ⟨_, rfl⟩

theorem Tests.eq_nil_iff {cs : List Char} {classes : List String}
    {attributes : List AttributeTest} (h : Tests cs classes attributes) :
    cs = [] ↔ classes = [] ∧ attributes = [] := by
  cases h with
  | nil => simp
  | classTest => simp
  | attributeTest first more =>
    obtain ⟨rest, rfl⟩ := first.exists_cons
    simp

/-- A compound is written with at least one character exactly when it requires something. -/
theorem append_eq_nil_iff {cs rest : List Char} {tag : Option String} {classes : List String}
    {attributes : List AttributeTest} (tagged : Tag cs tag) (tested : Tests rest classes attributes) :
    cs ++ rest = [] ↔ (Compound.mk tag classes attributes).isEmpty = true := by
  simp [Compound.isEmpty, tagged.eq_nil_iff, tested.eq_nil_iff, and_assoc]

end FormDependencies.SelectorGrammar
