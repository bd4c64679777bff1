import FormDependencies.Proofs.Text.Runs
import FormDependencies.Query.Parser

/-!
How the text of a query divides into string literals, references and single other characters. What
a scope stands for is left to the reading of selectors.
-/

namespace FormDependencies.QueryGrammar

/-- The inside of a string literal: a backslash takes the next character with it. -/
inductive LiteralBody (quote : Char) : List Char → Prop
  | nil : LiteralBody quote []
  | escaped {c : Char} {rest : List Char} : LiteralBody quote rest →
      LiteralBody quote ('\\' :: c :: rest)
  | plain {c : Char} {rest : List Char} : c ≠ '\\' → c ≠ quote → LiteralBody quote rest →
      LiteralBody quote (c :: rest)

inductive Literal : List Char → Prop
  | mk {quote : Char} {body : List Char} : quote = '"' ∨ quote = '\x27' ∨ quote = '\x60' →
      LiteralBody quote body → Literal (quote :: (body ++ [quote]))

/-- Characters among which every parenthesis has its match. -/
inductive Balanced : List Char → Prop
  | nil : Balanced []
  | other {c : Char} {rest : List Char} : c ≠ '(' → c ≠ ')' → Balanced rest → Balanced (c :: rest)
  | nested {inner rest : List Char} : Balanced inner → Balanced rest →
      Balanced ('(' :: (inner ++ ')' :: rest))

inductive Scope : List Char → Option Selector → Prop
  | absent : Scope [] none
  | given {body : List Char} {s : Selector} : Balanced body →
      Selector.parse (String.ofList body) = .ok s → Scope ('(' :: (body ++ [')'])) (some s)

inductive Reference : List Char → ReferenceToken → Prop
  | simple {name scope : List Char} {selector : Option Selector} :
      ReferenceName.isValid (String.ofList name) = true → String.ofList name ≠ "this" →
      Scope scope selector →
      Reference ('@' :: (name ++ scope)) ⟨.simple, String.ofList name, selector⟩
  | group {name scope : List Char} {selector : Option Selector} :
      ReferenceName.isValid (String.ofList name) = true → Scope scope selector →
      Reference ('@' :: '@' :: (name ++ scope)) ⟨.group, String.ofList name, selector⟩
  | this : Reference ['@', 't', 'h', 'i', 's'] ⟨.this, "this", none⟩

/-- Whether a reference cannot be longer than it is: neither its name goes on nor a scope begins. -/
def Longest (token : ReferenceToken) (rest : List Char) : Prop :=
  token.scope = none → ∀ c ∈ rest.head?, ReferenceName.isPart c = false ∧ c ≠ '('

/-- Takes pieces off the front of a text, with the references among them and what is left. -/
inductive Scans : List Char → List ReferenceToken → List Char → Prop
  | done {rest : List Char} : Scans rest [] rest
  | ordinary {c : Char} {cs rest : List Char} {tokens : List ReferenceToken} :
      c ≠ '@' → c ≠ '"' → c ≠ '\x27' → c ≠ '\x60' → Scans cs tokens rest →
      Scans (c :: cs) tokens rest
  | literal {piece cs rest : List Char} {tokens : List ReferenceToken} : Literal piece →
      Scans cs tokens rest → Scans (piece ++ cs) tokens rest
  | reference {piece cs rest : List Char} {token : ReferenceToken}
      {tokens : List ReferenceToken} : Reference piece token → Longest token cs →
      Scans cs tokens rest → Scans (piece ++ cs) (token :: tokens) rest

def Divides (cs : List Char) (tokens : List ReferenceToken) : Prop :=
  Scans cs tokens []

/-- What is wrong with the piece that a text begins with; of a scope without end, what it begins
with after the sign and the name. -/
inductive Flawed : QueryFlaw → List Char → List Char → Prop
  | unterminatedString {quote : Char} {rest : List Char} :
      quote = '"' ∨ quote = '\x27' ∨ quote = '\x60' →
      (∀ piece after, Literal piece → quote :: rest ≠ piece ++ after) →
      Flawed .unterminatedString (quote :: rest) (quote :: rest)
  | missingName {sign rest : List Char} : sign = ['@'] ∧ rest.head? ≠ some '@' ∨ sign = ['@', '@'] →
      (∀ c ∈ rest.head?, ReferenceName.isStart c = false) →
      Flawed .missingName (sign ++ rest) (sign ++ rest)
  | unterminatedScope {sign name rest : List Char} : sign = ['@'] ∨ sign = ['@', '@'] →
      ReferenceName.isValid (String.ofList name) = true →
      (∀ body after, Balanced body → rest ≠ body ++ ')' :: after) →
      Flawed .unterminatedScope (sign ++ name ++ '(' :: rest) ('(' :: rest)
  | scopedThis {scope rest : List Char} {s : Selector} : Scope scope (some s) →
      Flawed .scopedThis ("@this".toList ++ scope ++ rest) ("@this".toList ++ scope ++ rest)

end FormDependencies.QueryGrammar
