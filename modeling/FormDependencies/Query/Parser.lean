import FormDependencies.Error
import FormDependencies.Query.Basic
import FormDependencies.Selector.Parser

/-!
Finding the references in the text of a query. The text is divided from left to right into string
literals, in which a backslash protects the next character, references, and single other
characters. A scope runs to the parenthesis that matches its opening one.
-/

namespace FormDependencies

namespace QueryParser

/-- What is wrong, and the characters from the place of the piece on. -/
inductive Fault where
  | flawed (flaw : QueryFlaw) (rest : List Char)
  | badScope (cause : SelectorError)

def Fault.toError (text : String) : Fault → DependencyError
  | .flawed flaw rest => .malformedQuery text (Text.offset text.toList rest) flaw
  | .badScope cause => .invalidSelector (.queryScope text) cause

def isQuote (c : Char) : Bool :=
  c == '"' || c == '\x27' || c == '\x60'

def afterString? (quote : Char) : List Char → Option (List Char)
  | [] => none
  | ['\\'] => none
  | '\\' :: _ :: rest => afterString? quote rest
  | c :: rest => if c = quote then some rest else afterString? quote rest

/-- The text up to the parenthesis that closes `depth` open ones, and what follows it. -/
def closingParenthesis? : Nat → List Char → Option (List Char × List Char)
  | _, [] => none
  | depth, '(' :: rest =>
    (closingParenthesis? (depth + 1) rest).map fun (body, rest) => ('(' :: body, rest)
  | 0, ')' :: rest => some ([], rest)
  | depth + 1, ')' :: rest =>
    (closingParenthesis? depth rest).map fun (body, rest) => (')' :: body, rest)
  | depth, c :: rest => (closingParenthesis? depth rest).map fun (body, rest) => (c :: body, rest)

/-- Reads a scope, if there is one. -/
def scope? (cs : List Char) : Except Fault (Option Selector × List Char) :=
  match cs with
  | '(' :: rest =>
    match closingParenthesis? 0 rest with
    | none => .error (.flawed .unterminatedScope cs)
    | some (body, rest) =>
      match Selector.parse (String.ofList body) with
      | .ok selector => .ok (some selector, rest)
      | .error cause => .error (.badScope cause)
  | _ => .ok (none, cs)

def kindOf (group : Bool) (name : String) : ReferenceKind :=
  if group then .group else if name == "this" then .this else .simple

/-- Reads what follows the sign of the reference that `cs` begins with. -/
def named (cs : List Char) (group : Bool) (rest : List Char) :
    Except Fault (ReferenceToken × List Char) := do
  unless rest.head?.any ReferenceName.isStart do throw (.flawed .missingName cs)
  let name := String.ofList (rest.takeWhile ReferenceName.isPart)
  let (scope, rest) ← scope? (rest.dropWhile ReferenceName.isPart)
  let kind := kindOf group name
  if kind = .this ∧ scope.isSome then throw (.flawed .scopedThis cs)
  return (⟨kind, name, scope⟩, rest)

def reference (cs : List Char) : Except Fault (ReferenceToken × List Char) :=
  match cs.drop 1 with
  | '@' :: rest => named cs true rest
  | rest => named cs false rest

/-- The references of a text in order, repetitions included. The count bounds the pieces. -/
def references : Nat → List Char → Except Fault (List ReferenceToken)
  | 0, _ => .ok []
  | _, [] => .ok []
  | fuel + 1, c :: cs =>
    if isQuote c then
      match afterString? c cs with
      | none => .error (.flawed .unterminatedString (c :: cs))
      | some rest => references fuel rest
    else if c = '@' then do
      let (token, rest) ← reference (c :: cs)
      return token :: (← references fuel rest)
    else references fuel cs

def distinct (tokens : List ReferenceToken) : List ReferenceToken :=
  tokens.foldl (fun kept token =>
    if kept.any fun k => k.key == token.key then kept else kept ++ [token]) []

end QueryParser

open QueryParser in
def Query.parse (text : String) : Except DependencyError Query :=
  match QueryParser.references text.toList.length text.toList with
  | .ok tokens => .ok ⟨text, distinct tokens⟩
  | .error fault => .error (fault.toError text)

end FormDependencies
