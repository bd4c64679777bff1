import FormDependencies.Selector.Basic
import FormDependencies.Selector.Error
import FormDependencies.Text.Offset

/-!
Reading selectors. The grammar is

    list     = chain ("," chain)*
    chain    = compound (blanks compound)*
    compound = (ident | "*")? ("." ident | "[" ident ("=" value)? "]")*     not empty
    value    = ident | quoted text

with blanks allowed at both ends, around commas and inside brackets. An identifier is a row of ASCII
letters, digits, hyphens and underscores. Tag names are read in lower case.

Every reader gives what it has read and the characters that are left. The counts that bound the
loops are lengths of what is left; each round uses up a character.
-/

namespace FormDependencies

namespace SelectorParser

/-- What is wrong, and the characters from that place on. -/
inductive Fault where
  | unexpected (found : Char) (rest : List Char)
  | missingIdent (rest : List Char)
  | unterminatedAttribute (rest : List Char)
  | unterminatedString (rest : List Char)

def Fault.toError (source : String) : Fault → SelectorError
  | .unexpected found rest => .unexpectedChar source (Text.offset source.toList rest) found
  | .missingIdent rest => .missingIdent source (Text.offset source.toList rest)
  | .unterminatedAttribute rest => .unterminatedAttribute source (Text.offset source.toList rest)
  | .unterminatedString rest => .unterminatedString source (Text.offset source.toList rest)

def isIdentChar (c : Char) : Bool :=
  c.isAlphanum || c == '-' || c == '_'

def skipBlanks (cs : List Char) : List Char :=
  cs.dropWhile Text.isBlank

def ident (cs : List Char) : Except Fault (String × List Char) :=
  let name := cs.takeWhile isIdentChar
  if name.isEmpty then .error (.missingIdent cs)
  else .ok (String.ofList name, cs.dropWhile isIdentChar)

/-- Reads a quoted text, from its opening quote to the next quote of the same kind. -/
def quotedText (quote : Char) (cs : List Char) : Except Fault (String × List Char) :=
  let text := (cs.drop 1).takeWhile (· != quote)
  match (cs.drop 1).dropWhile (· != quote) with
  | [] => .error (.unterminatedString cs)
  | _ :: rest => .ok (String.ofList text, rest)

def attributeValue (cs : List Char) : Except Fault (String × List Char) :=
  match cs with
  | '"' :: _ => quotedText '"' cs
  | '\x27' :: _ => quotedText '\x27' cs
  | _ => ident cs

/-- Reads an equals sign and the value after it, if the sign is there. -/
def attributeValue? (cs : List Char) : Except Fault (Option String × List Char) :=
  match cs with
  | '=' :: rest => do
    let (value, rest) ← attributeValue (skipBlanks rest)
    return (some value, skipBlanks rest)
  | _ => .ok (none, cs)

def attributeTest (cs : List Char) : Except Fault (AttributeTest × List Char) := do
  let (name, rest) ← ident (skipBlanks (cs.drop 1))
  let (value, rest) ← attributeValue? (skipBlanks rest)
  match rest with
  | ']' :: rest => return (⟨name, value⟩, rest)
  | found :: _ => throw (.unexpected found rest)
  | [] => throw (.unterminatedAttribute cs)

/-- Reads the tag of a compound, if there is one. -/
def tag? (cs : List Char) : Option String × List Char :=
  match cs with
  | '*' :: rest => (some "*", rest)
  | _ =>
    let name := cs.takeWhile isIdentChar
    if name.isEmpty then (none, cs)
    else (some (String.ofList (name.map Char.toLower)), cs.dropWhile isIdentChar)

def tests (c : Compound) : Nat → List Char → Except Fault (Compound × List Char)
  | 0, cs => .ok (c, cs)
  | fuel + 1, cs =>
    match cs with
    | '.' :: rest => do
      let (name, rest) ← ident rest
      tests { c with classes := c.classes ++ [name] } fuel rest
    | '[' :: _ => do
      let (test, rest) ← attributeTest cs
      tests { c with attributes := c.attributes ++ [test] } fuel rest
    | _ => .ok (c, cs)

def compound (cs : List Char) : Except Fault (Compound × List Char) := do
  let (tag, rest) := tag? cs
  let (c, rest) ← tests { tag } rest.length rest
  if c.isEmpty then
    match rest with
    | found :: _ => throw (.unexpected found rest)
    | [] => throw (.missingIdent rest)
  else return (c, rest)

/-- Reads the further compounds of a chain, up to a comma or the end. -/
def compounds : Nat → List Char → Except Fault (Chain × List Char)
  | 0, cs => .ok ([], cs)
  | fuel + 1, cs =>
    match skipBlanks cs with
    | [] => .ok ([], [])
    | ',' :: rest => .ok ([], ',' :: rest)
    | found :: rest =>
      if rest.length + 1 < cs.length then do
        let (c, rest) ← compound (found :: rest)
        let (chain, rest) ← compounds fuel rest
        return (c :: chain, rest)
      else .error (.unexpected found (found :: rest))

def chain (cs : List Char) : Except Fault (Chain × List Char) := do
  let (c, rest) ← compound cs
  let (cs, rest) ← compounds (rest.length + 1) rest
  return (c :: cs, rest)

def chains : Nat → List Char → Except Fault (List Chain)
  | 0, _ => .ok []
  | fuel + 1, cs => do
    let (first, rest) ← chain (skipBlanks cs)
    match rest with
    | ',' :: rest => return first :: (← chains fuel rest)
    | found :: _ => throw (.unexpected found rest)
    | [] => return [first]

end SelectorParser

open SelectorParser in
def Selector.parse (source : String) : Except SelectorError Selector :=
  let cs := source.toList
  if (Text.trimChars cs).isEmpty then .error .empty
  else match chains (cs.length + 1) cs with
    | .ok alternatives => .ok { source := Text.trim source, alternatives }
    | .error fault => .error (fault.toError source)

end FormDependencies
