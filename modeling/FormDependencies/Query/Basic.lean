import FormDependencies.Selector.Basic

/-!
Queries. A query is a text in an expression language that is not interpreted here, apart from the
references that it reads:

* `@name`, the value of the nearest reference of that name;
* `@@name`, the values of all references of that name;
* `@this`, the value of the element that the query belongs to.

A selector in parentheses after either of the first two is the scope: the nearest element upwards
that it means bounds the search.
-/

namespace FormDependencies

inductive ReferenceKind where
  | simple
  | group
  | this
deriving DecidableEq

/-- One reference that a query reads. -/
structure ReferenceToken where
  kind : ReferenceKind
  /-- The name without its signs; `this` for the element's own value. -/
  name : String
  scope : Option Selector
deriving DecidableEq

/-- The key under which the value of the token is handed to the evaluator. -/
def ReferenceToken.key (t : ReferenceToken) : String :=
  let name := match t.kind with
    | .group => "@" ++ t.name
    | .simple | .this => t.name
  match t.scope with
  | none => name
  | some scope => name ++ "(" ++ scope.source ++ ")"

/-- A query with the references that it reads, in order of first appearance and without
repetition. -/
structure Query where
  text : String
  references : List ReferenceToken
deriving DecidableEq

def Query.readsSelf (q : Query) : Bool :=
  q.references.any (·.kind == .this)

namespace ReferenceName

def isStart (c : Char) : Bool :=
  c.isAlpha || c == '_' || c == '$'

def isPart (c : Char) : Bool :=
  c.isAlphanum || c == '_' || c == '$' || c == '-'

def isValid (name : String) : Bool :=
  match name.toList with
  | [] => false
  | c :: cs => isStart c && cs.all isPart

end ReferenceName

end FormDependencies
