import FormDependencies.Document.Basic

/-!
The outline of a subtree: a line for each element, indented by its depth, with its tag, its
attributes in brackets and a mark when it is checked.
-/

namespace FormDependencies.Document

/-- An attribute in brackets; an empty value is left out. -/
def outlineAttribute (entry : String × String) : String :=
  if entry.2.isEmpty then "[" ++ entry.1 ++ "]" else "[" ++ entry.1 ++ "=" ++ entry.2 ++ "]"

def outlineLine (doc : Document) (depth : Nat) (el : ElementId) : String :=
  String.join (List.replicate depth "  ") ++ (doc.tag? el).getD "?" ++
    String.join ((doc.attributes el).map outlineAttribute) ++
    (if doc.checked el then " checked" else "") ++ "\n"

def outlineForest (doc : Document) (depth : Nat) : Forest → String
  | .nil => ""
  | .tree r below next =>
    doc.outlineLine depth r ++ doc.outlineForest (depth + 1) below ++ doc.outlineForest depth next

def outline (doc : Document) (el : ElementId) : String :=
  doc.outlineLine 0 el ++ doc.outlineForest 1 (doc.below el)

end FormDependencies.Document
