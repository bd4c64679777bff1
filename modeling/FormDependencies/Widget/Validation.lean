import FormDependencies.Config

/-!
Fields that validation leaves out: those that are hidden, or below something hidden, where the
hidden element is under the control of a dependency, as one of its attributes shows.
-/

namespace FormDependencies.Document

/-- Whether an element or an ancestor is hidden while carrying one of the marks. -/
def isExcluded (doc : Document) (el : ElementId) (marks : List String) : Bool :=
  (el :: doc.ancestors el).any fun candidate =>
    doc.hasAttribute candidate "hidden" && marks.any (doc.hasAttribute candidate)

def controlMarks (config : Config) : List String :=
  [config.queryAttribute, config.controllableAttribute]

end FormDependencies.Document
