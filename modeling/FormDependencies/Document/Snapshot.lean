import FormDependencies.Document.Basic
import FormDependencies.Json.Writer

/-!
The state of an element as JSON: what actions change about it.
-/

namespace FormDependencies.Document

def stateAttributes : List String :=
  ["hidden", "disabled", "readonly", "required", "aria-invalid"]

def state (doc : Document) (el : ElementId) : Json :=
  .object (KeyedList.ofList
    ([("element", .text el.display), ("tag", .text ((doc.tag? el).getD "?")),
      ("attached", .bool (doc.isAttached el)), ("value", .text (doc.value el)),
      ("checked", .bool (doc.checked el))] ++
      stateAttributes.map fun name => (name, .bool (doc.hasAttribute el name))))

def stateLines (doc : Document) (els : List ElementId) : String :=
  "\n".intercalate (els.map fun el => (doc.state el).render)

end FormDependencies.Document
