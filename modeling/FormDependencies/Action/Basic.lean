import FormDependencies.Config
import FormDependencies.Widget.Registry

/-!
Actions: what the result of a query does to the document, and the built-in ones.

An action gets the result and the document and gives back the document, with notes for the host in
the order in which it makes them. The built-in actions make none.
-/

namespace FormDependencies

/-- What an action is told besides the result and the document. -/
structure ActionContext where
  accessors : AccessorTable
  config : Config
  element : ElementId
  targets : List ElementId
  parameters : KeyedList String

/-- An action that makes notes of type `ν`. -/
abbrev Action (ν : Type) := ActionContext → Value → Document → Document × List ν

namespace ActionContext

def parameter? (ctx : ActionContext) (name : String) : Option String :=
  ctx.parameters.get? name

/-- Shows or hides the targets one after the other, each marked as controlled. -/
def setVisible (ctx : ActionContext) (doc : Document) (visible : Bool) : Document :=
  ctx.targets.foldl (fun doc target =>
    let doc := doc.setAttribute target ctx.config.controllableAttribute ""
    ctx.accessors.setVisible doc target visible) doc

end ActionContext

namespace Action
variable {ν : Type}

def silent (change : ActionContext → Value → Document → Document) : Action ν :=
  fun ctx result doc => (change ctx result doc, [])

def onEach (change : ActionContext → Value → Document → ElementId → Document) : Action ν :=
  silent fun ctx result doc => ctx.targets.foldl (change ctx result) doc

def visibility : Action ν :=
  silent fun ctx result doc => ctx.setVisible doc result.isTruthy

def disabled : Action ν :=
  onEach fun ctx result doc target => ctx.accessors.setDisabled doc target result.isTruthy

def readonly : Action ν :=
  onEach fun ctx result doc target => ctx.accessors.setReadonly doc target result.isTruthy

def required : Action ν :=
  onEach fun ctx result doc target => ctx.accessors.setRequired doc target result.isTruthy

/-- Writes the result, with a change event, unless it is undefined. -/
def set : Action ν :=
  onEach fun ctx result doc target =>
    if result.isUndefined then doc else ctx.accessors.set doc target result true

def setIfBlank : Action ν :=
  onEach fun ctx result doc target =>
    if result.isUndefined || !(ctx.accessors.get doc target).isBlank then doc
    else ctx.accessors.set doc target result true

/-- Marks a target as invalid with a message, or takes the mark away. -/
def mark (ctx : ActionContext) (result : Value) (doc : Document) (target : ElementId) : Document :=
  let name := ctx.config.validationMessageAttribute
  if result.isTruthy then
    (doc.removeAttribute target "aria-invalid").removeAttribute target name
  else
    (doc.setAttribute target "aria-invalid" "true").setAttribute target name
      ((ctx.parameter? "msg").getD defaultValidationMessage)

/-- Marks the targets as invalid, with the message that the parameter `msg` gives, when the result
is falsy. -/
def validate : Action ν := onEach mark

end Action

end FormDependencies
