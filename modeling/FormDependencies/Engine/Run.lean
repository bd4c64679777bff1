import FormDependencies.Engine.Pump

/-!
Runs: what happens to an engine and its document, one move after the other. The host calls the
engine and changes the document. A turn may be seen as one move, or as its beginning with the rounds
that follow, which shows the states in between.
-/

namespace FormDependencies

inductive Move (ν : Type) where
  | request (container : ElementId) (callback : Option (Document → Document × List ν))
  | dispatch (event : Event)
  /-- A whole turn. It is not finished when it has more than `fuel` rounds. -/
  | pump (fuel : Nat)
  | beginTurn
  /-- One event or pass of a turn that goes on. -/
  | round
  | registerAccessor (selector : String) (accessor : Accessor)
  | registerAction (raw : String) (action : Action ν)
  | takeErrors
  | edit (change : Document → Document)

namespace Move
variable {ν : Type}

def beginsTurn : Move ν → Bool
  | .pump _ | .beginTurn => true
  | _ => false

/-- What a move leaves behind; none when it does not come to its end. -/
def perform? (e : Engine ν) (doc : Document) : Move ν → Option (Engine ν × Document)
  | .request container callback => some (e.request doc container callback, doc)
  | .dispatch event => some (e.dispatch doc event)
  | .pump fuel => (e.pump? fuel doc).map fun (e, doc, _) => (e, doc)
  | .beginTurn => some (e.beginTurn doc, doc)
  | .round => e.step? doc
  | .registerAccessor selector accessor =>
    match e.registerAccessor selector accessor with
    | .ok e => some (e, doc)
    | .error _ => some (e, doc)
  | .registerAction raw action =>
    match e.registerAction raw action with
    | .ok (e, _) => some (e, doc)
    | .error _ => some (e, doc)
  | .takeErrors => some (e.takeErrors.1, doc)
  | .edit change => some (e, change doc)

end Move

namespace Engine
variable {ν : Type}

/-- What moves leave behind, one after the other; none when one does not come to its end. -/
def run? (e : Engine ν) (doc : Document) : List (Move ν) → Option (Engine ν × Document)
  | [] => some (e, doc)
  | move :: rest => (move.perform? e doc).bind fun (e, doc) => e.run? doc rest

/-- What moves leave behind of a new engine and a document; none when there is no such engine, or a
move does not come to its end. -/
def runNew? (config : Config) (evaluator : Evaluator) (given : Document) (moves : List (Move ν)) :
    Option (Engine ν × Document) :=
  match create config evaluator with
  | .ok e => e.run? given moves
  | .error _ => none

/-- Whether an engine with its document can come from a new engine, beside any document, by
moves. -/
def Reachable (e : Engine ν) (doc : Document) : Prop :=
  ∃ (config : Config) (evaluator : Evaluator) (given : Document) (moves : List (Move ν)),
    runNew? config evaluator given moves = some (e, doc)

end Engine

end FormDependencies
