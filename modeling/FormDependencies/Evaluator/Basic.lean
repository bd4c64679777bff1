import FormDependencies.Evaluator.Script
import FormDependencies.Text.Quoted

/-!
Evaluators: what computes the result of an expression from the values of its references. The
language of expressions belongs to the host; here are evaluators that ignore the expression or look
it up in a table.
-/

namespace FormDependencies

/-- Computes the result of an expression from the values of its references, or says why it
cannot. -/
abbrev Evaluator := String → ReferenceValues → Except String Value

namespace Evaluator

def reference (key : String) : Evaluator := fun _ refs => .ok (refs.get key)

def equals (key : String) (expected : Value) : Evaluator := fun _ refs =>
  .ok (.bool (refs.get key == expected))

def groupCountAtLeast (name : String) (least : Nat) : Evaluator := fun _ refs =>
  .ok (.bool (least ≤ ((refs.group? name).map (·.count)).getD 0))

def script (s : Script) : Evaluator := fun text refs => s.eval text refs

/-- A script for each expression, the last one where there are several; a script that fails gives
undefined. -/
def scripted (scripts : List (String × Script)) : Evaluator := fun text refs =>
  match scripts.reverse.find? fun entry => entry.1 == text with
  | some entry => .ok (match entry.2.eval text refs with
    | .ok value => value
    | .error _ => .undefined)
  | none => .error ("no script for " ++ Text.quoted text)

end Evaluator

end FormDependencies
