import FormDependencies.Query.Values

/-!
Scripts: a small language that stands in for the expressions of queries. A script computes a value
from the values of the references and the text of the expression. Operands are computed from left
to right, and the first failure is that of the whole.
-/

namespace FormDependencies

inductive Script where
  | get (key : String)
  | const (value : Value)
  | not (a : Script)
  | eq (a b : Script)
  | num (a : Script)
  | add (a b : Script)
  | text (a : Script)
  | concat (a b : Script)
  /-- The branch that the condition does not choose is not computed. -/
  | cond (c a b : Script)
  /-- The second operand when the first is truthy, else false. -/
  | both (a b : Script)
  | length (a : Script)
  | count (name : String)
  | group (name : String)
  | first
  | any
  | size
  | json
  | expression
  | dump
  | fail (message : String)

namespace Script

instance : Inhabited Script := ⟨.first⟩

def eval (text : String) (refs : ReferenceValues) : Script → Except String Value
  | .get key => .ok (refs.get key)
  | .const value => .ok value
  | .not a => do return .bool (!(← a.eval text refs).isTruthy)
  | .eq a b => do
    let a ← a.eval text refs
    let b ← b.eval text refs
    return .bool (a == b)
  | .num a => do return .number (← a.eval text refs).toNumber
  | .add a b => do
    let a ← a.eval text refs
    let b ← b.eval text refs
    return .number (a.toNumber.add b.toNumber)
  | .text a => do return .text (← a.eval text refs).toText
  | .concat a b => do
    let a ← a.eval text refs
    let b ← b.eval text refs
    return .text (a.toText ++ b.toText)
  | .cond c a b => do
    let c ← c.eval text refs
    if c.isTruthy then a.eval text refs else b.eval text refs
  | .both a b => do
    let a ← a.eval text refs
    if a.isTruthy then b.eval text refs else return .bool false
  | .length a => do
    return match (← a.eval text refs).length? with
      | some n => .ofNat n
      | none => .undefined
  | .count name => .ok (match refs.group? name with
    | some g => .ofNat g.count
    | none => .undefined)
  | .group name => .ok (match refs.group? name with
    | some g => .list g.values
    | none => .undefined)
  | .first => .ok ((refs.values.head?.map (·.2)).getD .undefined)
  | .any => .ok (.bool (refs.values.any fun entry => entry.2.isTruthy))
  | .size => .ok (.ofNat refs.size)
  | .json => .ok (.text refs.toJson.render)
  | .expression => .ok (.text text)
  | .dump => .ok (.map refs.values)
  | .fail message => .error message

end Script

end FormDependencies
