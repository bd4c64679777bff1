import FormDependencies.Binding.Reference

/-!
Groups: all references of one name within the subtree of one element. The value of a group is the
list of the values of its members in document order. A group is created when it is first read, and
computed anew whenever members may have come or gone.
-/

namespace FormDependencies.Bindings
variable {ν : Type}

def group? (b : Bindings ν) (name : String) (scope : ElementId) : Option Group :=
  b.groups.find? fun g => g.name == name && g.scope == scope

def memberValues (b : Bindings ν) (members : List Reference) : Value :=
  .list (members.map fun r => b.read r.slot)

/-- Computes a group anew. The answer says whether its value changed. -/
def refresh (b : Bindings ν) (doc : Document) (g : Group) : Bindings ν × Group × Bool :=
  let members := b.namedWithin doc g.scope g.name
  let (b, changed) := b.write g.slot (b.memberValues members)
  (b, { g with members := members.map (·.element) }, changed)

/-- Computes the groups that `chosen` picks anew, in order; gives all groups and the number of those
whose value changed. -/
def refreshEach (b : Bindings ν) (doc : Document) (chosen : Group → Bool) :
    List Group → Bindings ν × List Group × Nat
  | [] => (b, [], 0)
  | g :: rest =>
    if chosen g then
      let (b, g, changed) := b.refresh doc g
      let (b, rest, count) := b.refreshEach doc chosen rest
      (b, g :: rest, if changed then count + 1 else count)
    else
      let (b, rest, count) := b.refreshEach doc chosen rest
      (b, g :: rest, count)

def resolveGroup (b : Bindings ν) (doc : Document) (name : String) (scope : ElementId) :
    Bindings ν × Group :=
  match b.group? name scope with
  | some g => (b, g)
  | none =>
    let (b, slot) := b.newSlot (.list [])
    let (b, g, _) := b.refresh doc ⟨name, scope, [], slot⟩
    let b := b.log (.groupCreated name scope g.members.length)
    ({ b with groups := b.groups ++ [g] }, g)

/-- What the evaluator gets of a group: the values and the number of members. -/
def snapshot (b : Bindings ν) (g : Group) : GroupSnapshot where
  values := match b.read g.slot with
    | .list values => values
    | _ => []
  count := g.members.length

/-- Drops the groups whose scope is not attached, their slots becoming undefined, and computes the
others anew. The answer is the number of groups whose value changed. -/
def actualizeGroups (b : Bindings ν) (doc : Document) : Bindings ν × Nat :=
  let (live, dropped) := b.groups.partition fun g => doc.isAttached g.scope
  let b := dropped.foldl (fun b g => (b.write g.slot .undefined).1) b
  let (b, groups, changed) := b.refreshEach doc (fun _ => true) live
  let b := { b with groups }
  (b.log (.groupsActualized dropped.length changed groups.length), changed)

/-- Computes the groups of some names anew whose scope contains an element. The answer is the number
of groups whose value changed. -/
def groupsChanged (b : Bindings ν) (doc : Document) (target : ElementId) (names : List String) :
    Bindings ν × Nat :=
  let (b, groups, changed) := b.refreshEach doc
    (fun g => names.contains g.name && doc.isWithin target g.scope) b.groups
  ({ b with groups }, changed)

end FormDependencies.Bindings
