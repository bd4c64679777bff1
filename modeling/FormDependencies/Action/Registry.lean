import FormDependencies.Action.Basic
import FormDependencies.Action.Name

/-!
The table of actions by name, in order of first registration. A later action of a name takes the
place of the earlier one.
-/

namespace FormDependencies

structure ActionTable (ν : Type) where
  entries : List (String × Action ν) := []

namespace ActionTable
variable {ν : Type}

def empty : ActionTable ν := {}

/-- Puts an action under a name, in place of the one it had. -/
def putEntry (name : String) (action : Action ν) :
    List (String × Action ν) → List (String × Action ν)
  | [] => [(name, action)]
  | entry :: rest =>
    if entry.1 = name then (name, action) :: rest else entry :: putEntry name action rest

def put (table : ActionTable ν) (name : String) (action : Action ν) : ActionTable ν :=
  ⟨putEntry name action table.entries⟩

def builtin : ActionTable ν where
  entries :=
    [(ActionName.default, .visibility), ("disabled", .disabled), ("readonly", .readonly),
      ("required", .required), ("set", .set), ("set-if-blank", .setIfBlank),
      ("validate", .validate)]

def names (table : ActionTable ν) : List String := table.entries.map (·.1)

def size (table : ActionTable ν) : Nat := table.entries.length

def contains (table : ActionTable ν) (name : String) : Bool :=
  table.entries.any fun entry => entry.1 == name

def get (table : ActionTable ν) (name : String) : Except DependencyError (Action ν) :=
  match table.entries.find? fun entry => entry.1 == name with
  | some entry => .ok entry.2
  | none => .error (.unknownAction name table.names)

def register (table : ActionTable ν) (raw : String) (action : Action ν) :
    Except DependencyError (ActionTable ν × String) :=
  let name := ActionName.sanitize (Text.trim raw)
  if name.isEmpty then .error (.invalidActionName raw) else .ok (table.put name action, name)

end ActionTable

end FormDependencies
