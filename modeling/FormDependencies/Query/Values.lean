import FormDependencies.KeyedList
import FormDependencies.Value.Basic

/-!
The values that are handed to the evaluator of a query: a value for each key, and for the keys of
groups also the values of the members with their count.
-/

namespace FormDependencies

/-- The values of the members of a group. -/
structure GroupSnapshot where
  values : List Value := []
  count : Nat := 0

structure ReferenceValues where
  values : KeyedList Value := []
  groups : KeyedList GroupSnapshot := []

namespace ReferenceValues

def empty : ReferenceValues := {}

def insert (r : ReferenceValues) (key : String) (value : Value) : ReferenceValues :=
  { r with values := r.values.insert key value }

/-- Records a group; its key also has the list of its values. -/
def insertGroup (r : ReferenceValues) (key : String) (snapshot : GroupSnapshot) : ReferenceValues :=
  { values := r.values.insert key (.list snapshot.values)
    groups := r.groups.insert key snapshot }

def get (r : ReferenceValues) (key : String) : Value :=
  (r.values.get? key).getD .undefined

def group? (r : ReferenceValues) (name : String) : Option GroupSnapshot :=
  r.groups.get? ("@" ++ name)

def size (r : ReferenceValues) : Nat := r.values.length

def isEmpty (r : ReferenceValues) : Bool := r.values.isEmpty

def toJson (r : ReferenceValues) : Json :=
  (Value.map r.values).toJson

end ReferenceValues

end FormDependencies
