import FormDependencies.Binary64.Basic
import FormDependencies.KeyedList

/-!
JSON values. Numbers are 64-bit floating point numbers, and the members of an object are in
ascending order of their keys.
-/

namespace FormDependencies

inductive Json where
  | null
  | bool (b : Bool)
  | number (n : Binary64)
  | text (s : String)
  | array (items : List Json)
  | object (members : List (String × Json))

instance : Inhabited Json := ⟨.null⟩

end FormDependencies
