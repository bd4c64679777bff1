import FormDependencies.Binding.Evaluation

/-!
What the journal tells about evaluations. An attempt to evaluate an observer is refused by the limit
of the turn, or it reads the references of the observer. It is completed when the evaluator gives a
result.
-/

namespace FormDependencies

/-- What came of an attempt to evaluate an observer. -/
inductive Attempt where
  | refused
  | looked (readings : List Reading)

namespace Entry
variable {ν : Type}

def attempt? (id : ObserverId) : Entry ν → Option Attempt
  | .lookedUp other readings => if other = id then some (.looked readings) else none
  | .log (.cascadeLimit other _) => if other = id then some .refused else none
  | _ => none

def evaluated? : Entry ν → Option ObserverId
  | .lookedUp id _ => some id
  | _ => none

def completes (id : ObserverId) : Entry ν → Bool
  | .log (.evaluated other _ _ _) => other == id
  | _ => false

def isPlain : Entry ν → Bool
  | .lookedUp _ _ | .log (.cascadeLimit _ _) | .log (.evaluated _ _ _ _) => false
  | _ => true

theorem attempt?_of_isPlain {entry : Entry ν} (plain : entry.isPlain) (id : ObserverId) :
    entry.attempt? id = none := by
  unfold isPlain at plain
  unfold attempt?
  split at plain <;> simp_all

theorem evaluated?_of_isPlain {entry : Entry ν} (plain : entry.isPlain) :
    entry.evaluated? = none := by
  unfold isPlain at plain
  unfold evaluated?
  split at plain <;> simp_all

theorem completes_of_isPlain {entry : Entry ν} (plain : entry.isPlain) (id : ObserverId) :
    entry.completes id = false := by
  unfold isPlain at plain
  unfold completes
  split at plain <;> simp_all

end Entry

namespace Bindings
variable {ν : Type}

def lastAttempt? (b : Bindings ν) (id : ObserverId) : Option Attempt :=
  b.journal.findSome? (Entry.attempt? id)

/-- The observers that were evaluated, in order, with repetitions. -/
def evaluated (b : Bindings ν) : List ObserverId :=
  (b.journal.filterMap Entry.evaluated?).reverse

def completions (b : Bindings ν) (id : ObserverId) : Nat :=
  b.journal.countP (Entry.completes id)

theorem lastAttempt?_record (b : Bindings ν) (entry : Entry ν) (id : ObserverId) :
    (b.record entry).lastAttempt? id = (entry.attempt? id).or (b.lastAttempt? id) := by
  simp only [lastAttempt?, record, List.findSome?_cons]
  cases entry.attempt? id <;> rfl

theorem evaluated_record (b : Bindings ν) (entry : Entry ν) :
    (b.record entry).evaluated = b.evaluated ++ entry.evaluated?.toList := by
  simp only [evaluated, record, List.filterMap_cons]
  cases entry.evaluated? <;> simp

theorem completions_record (b : Bindings ν) (entry : Entry ν) (id : ObserverId) :
    (b.record entry).completions id =
      b.completions id + if entry.completes id then 1 else 0 := by
  simp only [completions, record, List.countP_cons]

end Bindings

end FormDependencies
