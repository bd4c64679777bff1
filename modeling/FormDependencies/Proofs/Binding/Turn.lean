import FormDependencies.Proofs.Action.Quiet
import FormDependencies.Proofs.Binding.Effect
import Mathlib.Algebra.Order.BigOperators.Group.List
import Mathlib.Algebra.Order.Ring.Nat

/-!
What is counted in a turn. An attempt to evaluate an observer uses up one of the evaluations that
the limit leaves to the observer, or it does not touch the document. So the document can change only
as often as there are evaluations left.
-/

namespace FormDependencies.Bindings
variable {ν : Type}

open Document (OnlyChanges)

/-! ## Counts -/

theorem turnCount_setTurn (b : Bindings ν) (id other : ObserverId) (count : Nat) :
    (b.setTurn id count).turnCount other = if other = id then count else b.turnCount other := by
  unfold turnCount turnCount? setTurn
  dsimp only
  rw [List.find?_cons]
  by_cases own : other = id
  · simp [own]
  · have kept : (b.turn.filter fun entry => entry.1 != id).find? (fun entry => entry.1 == other) =
        b.turn.find? fun entry => entry.1 == other := by
      rw [List.find?_filter]
      congr 1
      funext entry
      by_cases same : entry.1 = other <;> simp [same, own]
    rw [kept, beq_false_of_ne (Ne.symm own), if_neg own]

theorem turnCount_countTurn (b : Bindings ν) (id other : ObserverId) :
    (b.countTurn id).turnCount other =
      if other = id then b.turnCount id + 1 else b.turnCount other :=
  b.turnCount_setTurn id other _

@[simp] theorem turnCount_enterTurn (b : Bindings ν) (id other : ObserverId) :
    (b.enterTurn id).turnCount other = b.turnCount other := by
  unfold enterTurn
  rw [turnCount_setTurn]
  split
  · next own => rw [own]
  · rfl

theorem turnCount_congr {b c : Bindings ν} (turn : c.turn = b.turn) (id : ObserverId) :
    c.turnCount id = b.turnCount id := by
  unfold turnCount turnCount?
  rw [turn]

/-- The counts of the observers that remain stay as they are. -/
theorem Destroys.turnCount {b c : Bindings ν} {ids : List ObserverId} (destroys : Destroys b c ids)
    {id : ObserverId} (remains : id ∉ ids) : c.turnCount id = b.turnCount id := by
  unfold Bindings.turnCount turnCount?
  rw [destroys.turn, List.find?_filter]
  congr 3
  funext entry
  by_cases same : entry.1 = id <;> simp [same, remains]

theorem Evaluates.turnCount {b c : Bindings ν} {o : Observer ν} {subscriptions : List Subscription}
    {readings : List Reading} (evaluates : Evaluates (b.countTurn o.id) o c subscriptions readings)
    (id : ObserverId) :
    c.turnCount id = if id = o.id then b.turnCount o.id + 1 else b.turnCount id :=
  (turnCount_congr evaluates.turn id).trans (b.turnCount_countTurn o.id id)

theorem Evaluates.map_id {b c : Bindings ν} {o : Observer ν} {subscriptions : List Subscription}
    {readings : List Reading} (evaluates : Evaluates b o c subscriptions readings) :
    c.observers.map (·.id) = b.observers.map (·.id) := by
  have same := congrArg (List.map (·.id)) evaluates.map_asCreated
  rw [List.map_map, List.map_map] at same
  exact same

/-! ## The evaluations that are left -/

/-- How many evaluations the limit leaves to all observers together. -/
def budget (b : Bindings ν) (limit : Nat) : Nat :=
  ((b.observers.map (·.id)).map fun id => limit - b.turnCount id).sum

theorem budget_congr {b c : Bindings ν} (observers : c.observers = b.observers)
    (counts : ∀ id, c.turnCount id = b.turnCount id) (limit : Nat) :
    c.budget limit = b.budget limit := by
  unfold budget
  rw [observers, funext fun id => congrArg (limit - ·) (counts id)]

/-- Observers that are gone or that have been evaluated more often leave less. -/
theorem budget_le {b c : Bindings ν}
    (fewer : (c.observers.map (·.id)).Sublist (b.observers.map (·.id)))
    (counts : ∀ id ∈ c.observers.map (·.id), b.turnCount id ≤ c.turnCount id) (limit : Nat) :
    c.budget limit ≤ b.budget limit := by
  have used : c.budget limit ≤
      ((c.observers.map (·.id)).map fun id => limit - b.turnCount id).sum :=
    List.sum_le_sum fun id mem => Nat.sub_le_sub_left (counts id mem) limit
  exact Nat.le_trans used ((fewer.map _).sum_le_sum fun _ _ => Nat.zero_le _)

theorem budget_lt {b c : Bindings ν} (same : c.observers.map (·.id) = b.observers.map (·.id))
    (counts : ∀ id ∈ c.observers.map (·.id), b.turnCount id ≤ c.turnCount id) {limit : Nat}
    {id : ObserverId} (mem : id ∈ c.observers.map (·.id)) (free : b.turnCount id < limit)
    (counted : b.turnCount id < c.turnCount id) : c.budget limit < b.budget limit := by
  unfold budget
  rw [← same]
  refine List.sum_lt_sum _ _ (fun id mem => Nat.sub_le_sub_left (counts id mem) limit) ⟨id, mem, ?_⟩
  exact Nat.sub_lt_sub_left free counted

structure Spends (limit : Nat) (b : Bindings ν) (doc : Document) (c : Bindings ν)
    (doc' : Document) : Prop where
  budget : c.budget limit ≤ b.budget limit
  spent : doc' = doc ∨ c.budget limit < b.budget limit

theorem Spends.trans {limit : Nat} {b c d : Bindings ν} {doc doc' doc'' : Document}
    (first : Spends limit b doc c doc') (second : Spends limit c doc' d doc'') :
    Spends limit b doc d doc'' := by
  refine ⟨Nat.le_trans second.budget first.budget, ?_⟩
  rcases second.spent with rfl | less
  · exact first.spent.imp_right (Nat.lt_of_le_of_lt second.budget)
  · exact .inr (Nat.lt_of_lt_of_le less first.budget)

section
variable {b c : Bindings ν} {doc doc' : Document} {env : Environment} {id : ObserverId}

theorem Attempted.spends (h : b.WellFormed) (attempted : Attempted b doc env id c doc') :
    Spends env.config.cascadeLimit.toNat b doc c doc' := by
  have counted : ∀ other, b.turnCount other ≤ (b.countTurn id).turnCount other := by
    intro other
    rw [turnCount_countTurn]
    split
    · next own => exact own ▸ Nat.le_succ _
    · exact Nat.le_refl _
  cases attempted with
  | refused =>
    have left := budget_congr (b := b) (c := b.enterTurn id) rfl (b.turnCount_enterTurn id)
    exact ⟨Nat.le_of_eq (left _), .inl rfl⟩
  | missing =>
    have fewer : ((b.countTurn id).observers.map (·.id)).Sublist (b.observers.map (·.id)) := .refl _
    exact ⟨budget_le fewer (fun other _ => counted other) _, .inl rfl⟩
  | detached _ o =>
    have destroys := (b.countTurn id).destroys_destroyElement o.element
    refine ⟨budget_le ?_ (fun other mem => ?_) _, .inl rfl⟩
    · rw [destroys.observers]
      exact List.filter_sublist.map _
    · obtain ⟨p, there, rfl⟩ := List.mem_map.mp mem
      rw [destroys.turnCount (destroys.mem_observers.mp there).2]
      exact counted p.id
  | evaluated free o found =>
    obtain ⟨mem, rfl⟩ := mem_of_observer? found
    have evaluates := h.evaluates doc env found
    have counts := evaluates.turnCount
    have same : ((b.countTurn o.id).evaluateObserver doc env o).1.observers.map (·.id) =
        b.observers.map (·.id) := evaluates.map_id
    have less : Bindings.budget ((b.countTurn o.id).evaluateObserver doc env o).1
        env.config.cascadeLimit.toNat < b.budget env.config.cascadeLimit.toNat := by
      refine budget_lt same (fun other _ => ?_) (same.symm ▸ List.mem_map_of_mem mem) ?_ ?_
      · rw [counts, ← turnCount_countTurn]
        exact counted other
      · simpa [isLimited] using free
      · rw [counts, if_pos rfl]
        exact Nat.lt_succ_self _
    exact ⟨Nat.le_of_lt less, .inr less⟩

end

/-- Emptying a queue of quiet observers makes quiet changes, and it uses up some evaluations if it
makes any. -/
theorem quiet_flush {b : Bindings ν} {env : Environment} (h : b.WellFormed)
    (quiet : b.Keeps OnlyChanges fun _ => True) (given : env.Keeps OnlyChanges fun _ => True)
    (doc : Document) :
    (b.flush doc env).1.Keeps OnlyChanges (fun _ => True) ∧
      OnlyChanges doc (b.flush doc env).2.1 ∧
      Spends env.config.cascadeLimit.toNat b doc (b.flush doc env).1 (b.flush doc env).2.1 := by
  let Q := fun (c : Bindings ν) (doc' : Document) =>
    c.Keeps OnlyChanges (fun _ => True) ∧ OnlyChanges doc doc' ∧
      Spends env.config.cascadeLimit.toNat b doc c doc'
  refine flush_keeps (Q := Q) ?_ h
    ⟨quiet, .refl doc, Nat.le_of_eq (budget_congr rfl (fun _ => rfl) _), .inl rfl⟩
  rintro c doc₁ id d doc₂ wellFormed attempted ⟨quiet, only, spends⟩
  exact ⟨attempted.keeps quiet wellFormed,
    only.trans (attempted.document OnlyChanges.permits given quiet),
    spends.trans (attempted.spends wellFormed)⟩

/-! ## The limit -/

/-- Since the start of a turn no observer has completed more evaluations than the limit allows, nor
more than have been counted of it. -/
structure Within (start : ObserverId → Nat) (limit : Nat) (b : Bindings ν) : Prop where
  limited : ∀ id, b.completions id ≤ start id + limit
  counted : ∀ o ∈ b.observers, b.completions o.id ≤ start o.id + b.turnCount o.id
  new : ∀ id : ObserverId, b.nextObserver ≤ id.number → b.completions id ≤ start id

theorem within_beginTurn (b : Bindings ν) (limit : Nat) :
    Within b.completions limit b.beginTurn :=
  ⟨fun _ => Nat.le_add_right _ _, fun _ _ => Nat.le_add_right _ _, fun _ _ => Nat.le_refl _⟩

section
variable {start : ObserverId → Nat} {limit : Nat} {b c : Bindings ν}

theorem Within.announce (within : Within start limit b) (announces : Announces b c) :
    Within start limit c where
  limited id := announces.history.completions id ▸ within.limited id
  counted o mem := by
    rw [announces.history.completions, turnCount_congr announces.turn]
    exact within.counted o (announces.observers ▸ mem)
  new id unborn := by
    rw [announces.history.completions]
    exact within.new id (announces.nextObserver ▸ unborn)

theorem Within.destroy {ids : List ObserverId} (within : Within start limit b)
    (destroys : Destroys b c ids) : Within start limit c := by
  have same : SameHistory b c := .of_eq destroys.journal
  constructor
  · intro id
    rw [same.completions]
    exact within.limited id
  · intro o mem
    obtain ⟨there, remains⟩ := destroys.mem_observers.mp mem
    rw [same.completions, destroys.turnCount remains]
    exact within.counted o there
  · intro id unborn
    rw [same.completions]
    exact within.new id (destroys.nextObserver ▸ unborn)

/-- Names of observers are given only once, so new observers have completed nothing. -/
theorem Within.addObservers (within : Within start limit b) {added : List (Observer ν)}
    (numbers : added.map (·.id.number) = List.range' b.nextObserver added.length) (el : ElementId)
    (signature : String) (replaced : Nat) :
    Within start limit (b.addObservers el signature replaced added) := by
  have logged := within.announce
    (.log rfl : Announces b (b.log (.observersCreated el added.length replaced)))
  refine ⟨logged.limited, fun o mem => ?_, fun id unborn =>
    logged.new id (Nat.le_trans (Nat.le_add_right _ _) unborn)⟩
  rcases List.mem_append.mp mem with mem | mem
  · exact logged.counted o mem
  · have new := (number_of_mem_addObservers numbers (List.mem_map_of_mem mem)).1
    exact Nat.le_trans (logged.new o.id new) (Nat.le_add_right _ _)

theorem Within.attempt {doc doc' : Document} {env : Environment} {id : ObserverId}
    (within : Within start env.config.cascadeLimit.toNat b) (h : b.WellFormed)
    (attempted : Attempted b doc env id c doc') :
    Within start env.config.cascadeLimit.toNat c := by
  have counts : Within start env.config.cascadeLimit.toNat (b.countTurn id) := by
    refine ⟨within.limited, fun o mem => Nat.le_trans (within.counted o mem) ?_, within.new⟩
    rw [turnCount_countTurn]
    split
    · next own => exact own ▸ Nat.add_le_add_left (Nat.le_succ _) _
    · exact Nat.le_refl _
  cases attempted with
  | refused limited =>
    have entered : Within start env.config.cascadeLimit.toNat (b.enterTurn id) :=
      ⟨within.limited, fun o mem => (b.turnCount_enterTurn id o.id).symm ▸ within.counted o mem,
        within.new⟩
    have same : ∀ other,
        ((b.enterTurn id).log (.cascadeLimit id env.config.cascadeLimit.toNat)).completions other =
          (b.enterTurn id).completions other :=
      (b.enterTurn id).completions_record (.log (.cascadeLimit id env.config.cascadeLimit.toNat))
    exact ⟨fun other => same other ▸ entered.limited other,
      fun o mem => same o.id ▸ entered.counted o mem,
      fun other unborn => same other ▸ entered.new other unborn⟩
  | missing => exact counts
  | detached _ o => exact counts.destroy ((b.countTurn id).destroys_destroyElement o.element)
  | evaluated free o found =>
    obtain ⟨mem, rfl⟩ := mem_of_observer? found
    have evaluates := h.evaluates doc env found
    have free : b.turnCount o.id < env.config.cascadeLimit.toNat := by simpa [isLimited] using free
    have before := within.counted o mem
    have completed : ∀ other,
        Bindings.completions ((b.countTurn o.id).evaluateObserver doc env o).1 other ≤
          b.completions other + if other = o.id then 1 else 0 := evaluates.completions
    have own := completed o.id
    rw [if_pos rfl] at own
    have others : ∀ other, other ≠ o.id →
        Bindings.completions ((b.countTurn o.id).evaluateObserver doc env o).1 other ≤
          b.completions other := fun other different => by
      simpa [different] using completed other
    constructor
    · intro other
      by_cases same : other = o.id
      · subst same
        omega
      · exact Nat.le_trans (others other same) (within.limited other)
    · intro p there
      rw [evaluates.turnCount]
      split
      · next same =>
        rw [same]
        omega
      · next different =>
        obtain ⟨q, was, same, -⟩ := evaluates.before there
        have same : p.id = q.id := congrArg (·.id) same
        apply Nat.le_trans (others p.id different)
        rw [same]
        exact within.counted q was
    · intro other unborn
      have created : o.id.number < b.nextObserver := h.created o mem
      have next : b.nextObserver ≤ other.number := evaluates.nextObserver ▸ unborn
      have different : other ≠ o.id := fun same => Nat.not_lt.mpr next (same ▸ created)
      exact Nat.le_trans (others other different) (within.new other next)

end

theorem within_flush {start : ObserverId → Nat} {b : Bindings ν} {env : Environment}
    (h : b.WellFormed) (within : Within start env.config.cascadeLimit.toNat b) (doc : Document) :
    Within start env.config.cascadeLimit.toNat (b.flush doc env).1 :=
  flush_keeps (Q := fun c _ => Within start env.config.cascadeLimit.toNat c)
    (fun _ _ _ _ _ wellFormed attempted within => within.attempt wellFormed attempted) h
    ⟨within.limited, within.counted, within.new⟩

end FormDependencies.Bindings
