import FormDependencies.Proofs.Binding.Effect
import FormDependencies.Proofs.Binding.Independence
import FormDependencies.Proofs.Document.Complete

/-!
What becomes of an observer when some of the waiting ones have their turns: it is evaluated, or
destroyed, or left as it is. As long as those look neither at their own element nor up to a scope
and their actions leave the tree alone, this depends on who they are, and on the state before all
of them.
-/

namespace FormDependencies

/-- Whether an observer reads nothing that depends on where its element is, and acts without
changing the tree. -/
structure Observer.Independent {ν : Type} (env : Environment) (o : Observer ν) : Prop where
  plain : ∀ token ∈ o.query.references, token.IsPlain
  action : ∀ targets result (doc : Document), doc.SameStructure (o.action
    { accessors := env.accessors, config := env.config, element := o.element, targets,
      parameters := o.parameters } result doc).1

/-- All built-in accessors and actions leave the tree as it is. -/
theorem Document.SameTree.permits : Permits SameTree (fun _ => True) fun _ => True where
  refl _ := ⟨rfl, rfl⟩
  trans := .trans
  setAttribute doc el _ _ _ := doc.sameTree_modify el _
  removeAttribute doc el _ _ := doc.sameTree_modify el _
  setChecked doc el _ := doc.sameTree_modify el _
  setValue doc el _ := doc.sameTree_modify el _
  trigger doc el kind _ := doc.sameTree_trigger el kind
  field _ _ := trivial
  named _ _ := ⟨trivial, trivial⟩

theorem Observer.independent {ν : Type} {env : Environment} {o : Observer ν}
    {suits : Config → Prop} (plain : ∀ token ∈ o.query.references, token.IsPlain)
    (given : env.Keeps Document.SameTree suits) (action : o.action.Keeps Document.SameTree suits) :
    o.Independent env :=
  ⟨plain, fun _ result doc => (action _ result doc given.accessors given.suited).structure⟩

def Observer.finished {ν : Type} (o : Observer ν) : Option Value → Observer ν
  | none => o
  | some result => { o with evaluations := o.evaluations + 1, lastResult := some result }

namespace Bindings
variable {ν : Type}

/-! ## One evaluation -/

def resultOf (b : Bindings ν) (doc : Document) (env : Environment) (o : Observer ν) :
    Option Value :=
  match env.evaluator o.query.text (b.lookUp doc env.accessors o).values with
  | .error _ => none
  | .ok value => some (if o.negated then .bool (!value.isTruthy) else value)

theorem observers_evaluateObserver {b : Bindings ν} (placed : b.Placed) (doc : Document)
    (env : Environment) (o : Observer ν) :
    let subscriptions := (b.lookUp doc env.accessors o).subscriptions
    (b.evaluateObserver doc env o).1.observers = b.observers.map fun p =>
      if p.id == o.id then { p with subscriptions }.finished (b.resultOf doc env o) else p := by
  intro subscriptions
  obtain ⟨slots, epochs, rebound, -⟩ := b.rebind_eq doc env.accessors o
  have looked := (lookUp_faithful placed doc env.accessors o).observers
  have once : ∀ result, (b.rebind doc env.accessors o).1.observers.map
        (fun p => if p.id == o.id then p.finished result else p) =
      b.observers.map fun p =>
        if p.id == o.id then { p with subscriptions }.finished result else p := by
    intro result
    rw [rebound]
    dsimp only
    rw [looked, List.map_map]
    refine List.map_congr_left fun p _ => ?_
    by_cases own : p.id = o.id <;> simp [own, subscriptions]
  unfold evaluateObserver resultOf
  have values : (b.rebind doc env.accessors o).2 = (b.lookUp doc env.accessors o).values := rfl
  dsimp only
  rw [values]
  cases env.evaluator o.query.text (b.lookUp doc env.accessors o).values with
  | error reason =>
    refine Eq.trans ?_ (once none)
    simp [record, Observer.finished]
  | ok value =>
    dsimp only
    split
    · exact once (some _)
    · obtain ⟨notes, same, -⟩ := Notes.recordNotes (ν := ν) _ _
      refine (congrArg Bindings.observers same).trans (once (some _))

theorem turn_evaluateObserver {b : Bindings ν} (placed : b.Placed) (doc : Document)
    (env : Environment) (o : Observer ν) : (b.evaluateObserver doc env o).1.turn = b.turn := by
  obtain ⟨change, added, evaluated, -⟩ := b.evaluateObserver_eq doc env o
  obtain ⟨slots, epochs, rebound, -⟩ := b.rebind_eq doc env.accessors o
  rw [evaluated, rebound]
  exact (lookUp_faithful placed doc env.accessors o).turn

theorem groups_evaluateObserver (b : Bindings ν) (doc : Document) (env : Environment)
    (o : Observer ν) : (b.evaluateObserver doc env o).1.groups =
      (b.lookUp doc env.accessors o).bindings.groups := by
  obtain ⟨change, added, evaluated, -⟩ := b.evaluateObserver_eq doc env o
  obtain ⟨slots, epochs, rebound, -⟩ := b.rebind_eq doc env.accessors o
  rw [evaluated, rebound]

/-- The result is the one that there would have been before. -/
theorem resultOf_of_extends {doc doc' : Document} {b c : Bindings ν} (same : doc.SameStructure doc')
    (extension : Extends doc .root b c) (allotted : b.Allotted) {env : Environment}
    {o : Observer ν} (independent : o.Independent env) :
    c.resultOf doc' env o = b.resultOf doc env o := by
  rw [resultOf, values_of_extends same extension allotted env.accessors independent.plain]
  rfl

theorem structure_evaluateObserver (b : Bindings ν) (doc : Document) {env : Environment}
    {o : Observer ν} (independent : o.Independent env) :
    doc.SameStructure (b.evaluateObserver doc env o).2.1 := by
  unfold evaluateObserver
  dsimp only
  cases env.evaluator o.query.text (b.rebind doc env.accessors o).2 with
  | error reason => exact .refl doc
  | ok value =>
    dsimp only
    split
    · exact .refl doc
    · exact independent.action _ _ doc

/-! ## What becomes of an observer -/

/-- An observer apart from its subscriptions, and what it watches. -/
def standing (b : Bindings ν) (o : Observer ν) : Observer ν × List Watched :=
  ({ o with subscriptions := [] }, o.subscriptions.map fun s => b.watched s.source)

theorem Founds.standing {b c : Bindings ν} {asked : String → Prop} (h : Founds b c asked)
    {o : Observer ν} (subscribed : ∀ s ∈ o.subscriptions, b.Has s.source) :
    c.standing o = b.standing o :=
  Prod.ext rfl (List.map_congr_left fun s mem => h.watched (subscribed s mem))

/-- An observer that has been evaluated stands as before, but for what came of it. -/
theorem standing_finished (b : Bindings ν) (o : Observer ν) (subscriptions : List Subscription)
    (result : Option Value) :
    b.standing ({ o with subscriptions }.finished result) =
      ({ o with subscriptions := [] }.finished result,
        subscriptions.map fun s => b.watched s.source) := by
  cases result <;> rfl

theorem standing_congr {b c : Bindings ν} (groups : c.groups = b.groups) :
    c.standing = b.standing := by
  funext o
  rw [Bindings.standing, Bindings.standing, watched_congr groups]

def advanced (b : Bindings ν) (doc : Document) (env : Environment) (o : Observer ν)
    (stands : Observer ν × List Watched) : Observer ν × List Watched :=
  if stands.1.id == o.id then
    (stands.1.finished (b.resultOf doc env o),
      o.query.references.flatMap (b.watchedFor doc o.element))
  else stands

theorem advanced_fst (b : Bindings ν) (doc : Document) (env : Environment) (o : Observer ν)
    (stands : Observer ν × List Watched) :
    (b.advanced doc env o stands).1.id = stands.1.id ∧
      (b.advanced doc env o stands).1.element = stands.1.element := by
  unfold advanced
  split
  · cases b.resultOf doc env o <;> exact ⟨rfl, rfl⟩
  · exact ⟨rfl, rfl⟩

/-- An evaluation comes to the same whatever has happened to the others before. -/
theorem standing_evaluateObserver {doc doc' : Document} {b c : Bindings ν}
    (same : doc.SameStructure doc') (extension : Extends doc .root b c) (allotted : b.Allotted)
    (orderly : c.Orderly) {env : Environment} {o : Observer ν} (independent : o.Independent env) :
    let d := (c.evaluateObserver doc' env o).1
    d.observers.map d.standing = (c.observers.map c.standing).map (b.advanced doc env o) := by
  intro d
  have founds : Founds c d o.query.AsksFor :=
    .evaluateObserver extension.allotted doc' env independent.plain
  have watches := watched_lookUp same extension env.accessors independent.plain
  have groups : d.groups = (c.lookUp doc' env.accessors o).bindings.groups :=
    c.groups_evaluateObserver doc' env o
  rw [observers_evaluateObserver extension.allotted.placed doc' env o,
    resultOf_of_extends same extension allotted independent, List.map_map, List.map_map]
  refine List.map_congr_left fun q mem => ?_
  have name : (c.standing q).1.id = q.id := rfl
  unfold advanced
  dsimp only [Function.comp_apply]
  rw [name]
  split
  · rw [standing_finished, watched_congr groups, watches]
    rfl
  · exact founds.standing fun s subscribed => orderly.subscribed q mem s subscribed

section
variable (b : Bindings ν) (doc : Document) (env : Environment) (done : List ObserverId)

def isTried (o : Observer ν) : Bool := done.contains o.id && !b.isLimited env.config o.id

/-- Whether an observer is still there after the turns of some. Who finds its element detached
destroys all observers of the element. -/
def outlives (o : Observer ν) : Bool :=
  doc.isAttached o.element ||
    !b.observers.any fun other => other.element == o.element && b.isTried env done other

def isEvaluated (o : Observer ν) : Bool := doc.isAttached o.element && b.isTried env done o

/-- What becomes of an observer that is still there after the turns of some. -/
def prospect (o : Observer ν) : Observer ν × List Watched :=
  if b.isEvaluated doc env done o then b.advanced doc env o (b.standing o) else b.standing o

end

section
variable {b : Bindings ν} {doc : Document} {env : Environment} {done : List ObserverId}
  {o : Observer ν}

theorem prospect_fst (b : Bindings ν) (doc : Document) (env : Environment)
    (done : List ObserverId) (o : Observer ν) :
    (b.prospect doc env done o).1.id = o.id ∧
      (b.prospect doc env done o).1.element = o.element := by
  unfold prospect
  split
  · exact b.advanced_fst doc env o (b.standing o)
  · exact ⟨rfl, rfl⟩

theorem prospect_congr {done' : List ObserverId}
    (same : b.isEvaluated doc env done o = b.isEvaluated doc env done' o) :
    b.prospect doc env done o = b.prospect doc env done' o := by
  rw [prospect, prospect, same]

theorem isTried_append (id : ObserverId) :
    b.isTried env (done ++ [id]) o =
      (b.isTried env done o || o.id == id && !b.isLimited env.config o.id) := by
  simp only [isTried, List.contains_eq_mem, List.mem_append, List.mem_singleton, Bool.decide_or,
    Bool.and_or_distrib_right]
  rfl

theorem isTried_mono {id : ObserverId} (tried : b.isTried env done o) :
    b.isTried env (done ++ [id]) o := by
  simp [isTried_append, tried]

theorem isEvaluated_of_not_mem (b : Bindings ν) (doc : Document) (env : Environment)
    (absent : o.id ∉ done) : b.isEvaluated doc env done o = false := by
  simp [isEvaluated, isTried, absent]

/-- Who has its turn is evaluated if its element is attached, and nobody else. -/
theorem isEvaluated_append {issued : List ObserverId} (registered : b.Registered issued)
    (mem : o ∈ b.observers) (free : b.isLimited env.config o.id = false) {p : Observer ν}
    (mem' : p ∈ b.observers) : b.isEvaluated doc env (done ++ [o.id]) p ↔
      b.isEvaluated doc env done p ∨ p = o ∧ doc.isAttached o.element := by
  by_cases own : p.id = o.id
  · obtain rfl := registered.eq_of_id mem' mem own
    simp only [isEvaluated, isTried_append, beq_self_eq_true, free, Bool.not_false, Bool.and_true,
      Bool.or_true, Bool.and_eq_true, true_and]
    exact ⟨.inr, fun evaluated => evaluated.elim And.left id⟩
  · have other : p ≠ o := fun same => own (same ▸ rfl)
    simp [isEvaluated, isTried_append, beq_false_of_ne own, other]

/-- An evaluation takes every observer from its prospects before the turn to those after it. -/
theorem advanced_prospect {issued : List ObserverId} (registered : b.Registered issued)
    (mem : o ∈ b.observers) (waits : o.id ∉ done) (free : b.isLimited env.config o.id = false)
    (attached : doc.isAttached o.element) {p : Observer ν} (mem' : p ∈ b.observers) :
    b.advanced doc env o (b.prospect doc env done p) = b.prospect doc env (done ++ [o.id]) p := by
  have evaluated : b.isEvaluated doc env (done ++ [o.id]) p ↔
      b.isEvaluated doc env done p ∨ p = o ∧ doc.isAttached o.element :=
    isEvaluated_append registered mem free mem'
  by_cases own : p = o
  · subst own
    have before := b.isEvaluated_of_not_mem doc env waits
    have now := evaluated.mpr (.inr ⟨rfl, attached⟩)
    simp [prospect, before, now]
  · have other : (b.prospect doc env done p).1.id ≠ o.id := fun same =>
      own (registered.eq_of_id mem' mem ((b.prospect_fst doc env done p).1.symm.trans same))
    have still : b.isEvaluated doc env (done ++ [o.id]) p = b.isEvaluated doc env done p := by
      rw [Bool.eq_iff_iff, evaluated]
      simp [own]
    rw [advanced, if_neg (by simpa using other), prospect_congr still]

theorem outlives_iff : b.outlives doc env done o ↔ doc.isAttached o.element ∨
    ∀ other ∈ b.observers, other.element = o.element → b.isTried env done other = false := by
  simp [outlives]

/-- Who finds its element detached leaves none of the observers of the element. -/
theorem outlives_append {issued : List ObserverId} (registered : b.Registered issued)
    (mem : o ∈ b.observers) (free : b.isLimited env.config o.id = false) {p : Observer ν} :
    b.outlives doc env (done ++ [o.id]) p ↔
      b.outlives doc env done p ∧ (doc.isAttached o.element ∨ p.element ≠ o.element) := by
  have tried : ∀ other ∈ b.observers, b.isTried env (done ++ [o.id]) other = false ↔
      b.isTried env done other = false ∧ other ≠ o := by
    intro other there
    have own : other.id = o.id ↔ other = o :=
      ⟨registered.eq_of_id there mem, fun same => same ▸ rfl⟩
    by_cases same : other = o
    · simp [isTried_append, same, free]
    · simp [isTried_append, same, own]
  rw [outlives_iff, outlives_iff]
  by_cases attached : doc.isAttached p.element
  · refine iff_of_true (.inl attached) ⟨.inl attached, ?_⟩
    by_cases same : p.element = o.element
    · exact .inl (same ▸ attached)
    · exact .inr same
  · constructor
    · rintro (none | untried)
      · exact absurd none attached
      · refine ⟨.inr fun other there same => ((tried other there).mp (untried other there same)).1,
          .inr fun same => ?_⟩
        exact ((tried o mem).mp (untried o mem same.symm)).2 rfl
    · rintro ⟨none | untried, apart⟩
      · exact absurd none attached
      · refine .inr fun other there same => (tried other there).mpr ⟨untried other there same, ?_⟩
        rintro rfl
        rcases apart with there | other
        · exact attached (same ▸ there)
        · exact other same.symm

end

/-! ### A turn that comes to nothing -/

section
variable {b : Bindings ν} {doc : Document} {env : Environment} {done : List ObserverId}
  {id : ObserverId} (nothing : ∀ o ∈ b.observers, b.outlives doc env done o → o.id = id →
    b.isLimited env.config o.id)
include nothing

theorem isTried_of_nothing {o : Observer ν} (mem : o ∈ b.observers)
    (tried : b.isTried env (done ++ [id]) o) :
    b.isTried env done o ∨ ¬b.outlives doc env done o := by
  rw [isTried_append] at tried
  simp only [Bool.or_eq_true, Bool.and_eq_true, beq_iff_eq, Bool.not_eq_true'] at tried
  refine tried.imp_right ?_
  rintro ⟨own, free⟩ outlives
  exact absurd (nothing o mem outlives own) (by simp [free])

theorem isEvaluated_of_nothing {o : Observer ν} (mem : o ∈ b.observers) :
    b.isEvaluated doc env (done ++ [id]) o = b.isEvaluated doc env done o := by
  rw [Bool.eq_iff_iff, isEvaluated, isEvaluated, Bool.and_eq_true, Bool.and_eq_true]
  refine and_congr_right fun attached => ⟨fun now => ?_, isTried_mono⟩
  exact (isTried_of_nothing nothing mem now).resolve_right fun gone =>
    gone (outlives_iff.mpr (.inl attached))

theorem outlives_of_nothing :
    b.outlives doc env (done ++ [id]) = b.outlives doc env done := by
  funext o
  rw [Bool.eq_iff_iff, outlives_iff, outlives_iff]
  refine or_congr_right ⟨fun untried other there same => ?_, fun untried other there same => ?_⟩
  · exact Bool.eq_false_iff.mpr fun tried =>
      Bool.eq_false_iff.mp (untried other there same) (isTried_mono tried)
  · refine Bool.eq_false_iff.mpr fun now => ?_
    rcases isTried_of_nothing nothing there now with before | gone
    · simp [untried other there same] at before
    · -- it was gone before, and with it all others of its element
      exact gone (outlives_iff.mpr (.inr fun third there' same' =>
        untried third there' (same'.trans same)))

end

end Bindings

end FormDependencies
