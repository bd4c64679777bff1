import FormDependencies.Evaluator.Script
import FormDependencies.Proofs.Engine.Standing

/-!
Passes that are repeated. When the actions of a pass spare the tree and the declarations in its
container, and leave the document as it was, a second pass over the container, or over one inside
it, changes nothing. It is not enough that the document is as it was at the end: what an action
changes and another one puts back may have been taken up in between.
-/

namespace FormDependencies

namespace Evaluation
variable {ν : Type}

theorem Spares.of_eq {v : Evaluation ν} (same : v.outcome = v.document) (els : List ElementId) :
    v.Spares els := by
  unfold Spares
  rw [same]
  exact .refl _ els _

end Evaluation

namespace Engine
variable {ν : Type}

/-- A pass without a callback over an attached container is a scan. -/
theorem runPass_eq_scan (e : Engine ν) {doc : Document} {container : ElementId}
    (attached : doc.isAttached container) :
    e.runPass doc { container } = e.scan doc container ∧
      e.runPassEvaluations doc { container } = e.scanEvaluations doc container := by
  unfold runPass runPassEvaluations
  simp only [attached, if_true, and_self]

theorem steady_scan (e : Engine ν) (doc : Document) (container : ElementId) :
    Steady e (e.scan doc container).1 := by
  have nothing : Carried e.environment e.actions fun _ _ _ => True := by
    constructor <;> intros <;> trivial
  obtain ⟨-, -, -, steady, -⟩ := scan_keeps container nothing trivial
  exact steady

/-- What stands in a container stands in those inside it. -/
theorem Standing.within {e : Engine ν} {doc : Document} {outer inner : ElementId}
    {reported : List DependencyError} (h : e.Standing doc outer reported) (rooted : doc.Rooted)
    (within : doc.isWithin inner outer) : e.Standing doc inner reported := by
  have fewer : ∀ name, doc.carriers inner name ⊆ doc.carriers outer name := by
    intro name el mem
    obtain ⟨below, carries⟩ := List.mem_filter.mp mem
    exact List.mem_filter.mpr ⟨rooted.descendants_subset within below, carries⟩
  exact
  { h with
    borne := fun el mem => h.borne el (fewer _ mem)
    answered := fun el mem => h.answered el (fewer _ mem) }

/-- After a pass whose actions spare the tree and the declarations in the container, and leave the
document as it was, a second pass over the container, or over one inside it, leaves everything as it
is and evaluates nothing. The errors that it reports are flaws of elements in its container which
the first pass has reported. -/
theorem pass_repeated {e e₁ e₂ : Engine ν} {doc doc₂ : Document} {outer inner : ElementId}
    (reachable : e.Reachable doc) (rooted : doc.Rooted) (attached : doc.isAttached outer)
    (within : doc.isWithin inner outer)
    (spares : ∀ v ∈ e.runPassEvaluations doc { container := outer },
      v.Spares (doc.carriers outer e.config.queryAttribute))
    (first : e.runPass doc { container := outer } = (e₁, doc))
    (second : e₁.runPass doc { container := inner } = (e₂, doc₂)) :
    doc₂ = doc ∧ Steady e₁ e₂ ∧ Bindings.Notes e₁.bindings e₂.bindings ∧
      e₁.runPassEvaluations doc { container := inner } = [] ∧
      ∃ reported again, e₁.errors = e.errors ++ reported ∧ e₂.errors = e₁.errors ++ again ∧
        ∀ error ∈ again, error ∈ reported ∧
          ∃ el ∈ doc.carriers inner e.config.queryAttribute,
            doc.flaw? e.actions e.config el = some error := by
  have inside : doc.isAttached inner :=
    rooted.isAttached_of_mem_descendants attached (rooted.mem_descendants_of_isWithin within)
  have steady := e.steady_scan doc outer
  obtain ⟨scanned, evaluations⟩ := e.runPass_eq_scan attached
  obtain ⟨scanned', evaluations'⟩ := e₁.runPass_eq_scan inside
  rw [evaluations] at spares
  rw [scanned] at first
  rw [scanned'] at second
  obtain ⟨reported, errors, standing⟩ := (settled_of_reachable reachable).standing_scan
    (allotted_of_reachable reachable) rooted attached spares
  rw [first] at errors standing steady
  obtain ⟨none, same, repeats⟩ := (standing.within rooted within).repeats
  rw [second] at same repeats
  obtain ⟨again, more, known⟩ := repeats.errors
  rw [steady.actions, steady.config] at known
  rw [evaluations']
  exact ⟨same, repeats.steady, repeats.bindings, none, reported, again, errors, more, known⟩

/-- Two items in a fieldset, with a note of their number, next to a query with an unknown action. A
note outside the fieldset shows the first item. -/
def itemsNoted : List (Move Nat) :=
  [.registerAction "note" fun _ _ doc => (doc, [doc.size]),
    .edit (·.editAll [.create "fieldset", .append .root ⟨1⟩, .create "input", .append ⟨1⟩ ⟨2⟩,
      .create "input", .append ⟨1⟩ ⟨3⟩, .create "div", .append ⟨1⟩ ⟨4⟩,
      .create "div", .append ⟨1⟩ ⟨5⟩, .create "div", .append .root ⟨6⟩,
      .setAttribute ⟨2⟩ Config.standard.referenceAttribute "items",
      .setAttribute ⟨2⟩ "value" "1",
      .setAttribute ⟨3⟩ Config.standard.referenceAttribute "items",
      .setAttribute ⟨3⟩ "value" "2",
      .setAttribute ⟨4⟩ Config.standard.queryAttribute "@@items",
      .setAttribute ⟨4⟩ Config.standard.actionAttribute "note",
      .setAttribute ⟨5⟩ Config.standard.queryAttribute "@items",
      .setAttribute ⟨5⟩ Config.standard.actionAttribute "ring",
      .setAttribute ⟨6⟩ Config.standard.queryAttribute "@items",
      .setAttribute ⟨6⟩ Config.standard.actionAttribute "note"])]

/-- A pass over the root and then one over the fieldset. -/
theorem pass_repeated_itemsNoted :
    ∃ (e e₁ e₂ : Engine Nat) (doc : Document), e.Reachable doc ∧ doc.Rooted ∧
      doc.isAttached .root ∧ doc.isWithin ⟨1⟩ .root ∧
      (e.runPassEvaluations doc { container := .root }).map (·.observer.element) = [⟨4⟩, ⟨6⟩] ∧
      (∀ v ∈ e.runPassEvaluations doc { container := .root },
        v.Spares (doc.carriers .root e.config.queryAttribute)) ∧
      e.runPass doc { container := .root } = (e₁, doc) ∧
      e₁.runPass doc { container := ⟨1⟩ } = (e₂, doc) ∧
      e₁.bindings.groups.map (·.members) = [[⟨2⟩, ⟨3⟩]] ∧
      (e₁.errors.length, e₂.errors.length) = (1, 2) ∧
      Bindings.Notes e₁.bindings e₂.bindings := by
  let evaluator : Evaluator := .script (.group "items")
  let run := runNew? .standard evaluator .new itemsNoted
  obtain ⟨⟨e, doc⟩, ran⟩ := Option.isSome_iff_exists.mp (show run.isSome by decide +kernel)
  have checked : (run.any fun r =>
      let evaluations := r.1.runPassEvaluations r.2 { container := .root }
      let first := r.1.runPass r.2 { container := .root }
      let second := first.1.runPass r.2 { container := ⟨1⟩ }
      r.2.Rooted && r.2.isAttached .root && r.2.isWithin ⟨1⟩ .root &&
        evaluations.map (·.observer.element) == [⟨4⟩, ⟨6⟩] &&
        evaluations.all (fun v => v.outcome = v.document) && first.2 = r.2 &&
        first.1.bindings.groups.map (·.members) == [[⟨2⟩, ⟨3⟩]] &&
        (first.1.errors.length, second.1.errors.length) == (1, 2)) = true := by
    decide +kernel
  obtain ⟨e₁, doc₁, first⟩ : ∃ e₁ doc₁, e.runPass doc { container := .root } = (e₁, doc₁) :=
    ⟨_, _, rfl⟩
  obtain ⟨e₂, doc₂, second⟩ : ∃ e₂ doc₂, e₁.runPass doc { container := ⟨1⟩ } = (e₂, doc₂) :=
    ⟨_, _, rfl⟩
  simp only [ran, first, second, Option.any_some, Bool.and_eq_true, decide_eq_true_eq, beq_iff_eq,
    List.all_eq_true] at checked
  obtain ⟨⟨⟨⟨⟨⟨⟨rooted, attached⟩, within⟩, evaluated⟩, kept⟩, rfl⟩, groups⟩, errors⟩ := checked
  have reachable : e.Reachable doc₁ := ⟨.standard, evaluator, .new, itemsNoted, ran⟩
  have spares : ∀ v ∈ e.runPassEvaluations doc₁ { container := .root },
      v.Spares (doc₁.carriers .root e.config.queryAttribute) :=
    fun v mem => .of_eq (kept v mem) _
  obtain ⟨rfl, -, notes, -⟩ :=
    pass_repeated reachable rooted attached within spares first second
  exact ⟨e, e₁, e₂, _, reachable, rooted, attached, within, evaluated, spares, first, second,
    groups, errors, notes⟩

/-- Four elements with queries. The action of the first sets a parameter of the action of the second
and takes the third one out, and that of the last puts both back. -/
def restored : List (Move Unit) :=
  [.registerAction "mark" fun _ _ doc =>
      (doc.editAll [.setAttribute ⟨2⟩ "data-dependson-note-x" "7", .remove ⟨3⟩], []),
    .registerAction "note" fun _ _ doc => (doc, [()]),
    .registerAction "restore" fun _ _ doc =>
      (doc.editAll [.removeAttribute ⟨2⟩ "data-dependson-note-x",
        .insertBefore .root ⟨3⟩ ⟨4⟩], []),
    .edit (·.editAll [.create "input", .append .root ⟨1⟩, .create "input", .append .root ⟨2⟩,
      .create "input", .append .root ⟨3⟩, .create "input", .append .root ⟨4⟩,
      .setAttribute ⟨1⟩ Config.standard.queryAttribute "@total",
      .setAttribute ⟨1⟩ Config.standard.actionAttribute "mark",
      .setAttribute ⟨2⟩ Config.standard.queryAttribute "@total",
      .setAttribute ⟨2⟩ Config.standard.actionAttribute "note",
      .setAttribute ⟨3⟩ Config.standard.queryAttribute "@total",
      .setAttribute ⟨3⟩ Config.standard.actionAttribute "note",
      .setAttribute ⟨4⟩ Config.standard.queryAttribute "@total",
      .setAttribute ⟨4⟩ Config.standard.actionAttribute "restore"])]

/-- The first pass leaves the document as it was, but the second one creates observers on the second
element, whose declaration has changed since its turn, and on the third, which was detached then. -/
theorem pass_not_repeated_restored :
    ∃ (e e₁ e₂ : Engine Unit) (doc : Document), e.Reachable doc ∧ doc.Rooted ∧
      doc.isAttached .root ∧ e.runPass doc { container := .root } = (e₁, doc) ∧
      e₁.runPass doc { container := .root } = (e₂, doc) ∧ e₁.errors = e.errors ∧
      e₁.bindings.observers.map (fun o => (o.id, o.element)) =
        [(⟨0⟩, ⟨1⟩), (⟨1⟩, ⟨2⟩), (⟨3⟩, ⟨4⟩)] ∧
      e₂.bindings.observers.map (fun o => (o.id, o.element)) =
        [(⟨0⟩, ⟨1⟩), (⟨3⟩, ⟨4⟩), (⟨4⟩, ⟨2⟩), (⟨5⟩, ⟨3⟩)] ∧
      (e₁.runPassEvaluations doc { container := .root }).map (·.observer.element) =
        [⟨2⟩, ⟨3⟩] := by
  let evaluator : Evaluator := .script .any
  let run := runNew? .standard evaluator .new restored
  obtain ⟨⟨e, doc⟩, ran⟩ := Option.isSome_iff_exists.mp (show run.isSome by decide +kernel)
  have checked : (run.any fun r =>
      let first := r.1.runPass r.2 { container := .root }
      let second := first.1.runPass r.2 { container := .root }
      let found (e : Engine Unit) := e.bindings.observers.map fun o => (o.id, o.element)
      r.2.Rooted && r.2.isAttached .root && first.2 = r.2 && second.2 = r.2 &&
        first.1.errors == r.1.errors &&
        found first.1 == [(⟨0⟩, ⟨1⟩), (⟨1⟩, ⟨2⟩), (⟨3⟩, ⟨4⟩)] &&
        found second.1 == [(⟨0⟩, ⟨1⟩), (⟨3⟩, ⟨4⟩), (⟨4⟩, ⟨2⟩), (⟨5⟩, ⟨3⟩)] &&
        (first.1.runPassEvaluations r.2 { container := .root }).map (·.observer.element) ==
          [⟨2⟩, ⟨3⟩]) = true := by
    decide +kernel
  obtain ⟨e₁, doc₁, first⟩ : ∃ e₁ doc₁, e.runPass doc { container := .root } = (e₁, doc₁) :=
    ⟨_, _, rfl⟩
  obtain ⟨e₂, doc₂, second⟩ : ∃ e₂ doc₂, e₁.runPass doc { container := .root } = (e₂, doc₂) :=
    ⟨_, _, rfl⟩
  simp only [ran, first, second, Option.any_some, Bool.and_eq_true, decide_eq_true_eq,
    beq_iff_eq] at checked
  obtain ⟨⟨⟨⟨⟨⟨⟨rooted, attached⟩, rfl⟩, rfl⟩, errors⟩, found⟩, found'⟩, evaluated⟩ := checked
  have reachable : e.Reachable doc₂ := ⟨.standard, evaluator, .new, restored, ran⟩
  exact ⟨e, e₁, e₂, doc₂, reachable, rooted, attached, first, second, errors, found, found',
    evaluated⟩

end Engine

end FormDependencies
