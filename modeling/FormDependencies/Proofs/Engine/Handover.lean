import FormDependencies.Proofs.Engine.Evaluations

/-!
What is handed to the evaluator along a run. Values of simple references come from attached elements
within the scope, whatever has been detached or moved in the meantime. Those of a group that is kept
come from the members that it was last computed with, attached or not.
-/

namespace FormDependencies.Engine
variable {ν : Type}

/-- The journal of a run tells of its evaluations in order. What each of them hands to the evaluator
is, token by token, what the elements supply. A simple reference is supplied by an attached element
within the scope. All that supply a group are attached and within the scope if and only if the
members are that it was last computed with, when there is such a group. -/
theorem handed_from_attached_iff (config : Config) (evaluator : Evaluator) (given : Document)
    (moves : List (Move ν)) :
    (∀ e doc, runNew? config evaluator given moves = some (e, doc) → e.bindings.evaluated =
        (runNewEvaluations config evaluator given moves).map (·.observer.id)) ∧
      ∀ v ∈ runNewEvaluations config evaluator given moves, v.document.Rooted →
        let doc := v.document
        let el := v.observer.element
        v.handed = v.observer.query.references.foldl
            (fun handed token => handed.hand token (v.supply token)) .empty ∧
          ∀ token ∈ v.observer.query.references,
            (token.kind = .simple → ∀ source ∈ v.supply token,
              ∃ root, doc.boundOf? el token = some root ∧
                doc.isAttached source.1 ∧ doc.isWithin source.1 root) ∧
            (token.kind = .group → ∀ root, doc.boundOf? el token = some root →
              ((∀ source ∈ v.supply token, doc.isAttached source.1 ∧ doc.isWithin source.1 root) ↔
                ∀ g, v.bindings.group? token.name root = some g →
                  ∀ member ∈ g.members, doc.isAttached member ∧ doc.isWithin member root)) := by
  obtain ⟨sound, told⟩ := proceeds_runNew config evaluator given moves
  refine ⟨fun e doc ran => (told e doc ran).2, fun v mem rooted => ⟨?_, fun token _ => ⟨?_, ?_⟩⟩⟩
  · exact Bindings.values_lookUp (sound v mem).allotted v.document v.environment.accessors
      v.observer
  · intro simple source supplied
    exact Bindings.attached_of_mem_supply rooted simple supplied
  · intro group root bound
    exact Bindings.attached_of_mem_supply_iff (sound v mem).allotted rooted (sound v mem).attached
      group bound

/-- Two items and a switch, on which a field depends that shows the items. After the first pass the
second item is removed, and then the switch is changed. -/
def itemRemoved : List (Move Unit) :=
  [.edit (·.editAll [.create "input", .append .root ⟨1⟩, .create "input", .append .root ⟨2⟩,
      .create "input", .append .root ⟨3⟩, .create "div", .append .root ⟨4⟩,
      .setAttribute ⟨1⟩ Config.standard.referenceAttribute "items",
      .setAttribute ⟨1⟩ "value" "1",
      .setAttribute ⟨2⟩ Config.standard.referenceAttribute "items",
      .setAttribute ⟨2⟩ "value" "2",
      .setAttribute ⟨3⟩ Config.standard.referenceAttribute "switch",
      .setAttribute ⟨4⟩ Config.standard.queryAttribute "@@items + @switch"]),
    .request .root none, .round,
    .edit (·.editAll [.remove ⟨2⟩, .setValue ⟨3⟩ "on", .trigger ⟨3⟩ .change]), .round]

/-- The field is handed a value of the removed item. -/
theorem handed_from_attached_iff_itemRemoved :
    ∃ v ∈ runNewEvaluations .standard (.script (.group "items")) .new itemRemoved,
      v.document.Rooted ∧ ∃ token ∈ v.observer.query.references, token.kind = .group ∧
        (v.supply token).map (·.1) = [⟨1⟩, ⟨2⟩] ∧
        ¬∀ source ∈ v.supply token, v.document.isAttached source.1 ∧
          v.document.isWithin source.1 .root := by
  let evaluator : Evaluator := .script (.group "items")
  let evaluations := runNewEvaluations .standard evaluator .new itemRemoved
  have found : (evaluations.any fun v => v.document.Rooted && !v.document.isAttached ⟨2⟩ &&
      v.observer.query.references.any fun token => token.kind == .group &&
        (v.supply token).map (·.1) == [⟨1⟩, ⟨2⟩] &&
        v.document.boundOf? v.observer.element token == some .root &&
        (v.bindings.group? token.name .root).any (·.members.contains ⟨2⟩)) = true := by
    decide +kernel
  simp only [List.any_eq_true, Bool.and_eq_true, decide_eq_true_eq, Bool.not_eq_true', beq_iff_eq,
    Option.any_eq_true, List.contains_iff_mem] at found
  obtain ⟨v, mem, ⟨rooted, detached⟩, token, listed, ⟨⟨group, supplied⟩, bound⟩, g, kept, member⟩ :=
    found
  have sources := (handed_from_attached_iff .standard evaluator .new itemRemoved).2 v mem rooted
  have iff := (sources.2 token listed).2 group .root bound
  refine ⟨v, mem, rooted, token, listed, group, supplied, fun attached => ?_⟩
  have still := iff.mp attached g kept ⟨2⟩ member
  rw [detached] at still
  exact absurd still.1 Bool.false_ne_true

end FormDependencies.Engine
