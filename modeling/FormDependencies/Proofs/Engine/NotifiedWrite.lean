import FormDependencies.Proofs.Engine.Change
import FormDependencies.Proofs.Engine.Evaluations
import FormDependencies.Proofs.Widget.Writing

/-!
Writes that announce one change at the element that is written. The references at it and above it
are read again, so that what is written through to elements below it is not noticed there.
-/

namespace FormDependencies.Engine
variable {ν : Type}

open Bindings (Rereads SameReferences SameSources)

/-- When an event has been processed that announces a change, the references at its target and
above it have been read again. -/
theorem dispatch_change {e : Engine ν} {doc : Document} (rooted : doc.Rooted)
    (allotted : e.bindings.Allotted) (target : ElementId) :
    ∃ b names, Rereads e.bindings doc e.accessors (target :: doc.ancestors target) b names ∧
      SameReferences b (e.dispatch doc ⟨target, .change⟩).1.bindings := by
  let e₀ := e.log (.event ⟨target, .change⟩)
  have noted : SameSources e.bindings e₀.bindings := .notes (e.notes_log rfl).bindings
  have logged : e₀.bindings.Allotted := allotted.same noted
  obtain ⟨b, c, names, after, rereads, refreshes, same⟩ :=
    elementChanged_shape rooted logged.separate target
  have separate := rereads.separate logged.separate
  have changed : SameReferences b (e₀.elementChanged doc target).bindings := by
    have refreshed : SameReferences b { c with groups := after } :=
      ⟨refreshes.references, refreshes.reads_references separate.apart⟩
    exact refreshed.trans (.of_sources same)
  have flushed := Bindings.sameReferences_flush (allotted_elementChanged logged doc target) doc
    e₀.environment
  have reported := ((e₀.elementChanged doc target).flushes_flush doc).2.bindings
  have processed : e.dispatch doc ⟨target, .change⟩ = (e₀.elementChanged doc target).flush doc :=
    rfl
  rw [processed]
  exact ⟨b, names, rereads.of_sources noted,
    changed.trans (flushed.trans (.of_sources (.notes reported)))⟩

/-- A notified write announces one change. Once it has been processed all references hold what is
read at their elements, but those that the value was written through to hold what they held. -/
theorem truthful_notifiedWrite {e : Engine ν} {doc : Document} (rooted : doc.Rooted)
    (allotted : e.bindings.Allotted) (accessors : e.accessors = .builtin)
    (truthful : e.bindings.Truthful doc .builtin) {el : ElementId} (there : doc.contains el)
    (value : Value) (rest : List Event) :
    let written := AccessorTable.builtin.set doc el value true
    let after := (e.dispatch { written with outbox := rest } ⟨el, .change⟩).1.bindings
    written.outbox = doc.outbox ++ [⟨el, .change⟩] ∧
      after.references = e.bindings.references ∧
      ∀ r ∈ e.bindings.references,
        if doc.WrittenThrough el r.element then after.read r.slot = e.bindings.read r.slot
        else (after.read r.slot == AccessorTable.builtin.getTyped written r.element r.type) =
          true := by
  intro written after
  have same : written.SameTree { written with outbox := rest } := ⟨rfl, rfl⟩
  have tree := (AccessorTable.sameTree_set doc el value true).trans same
  obtain ⟨b, names, rereads, kept⟩ := dispatch_change (tree.rooted rooted) allotted el
  have kept : SameReferences b after := kept
  -- only that references are kept matters from here on, not how the event is processed
  clear_value after
  rw [tree.ancestors, accessors] at rereads
  refine ⟨AccessorTable.outbox_set there value, kept.references.trans rereads.references,
    fun r mem => ?_⟩
  have held : after.read r.slot = b.read r.slot := kept.reads r (rereads.references ▸ mem)
  rw [held]
  split
  · next through =>
    exact rereads.read_other allotted.separate mem (rooted.not_mem_path through.1)
  · next spared =>
    by_cases path : r.element ∈ el :: doc.ancestors el
    · rw [← AccessorTable.getTyped_of_element? same fun _ _ => rfl]
      exact rereads.fresh r mem path
    · rw [rereads.read_other allotted.separate mem path,
        AccessorTable.getTyped_set rooted path spared]
      exact truthful r mem

/-- To choose the second button through the group is noticed at the group, and not at the button. -/
theorem truthful_notifiedWrite_choiceWritten :
    let written := AccessorTable.builtin.set Bindings.choiceForm ⟨2⟩ (.text "b") true
    let after := (choiceEngine.dispatch { written with outbox := [] } ⟨⟨2⟩, .change⟩).1.bindings
    Bindings.choiceForm.Rooted ∧ choiceEngine.bindings.Allotted ∧
      choiceEngine.bindings.Truthful Bindings.choiceForm .builtin ∧
      Bindings.choiceForm.contains ⟨2⟩ ∧ ∀ r ∈ choiceEngine.bindings.references,
        if Bindings.choiceForm.WrittenThrough ⟨2⟩ r.element then
          after.read r.slot = choiceEngine.bindings.read r.slot
        else (after.read r.slot == AccessorTable.builtin.getTyped written r.element r.type) =
          true := by
  have rooted : Bindings.choiceForm.Rooted := by decide +kernel
  have truthful : choiceEngine.bindings.Truthful Bindings.choiceForm .builtin := by
    unfold Bindings.Truthful
    decide +kernel
  have there : Bindings.choiceForm.contains ⟨2⟩ := by decide +kernel
  have holds := truthful_notifiedWrite rooted allotted_choiceEngine rfl truthful there
    (.text "b") []
  exact ⟨rooted, allotted_choiceEngine, truthful, there, holds.2.2⟩

/-- The reference of the button still says that it is not checked. -/
theorem not_truthful_choiceWritten :
    let written := AccessorTable.builtin.set Bindings.choiceForm ⟨2⟩ (.text "b") true
    let after := choiceEngine.dispatch { written with outbox := [] } ⟨⟨2⟩, .change⟩
    Bindings.choiceForm.contains ⟨2⟩ ∧
      choiceEngine.bindings.Truthful Bindings.choiceForm .builtin ∧
      written.outbox = Bindings.choiceForm.outbox ++ [⟨⟨2⟩, .change⟩] ∧
      ¬after.1.bindings.Truthful after.2 .builtin := by
  unfold Bindings.Truthful
  decide +kernel

end FormDependencies.Engine
