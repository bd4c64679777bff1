import FormDependencies.Proofs.Action.Effect

/-!
Quiet changes of a document: those that announce nothing but changed values. What actions and
accessors that make quiet changes only do to a document can go on for as long as there are changed
values to announce. All built-in ones are quiet.
-/

namespace FormDependencies

/-- The events that wait afterwards are some of those that waited before and then new ones, all of
them changes of values. -/
def Document.OnlyChanges (doc doc' : Document) : Prop :=
  ∃ kept added, doc'.outbox = kept ++ added ∧ kept.Sublist doc.outbox ∧
    ∀ event ∈ added, event.kind.isValueChange

namespace Document.OnlyChanges
variable {doc doc' doc'' : Document}

theorem of_eq (h : doc'.outbox = doc.outbox) : OnlyChanges doc doc' :=
  ⟨doc.outbox, [], by rw [h, List.append_nil], List.Sublist.refl _,
    fun _ none => absurd none List.not_mem_nil⟩

theorem refl (doc : Document) : OnlyChanges doc doc := of_eq rfl

theorem trans (first : OnlyChanges doc doc') (second : OnlyChanges doc' doc'') :
    OnlyChanges doc doc'' := by
  obtain ⟨kept, added, outbox, older, quiet⟩ := first
  obtain ⟨kept', added', outbox', older', quiet'⟩ := second
  rw [outbox] at older'
  obtain ⟨rest, still, rfl, restOlder, stillOlder⟩ := List.sublist_append_iff.mp older'
  refine ⟨rest, still ++ added', by rw [outbox', List.append_assoc], restOlder.trans older,
    fun event mem => ?_⟩
  rcases List.mem_append.mp mem with mem | mem
  · exact quiet event (stillOlder.subset mem)
  · exact quiet' event mem

theorem trigger (doc : Document) (el : ElementId) {kind : EventKind} (quiet : kind.isValueChange) :
    OnlyChanges doc (doc.trigger el kind) := by
  unfold Document.trigger
  split
  · exact ⟨doc.outbox, [⟨el, kind⟩], rfl, List.Sublist.refl _,
      fun event mem => List.mem_singleton.mp mem ▸ quiet⟩
  · exact refl doc

theorem permits : Permits OnlyChanges (fun _ => True) fun _ => True where
  refl := refl
  trans := trans
  setAttribute _ _ _ _ _ := of_eq rfl
  removeAttribute _ _ _ _ := of_eq rfl
  setChecked _ _ _ := of_eq rfl
  setValue _ _ _ := of_eq rfl
  trigger doc el _ quiet := trigger doc el quiet
  field _ _ := trivial
  named _ _ := ⟨trivial, trivial⟩

end Document.OnlyChanges

open Document (OnlyChanges)

def AccessorTable.Quiet (table : AccessorTable) : Prop := table.Keeps OnlyChanges

def ActionTable.Quiet {ν : Type} (table : ActionTable ν) : Prop :=
  table.Keeps OnlyChanges fun _ => True

end FormDependencies
