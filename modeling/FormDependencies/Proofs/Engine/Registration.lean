import FormDependencies.Proofs.Binding.Naming
import FormDependencies.Proofs.Document.Forest
import FormDependencies.Proofs.Engine.Currency

/-!
What a pass leaves of references. It registers those that elements of its container declare and
reclaims those of detached elements. Any other reference stays, whether its element still declares
it or not.
-/

namespace FormDependencies.Engine
variable {ν : Type}

open Bindings (Announces Attempted)

/-- Registration gives every element the reference that it declares. -/
theorem naming?_registerEach (doc : Document) (els : List ElementId) (e : Engine ν)
    (el : ElementId) :
    (e.registerEach doc els).1.bindings.naming? el =
      if el ∈ els ∧ ReferenceName.isValid (doc.referenceName el e.config) then
        some ⟨el, doc.referenceName el e.config, doc.referenceType el e.config⟩
      else e.bindings.naming? el := by
  induction els generalizing e with
  | nil => rw [if_neg fun both => List.not_mem_nil both.1, registerEach]
  | cons first rest ih =>
    have registered := e.bindings.naming?_register doc e.accessors e.config first el
    rw [registerEach]
    generalize e.bindings.register doc e.accessors e.config first = r at registered
    apply (ih { e with bindings := r.1 }).trans
    dsimp only
    rw [registered]
    by_cases valid : ReferenceName.isValid (doc.referenceName el e.config)
    · by_cases later : el ∈ rest
      · rw [if_pos ⟨later, valid⟩, if_pos ⟨List.mem_cons_of_mem _ later, valid⟩]
      · rw [if_neg fun both => later both.1]
        by_cases own : first = el
        · subst own
          rw [if_pos ⟨rfl, valid⟩, if_pos ⟨List.mem_cons_self, valid⟩]
        · rw [if_neg fun both => own both.1, if_neg]
          exact fun both => later ((List.mem_cons.mp both.1).resolve_left (Ne.symm own))
    · have other : ¬(first = el ∧ ReferenceName.isValid (doc.referenceName first e.config)) := by
        rintro ⟨rfl, own⟩
        exact valid own
      simp [valid, other]

/-- To empty the queue leaves references alone. -/
theorem references_flush {b : Bindings ν} (h : b.WellFormed) (doc : Document) (env : Environment) :
    (b.flush doc env).1.references = b.references := by
  let Q := fun (c : Bindings ν) (_ : Document) => c.references = b.references
  have last : Q (b.flush doc env).1 (b.flush doc env).2.1 := by
    refine Bindings.flush_keeps ?_ h (show Q { b with pending := [] } doc from rfl)
    rintro c doc₁ id d doc₂ wellFormed attempted same
    exact (attempted.references wellFormed).trans same
  exact last

/-- After what it begins with, a pass leaves references alone. -/
theorem Settled.references_scan {e : Engine ν} (settled : e.Settled) (doc : Document)
    (container : ElementId) :
    (e.scan doc container).1.bindings.references =
      (e.announced doc container).bindings.references := by
  have announces := (e.announces_announced doc container).2
  let Q := fun (b : Bindings ν) (_ : Document) =>
    b.references = (e.announced doc container).bindings.references
  have carried : Carried e.environment e.actions fun b doc owed => Settling b owed ∧ Q b doc := by
    refine carried_settling_and ?_ ?_ ?_ ?_
    · rintro b c doc notes same
      exact (Bindings.Notes.references notes).trans same
    · rintro b doc el same
      exact (b.destroys_destroyElement el).references.trans same
    · rintro b doc el signature replaced added - - same
      exact same
    · rintro b doc id c doc' wellFormed attempted same
      exact (attempted.references wellFormed).trans same
  obtain ⟨b, doc₁, ⟨settling, same⟩, -, flushes⟩ := scan_keeps container carried
    ⟨settled.settling.announce announces, rfl⟩
  exact (Bindings.Notes.references flushes.bindings).trans
    ((references_flush settling.wellFormed doc₁ e.environment).trans same)

/-- After a pass over the root an attached element has the reference that it declares, or else the
one that it had; the others have none. -/
theorem Settled.naming?_scan {e : Engine ν} (settled : e.Settled) {doc : Document}
    (formed : doc.WellFormed) (el : ElementId) :
    (e.scan doc .root).1.bindings.naming? el =
      if doc.isAttached el then (doc.naming? e.config el).or (e.bindings.naming? el) else none := by
  have reclaimed := e.bindings.naming?_actualizeReferences doc el
  let start := { e with bindings := (e.bindings.actualizeReferences doc).1 }
  let els := doc.carriers .root e.config.referenceAttribute
  have registered := naming?_registerEach doc els start el
  have grouped := (start.registerEach doc els).1.bindings.references_actualizeGroups doc
  have visits : el ∈ els ↔ doc.isAttached el ∧ doc.hasAttribute el e.config.referenceAttribute :=
    List.mem_filter.trans (and_congr_left' (formed.isAttached_iff el).symm)
  have same : (e.scan doc .root).1.bindings.naming? el =
      (start.registerEach doc els).1.bindings.naming? el :=
    Bindings.naming?_congr ((settled.references_scan doc .root).trans grouped) el
  have before : start.bindings.naming? el =
      if doc.isAttached el then e.bindings.naming? el else none := reclaimed
  rw [same, registered, before]
  simp only [visits, show start.config = e.config from rfl]
  unfold Document.naming?
  by_cases attached : doc.isAttached el
  · by_cases carries : doc.hasAttribute el e.config.referenceAttribute
    · by_cases valid : ReferenceName.isValid (doc.referenceName el e.config) <;>
        simp [attached, carries, valid]
    · simp [attached, carries]
  · simp [attached]

end FormDependencies.Engine
