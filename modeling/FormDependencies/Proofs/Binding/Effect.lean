import FormDependencies.Proofs.Action.Effect
import FormDependencies.Proofs.Binding.Settlement

/-!
Evaluations change a document as the actions of the observers do, and in no other way.
-/

namespace FormDependencies

structure Environment.Keeps (R : Document → Document → Prop) (suits : Config → Prop)
    (env : Environment) : Prop where
  accessors : env.accessors.Keeps R
  suited : suits env.config

namespace Bindings
variable {ν : Type} {R : Document → Document → Prop} {suits : Config → Prop}
  {writable : String → Prop}

def Keeps (R : Document → Document → Prop) (suits : Config → Prop) (b : Bindings ν) : Prop :=
  ∀ o ∈ b.observers, o.action.Keeps R suits

theorem keeps_of_subset {b c : Bindings ν} (h : b.Keeps R suits)
    (subset : ∀ o ∈ c.observers, o ∈ b.observers) : c.Keeps R suits :=
  fun o mem => h o (subset o mem)

theorem Keeps.announce {b c : Bindings ν} (h : b.Keeps R suits) (announces : Announces b c) :
    c.Keeps R suits :=
  keeps_of_subset h fun _ mem => announces.observers ▸ mem

/-- New observers have actions of the table that they are prepared with. -/
theorem Keeps.init {b : Bindings ν} (h : b.Keeps R suits) {actions : ActionTable ν}
    (known : actions.Keeps R suits) (doc : Document) (el : ElementId) (config : Config) :
    (b.init doc el actions config).1.Keeps R suits := by
  have destroys := b.destroys_destroyElement el
  have fewer : (b.destroyElement el).1.Keeps R suits :=
    keeps_of_subset h fun o mem => (destroys.mem_observers.mp mem).1
  rcases b.init_cases doc el actions config with
    ⟨-, same⟩ | ⟨-, ⟨error, same, -⟩ | ⟨target, prepared, -, all, same⟩⟩
  · rw [same]
    exact h
  · rw [same]
    exact fewer
  · rw [same]
    intro o mem
    rcases List.mem_append.mp mem with mem | mem
    · exact fewer o mem
    · obtain ⟨p, listed, made⟩ := eq_observerOf_of_mem doc el config target mem
      have action : o.action = p.2.2 := congrArg (·.action) made
      exact action ▸ known.get ((prepareEach_ok all).2 p listed).2

theorem document_evaluateObserver (permits : Permits R suits writable) (b : Bindings ν)
    (doc : Document) {env : Environment} (given : env.Keeps R suits) {o : Observer ν}
    (action : o.action.Keeps R suits) : R doc (b.evaluateObserver doc env o).2.1 := by
  unfold evaluateObserver
  dsimp only
  cases env.evaluator o.query.text (b.rebind doc env.accessors o).2 with
  | error reason => exact permits.refl doc
  | ok value =>
    dsimp only
    split
    · exact permits.refl doc
    · exact action _ _ doc given.accessors given.suited

section
variable {b c : Bindings ν} {doc doc' : Document} {env : Environment} {id : ObserverId}

theorem Attempted.keeps (keeps : b.Keeps R suits) (h : b.WellFormed)
    (attempted : Attempted b doc env id c doc') : c.Keeps R suits := by
  cases attempted with
  | refused => exact keeps
  | missing => exact keeps
  | detached _ o =>
    have destroys := (b.countTurn id).destroys_destroyElement o.element
    exact keeps_of_subset keeps fun p mem => (destroys.mem_observers.mp mem).1
  | evaluated _ o found =>
    intro p there
    obtain ⟨q, before, same, -⟩ := (h.evaluates doc env found).before there
    have action : p.action = q.action := congrArg (·.action) same
    exact action ▸ keeps q before

theorem Attempted.document (permits : Permits R suits writable) (given : env.Keeps R suits)
    (keeps : b.Keeps R suits) (attempted : Attempted b doc env id c doc') : R doc doc' := by
  cases attempted with
  | refused => exact permits.refl doc
  | missing => exact permits.refl doc
  | detached => exact permits.refl doc
  | evaluated _ o found =>
    exact document_evaluateObserver permits _ doc given (keeps o (mem_of_observer? found).1)

end

end Bindings

end FormDependencies
