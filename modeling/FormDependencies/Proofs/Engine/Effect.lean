import FormDependencies.Proofs.Binding.Effect
import FormDependencies.Proofs.Engine.Currency

/-!
Events and passes change a document as the actions and accessors that the engine calls do, and in no
other way.
-/

namespace FormDependencies.Engine
variable {ν : Type} {R : Document → Document → Prop} {suits : Config → Prop}
  {writable : String → Prop}

open Bindings (Announces Attempted)

/-- All that an engine calls, but for what the host does at the end of passes, changes documents as
the relation says. -/
structure Keeps (R : Document → Document → Prop) (suits : Config → Prop) (e : Engine ν) : Prop where
  suited : suits e.config
  accessors : e.accessors.Keeps R
  actions : e.actions.Keeps R suits
  observers : e.bindings.Keeps R suits

theorem carried_keeps (permits : Permits R suits writable) {env : Environment}
    {actions : ActionTable ν} (given : env.Keeps R suits) (known : actions.Keeps R suits)
    (doc : Document) :
    Carried env actions fun b doc' owed => Settling b owed ∧ b.Keeps R suits ∧ R doc doc' := by
  refine carried_settling_and (Q := fun b doc' => b.Keeps R suits ∧ R doc doc') ?_ ?_ ?_ ?_
  · rintro b c doc' notes ⟨keeps, related⟩
    exact ⟨keeps.announce (.notes notes), related⟩
  · rintro b doc' el ⟨keeps, related⟩
    have destroys := b.destroys_destroyElement el
    exact ⟨Bindings.keeps_of_subset keeps fun o mem => (destroys.mem_observers.mp mem).1, related⟩
  · rintro b doc' el signature replaced added - found ⟨keeps, related⟩
    refine ⟨fun o mem => ?_, related⟩
    rcases List.mem_append.mp mem with mem | mem
    · exact keeps o mem
    · obtain ⟨name, named⟩ := found o mem
      exact known.get named
  · rintro b doc₁ id c doc₂ wellFormed attempted ⟨keeps, related⟩
    exact ⟨attempted.keeps keeps wellFormed,
      permits.trans related (attempted.document permits given keeps)⟩

section
variable {e e' : Engine ν} {doc doc' : Document}

theorem Keeps.environment (h : e.Keeps R suits) : e.environment.Keeps R suits :=
  ⟨h.accessors, h.suited⟩

theorem Keeps.next (h : e.Keeps R suits) (setup : SameSetup e e')
    (observers : e'.bindings.Keeps R suits) : e'.Keeps R suits :=
  ⟨setup.config ▸ h.suited, setup.accessors ▸ h.accessors, setup.actions ▸ h.actions, observers⟩

theorem Keeps.announce (h : e.Keeps R suits) {b : Bindings ν} (announces : Announces e.bindings b) :
    b.Keeps R suits :=
  h.observers.announce announces

theorem keeps_flush (permits : Permits R suits writable) {b : Bindings ν} {env : Environment}
    (wellFormed : b.WellFormed) (keeps : b.Keeps R suits) (given : env.Keeps R suits)
    (flushes : Flushes env b doc e' doc') : e'.bindings.Keeps R suits ∧ R doc doc' := by
  have last : (b.flush doc env).1.Keeps R suits ∧ R doc (b.flush doc env).2.1 := by
    refine Bindings.flush_keeps (Q := fun c doc' => c.Keeps R suits ∧ R doc doc') ?_ wellFormed
      ⟨keeps, permits.refl doc⟩
    rintro c doc₁ id d doc₂ wellFormed attempted ⟨keeps, related⟩
    exact ⟨attempted.keeps keeps wellFormed,
      permits.trans related (attempted.document permits given keeps)⟩
  have same := Announces.notes flushes.bindings
  rw [flushes.document]
  exact ⟨last.1.announce same, last.2⟩

theorem Keeps.dispatch (permits : Permits R suits writable) (h : e.Keeps R suits)
    (settled : e.Settled) (doc : Document) (event : Event) :
    (e.dispatch doc event).1.Keeps R suits ∧ R doc (e.dispatch doc event).2 := by
  rcases e.dispatch_shape doc event with ⟨notes, same⟩ | ⟨setup, b, announces, flushes⟩
  · rw [same]
    exact ⟨h.next notes.setup (h.announce (.notes notes.bindings)), permits.refl doc⟩
  · have settling := settled.settling.announce announces
    obtain ⟨keeps, related⟩ := keeps_flush permits settling.wellFormed (h.announce announces)
      h.environment flushes
    exact ⟨h.next setup keeps, related⟩

theorem Keeps.scan (permits : Permits R suits writable) (h : e.Keeps R suits) (settled : e.Settled)
    (doc : Document) (container : ElementId) :
    Steady e (e.scan doc container).1 ∧ (e.scan doc container).1.Keeps R suits ∧
      R doc (e.scan doc container).2 := by
  have announces := (e.announces_announced doc container).2
  obtain ⟨b, doc₁, ⟨settling, keeps, related⟩, steady, flushes⟩ := scan_keeps container
    (carried_keeps permits h.environment h.actions doc)
    ⟨settled.settling.announce announces, h.announce announces, permits.refl doc⟩
  obtain ⟨keeps, later⟩ := keeps_flush permits settling.wellFormed keeps h.environment flushes
  exact ⟨steady, h.next steady.toSameSetup keeps, permits.trans related later⟩

theorem Keeps.runPass (permits : Permits R suits writable) (h : e.Keeps R suits)
    (settled : e.Settled) (doc : Document) {pass : Pass ν}
    (own : ∀ callback, pass.callback = some callback → ∀ doc, R doc (callback doc).1) :
    Steady e (e.runPass doc pass).1 ∧ (e.runPass doc pass).1.Keeps R suits ∧
      R doc (e.runPass doc pass).2 := by
  obtain ⟨e₁, doc₁, before, steady', after, callback⟩ := e.runPass_shape doc pass
  have scanned : Steady e e₁ ∧ e₁.Keeps R suits ∧ R doc doc₁ := by
    rcases before with same | ⟨steady, notes, rfl⟩
    · have scanned := h.scan permits settled doc pass.container
      rwa [← same] at scanned
    · exact ⟨steady, h.next steady.toSameSetup (h.announce (.notes notes)), permits.refl doc₁⟩
  obtain ⟨steady, keeps, related⟩ := scanned
  refine ⟨steady.trans steady', keeps.next steady'.toSameSetup (keeps.announce (.notes after)), ?_⟩
  rcases callback with ⟨-, same⟩ | ⟨callback, given, same⟩
  · exact same ▸ related
  · exact same ▸ permits.trans related (own callback given doc₁)

end

end FormDependencies.Engine
