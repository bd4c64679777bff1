import FormDependencies.Proofs.Binding.Turn
import FormDependencies.Proofs.Engine.Currency

/-!
The limit of a turn holds for every observer until the next turn begins, whatever the host does
meanwhile. Passes may destroy observers and create others, but a name is never given to a second
observer.
-/

namespace FormDependencies.Engine
variable {ν : Type}

open Bindings (Announces Attempted Within within_flush)

structure InTurn (start : ObserverId → Nat) (limit : Nat) (e : Engine ν) : Prop where
  settled : e.Settled
  config : e.config.cascadeLimit.toNat = limit
  within : Within start limit e.bindings

theorem Settled.inTurn {e : Engine ν} (h : e.Settled) (doc : Document) :
    InTurn e.bindings.completions e.config.cascadeLimit.toNat (e.beginTurn doc) := by
  have started : Within e.bindings.completions e.config.cascadeLimit.toNat e.bindings.beginTurn :=
    Bindings.within_beginTurn e.bindings e.config.cascadeLimit.toNat
  have notes := notes_dropDetached { e with bindings := e.bindings.beginTurn } doc
  exact ⟨h.beginTurn doc, rfl, started.announce (.notes notes.bindings)⟩

theorem carried_within (start : ObserverId → Nat) (env : Environment) (actions : ActionTable ν) :
    Carried env actions fun b _ owed =>
      Settling b owed ∧ Within start env.config.cascadeLimit.toNat b :=
  carried_settling_and (Q := fun b _ => Within start env.config.cascadeLimit.toNat b)
    (fun _ _ _ notes within => within.announce (.notes notes))
    (fun b _ el within => within.destroy (b.destroys_destroyElement el))
    (fun _ _ el signature replaced _ numbers _ within =>
      within.addObservers numbers el signature replaced)
    (fun _ _ _ _ _ wellFormed attempted within => within.attempt wellFormed attempted)

section
variable {start : ObserverId → Nat} {limit : Nat} {e e' : Engine ν} {doc doc' : Document}

theorem InTurn.notes (h : InTurn start limit e) (notes : Bindings.Notes e.bindings e'.bindings)
    (config : e'.config = e.config) : InTurn start limit e' :=
  ⟨h.settled.notes notes, config ▸ h.config, h.within.announce (.notes notes)⟩

/-- The queue of bindings that keep within the limit is emptied. -/
theorem InTurn.flush {b : Bindings ν} {env : Environment} (settling : Settling b [])
    (within : Within start env.config.cascadeLimit.toNat b) (config : e'.config = env.config)
    (flushes : Flushes env b doc e' doc') :
    InTurn start env.config.cascadeLimit.toNat e' :=
  ⟨settling.flush flushes, by rw [config],
    (within_flush settling.wellFormed within doc).announce (.notes flushes.bindings)⟩

theorem InTurn.dispatch (h : InTurn start limit e) (doc : Document) (event : Event) :
    InTurn start limit (e.dispatch doc event).1 := by
  obtain ⟨settled, rfl, within⟩ := h
  rcases e.dispatch_shape doc event with ⟨notes, -⟩ | ⟨setup, b, announces, flushes⟩
  · exact InTurn.notes ⟨settled, rfl, within⟩ notes.bindings notes.setup.config
  · exact InTurn.flush (settled.settling.announce announces) (within.announce announces)
      setup.config flushes

theorem InTurn.scan (h : InTurn start limit e) (doc : Document) (container : ElementId) :
    InTurn start limit (e.scan doc container).1 := by
  obtain ⟨settled, rfl, within⟩ := h
  have announces := (e.announces_announced doc container).2
  obtain ⟨b, doc₁, ⟨settling, within⟩, steady, flushes⟩ := scan_keeps container
    (carried_within start e.environment e.actions)
    ⟨settled.settling.announce announces, within.announce announces⟩
  exact InTurn.flush settling within steady.config flushes

theorem InTurn.runPass (h : InTurn start limit e) (doc : Document) (pass : Pass ν) :
    InTurn start limit (e.runPass doc pass).1 := by
  obtain ⟨e₁, doc₁, scanned | ⟨steady, notes, -⟩, steady', after, -⟩ := e.runPass_shape doc pass
  · have inTurn := h.scan doc pass.container
    rw [← scanned] at inTurn
    exact inTurn.notes after steady'.config
  · exact (h.notes notes steady.config).notes after steady'.config

theorem InTurn.step (h : InTurn start limit e) (next : e.step? doc = some (e', doc')) :
    InTurn start limit e' := by
  rcases step?_eq_some next with ⟨event, rest, -, same⟩ | ⟨-, pass, rest, -, same⟩
  · have inTurn := h.dispatch { doc with outbox := rest } event
    rwa [← same] at inTurn
  · have started : InTurn start limit { e with ready := rest } :=
      h.notes (.refl e.bindings) rfl
    have inTurn := started.runPass doc pass
    rwa [← same] at inTurn

theorem InTurn.perform {move : Move ν} (h : InTurn start limit e)
    (same : move.beginsTurn = false) (performed : move.perform? e doc = some (e', doc')) :
    InTurn start limit e' := by
  rcases perform?_shape performed with ⟨notes, config⟩ | ⟨event, -, dispatched⟩ |
    ⟨fuel, count, rfl, -⟩ | ⟨rfl, -, -⟩ | ⟨-, next⟩
  · exact h.notes notes config
  · have inTurn := h.dispatch doc event
    rwa [dispatched] at inTurn
  · cases same
  · cases same
  · exact h.step next

theorem InTurn.run {moves : List (Move ν)} (h : InTurn start limit e)
    (same : ∀ move ∈ moves, move.beginsTurn = false) (ran : e.run? doc moves = some (e', doc')) :
    InTurn start limit e' :=
  run?_keeps (P := fun e _ => InTurn start limit e) moves
    (fun move mem _ _ _ _ performed h => h.perform (same move mem) performed) ran h

/-- A whole turn stays within its limit. -/
theorem Settled.inTurn_pump {fuel count : Nat} (h : e.Settled)
    (pumped : e.pump? fuel doc = some (e', doc', count)) :
    InTurn e.bindings.completions e.config.cascadeLimit.toNat e' := by
  let P := fun (e' : Engine ν) (_ : Document) =>
    InTurn e.bindings.completions e.config.cascadeLimit.toNat e'
  refine pump?_keeps (P := P) (fun _ _ _ _ next h => h.step next) ?_ pumped (h.inTurn doc)
  exact fun e _ _ plain h => h.notes (e.notes_log plain).bindings rfl

end

end FormDependencies.Engine
