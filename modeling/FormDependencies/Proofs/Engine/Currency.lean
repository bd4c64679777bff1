import FormDependencies.Document.Form
import FormDependencies.Proofs.Engine.Step

/-!
No update is lost. Between two moves of the host nobody waits for evaluation, and whatever the last
evaluation of an observer read still has the version that it had then.
-/

namespace FormDependencies

namespace Engine
variable {ν : Type}

open Bindings (Notes Announces Attempted)

/-- The state between two moves. -/
structure Settled (e : Engine ν) : Prop where
  wellFormed : e.bindings.WellFormed
  idle : e.bindings.pending = []
  upToDate : e.bindings.UpToDate []

/-- What is kept while observers are created and evaluated. -/
structure Settling (b : Bindings ν) (owed : List ObserverId) : Prop where
  wellFormed : b.WellFormed
  upToDate : b.UpToDate owed
  created : ∀ id ∈ owed, id.number < b.nextObserver

theorem Settling.announce {b c : Bindings ν} {owed : List ObserverId} (h : Settling b owed)
    (announces : Announces b c) : Settling c owed :=
  ⟨h.wellFormed.announce announces, h.upToDate.announce h.wellFormed announces,
    announces.nextObserver ▸ h.created⟩

theorem Settling.destroyElement {b : Bindings ν} (h : Settling b []) (el : ElementId) :
    Settling (b.destroyElement el).1 [] :=
  ⟨h.wellFormed.destroyElement el, h.upToDate.destroy (b.destroys_destroyElement el),
    fun _ none => absurd none List.not_mem_nil⟩

theorem carried_settling (env : Environment) (actions : ActionTable ν) :
    Carried env actions fun b _ owed => Settling b owed where
  note _ _ _ _ notes h := h.announce (.notes notes)
  destroy _ _ el h := h.destroyElement el
  create b doc el signature replaced target prepared _ _ _ h := by
    intro destroyed added
    have numbers := Bindings.number_observersFrom doc el env.config target
      destroyed.nextObserver prepared
    have own : ∀ o ∈ added, o.element = el ∧ o.subscriptions = [] := by
      intro o mem
      obtain ⟨p, -, same⟩ := Bindings.eq_observerOf_of_mem doc el env.config target mem
      rw [same]
      exact ⟨rfl, rfl⟩
    have others : ∀ o ∈ destroyed.observers, o.element ≠ el := fun o mem =>
      Bindings.element_ne_of_destroyElement h.wellFormed mem
    have rest := h.destroyElement el
    refine ⟨rest.wellFormed.addObservers others signature replaced own numbers, ?_,
      fun id mem => (Bindings.number_of_mem_addObservers numbers mem).2⟩
    simpa using rest.upToDate.addObservers rest.wellFormed signature replaced
  attempt b doc id owed c doc' attempted h :=
    ⟨h.wellFormed.attempt (h.created id List.mem_cons_self) attempted,
      h.upToDate.attempt h.wellFormed attempted, fun other mem => by
        rw [attempted.nextObserver h.wellFormed]
        exact h.created other (List.mem_cons_of_mem _ mem)⟩

/-- What the creation of observers carries on besides. -/
theorem carried_settling_and {env : Environment} {actions : ActionTable ν}
    {Q : Bindings ν → Document → Prop}
    (note : ∀ b c doc, Bindings.Notes b c → Q b doc → Q c doc)
    (destroy : ∀ (b : Bindings ν) doc el, Q b doc → Q (b.destroyElement el).1 doc)
    (create : ∀ (b : Bindings ν) doc el signature replaced (added : List (Observer ν)),
      added.map (·.id.number) = List.range' b.nextObserver added.length →
      (∀ o ∈ added, ∃ name, actions.get name = .ok o.action) → Q b doc →
      Q (b.addObservers el signature replaced added) doc)
    (attempt : ∀ b doc id c doc', b.WellFormed → Attempted b doc env id c doc' → Q b doc →
      Q c doc') :
    Carried env actions fun b doc owed => Settling b owed ∧ Q b doc where
  note b c doc owed notes h :=
    ⟨(carried_settling env actions).note b c doc owed notes h.1, note b c doc notes h.2⟩
  destroy b doc el h := ⟨h.1.destroyElement el, destroy b doc el h.2⟩
  create b doc el signature replaced target prepared targeted read same h := by
    intro destroyed added
    refine ⟨(carried_settling env actions).create b doc el signature replaced target prepared
      targeted read same h.1, create destroyed doc el signature replaced added ?_ ?_
        (destroy b doc el h.2)⟩
    · exact Bindings.number_observersFrom doc el env.config target destroyed.nextObserver prepared
    · intro o mem
      obtain ⟨p, there, same⟩ := Bindings.eq_observerOf_of_mem doc el env.config target mem
      exact ⟨p.1.action, same ▸ ((Bindings.prepareEach_ok read).2 p there).2⟩
  attempt b doc id owed c doc' attempted h :=
    ⟨(carried_settling env actions).attempt b doc id owed c doc' attempted h.1,
      attempt b doc id c doc' h.1.wellFormed attempted h.2⟩

/-! ## What each step keeps -/

section
variable {e e' : Engine ν} {doc doc' : Document}

theorem Settled.settling (h : e.Settled) : Settling e.bindings [] :=
  ⟨h.wellFormed, h.upToDate, fun _ none => absurd none List.not_mem_nil⟩

theorem Settled.notes (h : e.Settled) (notes : Bindings.Notes e.bindings e'.bindings) :
    e'.Settled := by
  have rest := h.settling.announce (.notes notes)
  exact ⟨rest.wellFormed, notes.pending.trans h.idle, rest.upToDate⟩

/-- Once the queue has been emptied everything is settled. -/
theorem Settling.flush {b : Bindings ν} {env : Environment} (h : Settling b [])
    (flushes : Flushes env b doc e' doc') : e'.Settled := by
  obtain ⟨wellFormed, idle, upToDate⟩ :=
    Bindings.upToDate_flush h.wellFormed h.upToDate doc env
  have after := Settling.announce
    ⟨wellFormed, upToDate, fun _ none => absurd none List.not_mem_nil⟩ (.notes flushes.bindings)
  exact ⟨after.wellFormed, flushes.bindings.pending.trans idle, after.upToDate⟩

theorem Settled.dispatch (h : e.Settled) (doc : Document) (event : Event) :
    (e.dispatch doc event).1.Settled := by
  rcases e.dispatch_shape doc event with ⟨notes, -⟩ | ⟨-, b, announces, flushes⟩
  · exact h.notes notes.bindings
  · exact (h.settling.announce announces).flush flushes

theorem Settled.scan (h : e.Settled) (doc : Document) (container : ElementId) :
    (e.scan doc container).1.Settled := by
  have announces := (e.announces_announced doc container).2
  obtain ⟨b, doc₁, created, -, flushes⟩ := scan_keeps container
    (carried_settling e.environment e.actions) (h.settling.announce announces)
  exact created.flush flushes

theorem Settled.runPass (h : e.Settled) (doc : Document) (pass : Pass ν) :
    (e.runPass doc pass).1.Settled := by
  obtain ⟨e₁, doc₁, scanned | ⟨-, notes, -⟩, -, after, -⟩ := e.runPass_shape doc pass
  · have settled := h.scan doc pass.container
    rw [← scanned] at settled
    exact settled.notes after
  · exact (h.notes notes).notes after

theorem Settled.step (h : e.Settled) (next : e.step? doc = some (e', doc')) : e'.Settled := by
  rcases step?_eq_some next with ⟨event, rest, -, same⟩ | ⟨-, pass, rest, -, same⟩
  · have settled := h.dispatch { doc with outbox := rest } event
    rwa [← same] at settled
  · have started : Settled { e with ready := rest } := ⟨h.wellFormed, h.idle, h.upToDate⟩
    have settled := started.runPass doc pass
    rwa [← same] at settled

theorem Settled.beginTurn (h : e.Settled) (doc : Document) : (e.beginTurn doc).Settled := by
  have started : Settled { e with bindings := e.bindings.beginTurn } :=
    ⟨h.wellFormed.turn [], h.idle, h.upToDate.turn []⟩
  exact started.notes (notes_dropDetached _ doc).bindings

theorem Settled.pump {fuel count : Nat} (h : e.Settled)
    (pumped : e.pump? fuel doc = some (e', doc', count)) : e'.Settled := by
  refine pump?_keeps (P := fun e _ => e.Settled) (fun _ _ _ _ next h => h.step next) ?_ pumped
    (h.beginTurn doc)
  exact fun e _ _ plain h => h.notes (e.notes_log plain).bindings

theorem Settled.perform {move : Move ν} (h : e.Settled)
    (performed : move.perform? e doc = some (e', doc')) : e'.Settled := by
  rcases perform?_shape performed with ⟨notes, -⟩ | ⟨event, -, same⟩ | ⟨fuel, count, -, pumped⟩ |
    ⟨-, rfl, rfl⟩ | ⟨-, next⟩
  · exact h.notes notes
  · have settled := h.dispatch doc event
    rwa [same] at settled
  · exact h.pump pumped
  · exact h.beginTurn doc'
  · exact h.step next

end

theorem settled_of_reachable {e : Engine ν} {doc : Document} (h : e.Reachable doc) :
    e.Settled := by
  obtain ⟨config, evaluator, given, moves, ran⟩ := h
  obtain ⟨start, created, ran⟩ := runNew?_eq_some.mp ran
  have empty : Settling (Bindings.empty : Bindings ν) [] :=
    ⟨.start, fun _ none => absurd none List.not_mem_nil, fun _ none => absurd none List.not_mem_nil⟩
  have notes := notes_create created
  have settling := empty.announce (.notes notes)
  refine run?_keeps (P := fun e _ => e.Settled) moves (fun m _ _ _ _ _ performed h =>
    h.perform performed) ran ⟨settling.wellFormed, notes.pending, settling.upToDate⟩

/-- Between two moves nobody waits, and what the last attempt to evaluate an observer read, unless
the limit of the turn refused it, still has the version with which it was read. What an evaluation
reads are the sources of its tokens. -/
theorem no_lost_update {e : Engine ν} {doc : Document} (h : e.Reachable doc) :
    e.bindings.pending = [] ∧
      (∀ o ∈ e.bindings.observers, e.bindings.lastAttempt? o.id ≠ some .refused →
        ∃ readings, e.bindings.lastAttempt? o.id = some (.looked readings) ∧
          ∀ r ∈ readings, e.bindings.version r.source = r.version) ∧
      ∀ (b : Bindings ν) (given : Document) (env : Environment), b.WellFormed →
        ∀ o ∈ b.observers,
          let l := b.lookUp given env.accessors o
          (b.evaluateObserver given env o).1.lastAttempt? o.id = some (.looked l.readings) ∧
            l.readings = o.query.references.flatMap fun token =>
              (l.bindings.sourcesOf given o.element token).map l.bindings.reading := by
  have settled := settled_of_reachable h
  refine ⟨settled.idle, fun o mem unrefused => ?_, fun b given env wellFormed o mem => ⟨?_, ?_⟩⟩
  · rcases settled.upToDate o mem with waits | owed | refused | current
    · rw [settled.idle] at waits
      exact absurd waits List.not_mem_nil
    · exact absurd owed List.not_mem_nil
    · exact absurd refused unrefused
    · exact current
  · exact (Bindings.evaluates_evaluateObserver wellFormed given env mem).attempted
  · exact Bindings.readings_lookUp wellFormed.placed given env.accessors o

def dependentForm : Document :=
  (Form.addDependent (Form.addReference Form.new "amount" "1").1 "@amount" []).1

def amountChanged : Option (Engine Unit × Document) :=
  runNew? .standard (.reference "amount") dependentForm
    [.request .root none, .pump 1, .edit (Form.typeText · ⟨3⟩ "2"), .pump 1]

/-- The observer of the form is current after the change. -/
theorem no_lost_update_amountChanged :
    ∃ (e : Engine Unit) (doc : Document), amountChanged = some (e, doc) ∧
      (e.bindings.observers.map fun o => (o.id, o.evaluations)) = [(⟨0⟩, 2)] ∧
      e.bindings.pending = [] ∧ ∀ o ∈ e.bindings.observers,
        e.bindings.lastAttempt? o.id ≠ some .refused →
        ∃ readings, e.bindings.lastAttempt? o.id = some (.looked readings) ∧
          ∀ r ∈ readings, e.bindings.version r.source = r.version := by
  obtain ⟨⟨e, doc⟩, ran⟩ := Option.isSome_iff_exists.mp
    (show amountChanged.isSome by decide +kernel)
  have evaluated : (amountChanged.map fun r => r.1.bindings.observers.map fun o =>
      (o.id, o.evaluations)) = some [(⟨0⟩, 2)] := by decide +kernel
  rw [ran] at evaluated
  obtain ⟨idle, current, -⟩ := no_lost_update ⟨.standard, _, _, _, ran⟩
  exact ⟨e, doc, ran, Option.some.inj evaluated, idle, current⟩

end Engine

end FormDependencies
