import FormDependencies.Proofs.Binding.Order
import FormDependencies.Proofs.Engine.Currency

/-!
One event or one pass evaluates no observer twice. A pass evaluates the observers that it creates,
whose names are new, and then empties the queue, in which only older observers wait; so both parts
have no observer in common.
-/

namespace FormDependencies.Engine
variable {ν : Type}

open Bindings (Announces Attempted FlushesInOrder)

structure Creating (start b : Bindings ν) (doc : Document) (owed : List ObserverId) : Prop where
  settling : Settling b owed
  later : start.nextObserver ≤ b.nextObserver
  waiting : ∀ id ∈ b.pending, id.number < start.nextObserver
  evaluated : ∃ created, b.evaluated = start.evaluated ++ created ∧
    (created ++ owed).Pairwise (fun id id' => id.number < id'.number) ∧
    ∀ id ∈ created ++ owed, start.nextObserver ≤ id.number ∧ id.number < b.nextObserver

theorem Creating.announce {start b c : Bindings ν} {doc : Document} {owed : List ObserverId}
    (h : Creating start b doc owed) (announces : Announces b c) (pending : c.pending = b.pending) :
    Creating start c doc owed where
  settling := h.settling.announce announces
  later := announces.nextObserver ▸ h.later
  waiting := pending ▸ h.waiting
  evaluated := by
    rw [announces.history.evaluated, announces.nextObserver]
    exact h.evaluated

theorem carried_creating (start : Bindings ν) (env : Environment) (actions : ActionTable ν) :
    Carried env actions (Creating start) where
  note b c doc owed notes h := h.announce (.notes notes) notes.pending
  destroy b doc el h := by
    have destroys := b.destroys_destroyElement el
    refine ⟨h.settling.destroyElement el, destroys.nextObserver ▸ h.later,
      destroys.pending ▸ h.waiting, ?_⟩
    rw [(Bindings.sameHistory_destroyElement b el).evaluated, destroys.nextObserver]
    exact h.evaluated
  create b doc el signature replaced target prepared targeted read same h := by
    intro destroyed added
    have settling := (carried_settling env actions).create b doc el signature replaced target
      prepared targeted read same h.settling
    have destroys := b.destroys_destroyElement el
    have numbers := Bindings.number_observersFrom doc el env.config target
      destroyed.nextObserver prepared
    have next : destroyed.nextObserver = b.nextObserver := destroys.nextObserver
    have ascending : (added.map (·.id)).Pairwise fun id id' => id.number < id'.number := by
      have ascending : (added.map (·.id.number)).Pairwise (· < ·) :=
        numbers ▸ List.pairwise_lt_range'
      exact List.pairwise_map.mpr (List.pairwise_map.mp ascending)
    have new : ∀ id ∈ added.map (·.id), destroyed.nextObserver ≤ id.number ∧
        id.number < destroyed.nextObserver + added.length :=
      fun _ => Bindings.number_of_mem_addObservers numbers
    obtain ⟨created, evaluated, before, bounds⟩ := h.evaluated
    rw [List.append_nil] at before bounds
    have same : (destroyed.addObservers el signature replaced added).evaluated = b.evaluated := by
      have logged : Bindings.Notes destroyed
        (destroyed.log (.observersCreated el added.length replaced)) := .record destroyed rfl
      exact logged.history.evaluated.trans (Bindings.sameHistory_destroyElement b el).evaluated
    refine ⟨settling, ?_, destroys.pending ▸ h.waiting, created, same.trans evaluated, ?_,
      fun id mem => ?_⟩
    · exact Nat.le_trans h.later (Nat.le_trans (Nat.le_of_eq next.symm) (Nat.le_add_right _ _))
    · refine List.pairwise_append.mpr ⟨before, ascending, fun id mem id' mem' => ?_⟩
      exact Nat.lt_of_lt_of_le (bounds id mem).2 (next ▸ (new id' mem').1)
    · rcases List.mem_append.mp mem with mem | mem
      · obtain ⟨low, high⟩ := bounds id mem
        exact ⟨low, Nat.lt_add_right _ (next ▸ high)⟩
      · exact ⟨Nat.le_trans h.later (next ▸ (new id mem).1), (new id mem).2⟩
  attempt b doc id owed c doc' attempted h := by
    have wellFormed := h.settling.wellFormed
    have next := attempted.nextObserver wellFormed
    have settling := (carried_settling env actions).attempt b doc id owed c doc' attempted
      h.settling
    obtain ⟨created, evaluated, ascending, bounds⟩ := h.evaluated
    let now := if b.isDue doc env id then [id] else []
    have fewer : (created ++ now ++ owed).Sublist (created ++ id :: owed) := by
      rw [List.append_assoc]
      refine List.Sublist.append_left ?_ created
      simp only [now]
      split
      · exact List.Sublist.refl _
      · exact List.sublist_cons_self id owed
    refine ⟨settling, next ▸ h.later, attempted.pending wellFormed ▸ h.waiting, created ++ now, ?_,
      ascending.sublist fewer, fun other mem => next ▸ bounds other (fewer.subset mem)⟩
    rw [attempted.evaluated_eq wellFormed, evaluated, List.append_assoc]

/-- What one event or pass did: the observers in `created` are new and were evaluated first, and
then the queue of `b` was emptied, which evaluated the observers in `done`. -/
structure EvaluatesOnce (e : Engine ν) (b : Bindings ν) (doc : Document) (e' : Engine ν)
    (created done : List ObserverId) : Prop where
  evaluated : e'.bindings.evaluated = e.bindings.evaluated ++ (created ++ done)
  nodup : (created ++ done).Nodup
  new : ∀ id ∈ created, e.bindings.nextObserver ≤ id.number
  flushed : Bindings.Notes (b.flush doc e.environment).1 e'.bindings
  inOrder : FlushesInOrder b doc e.environment done
  settled : e'.Settled

section
variable {e e' : Engine ν} {doc doc' : Document}

/-- Where nobody waits, emptying the queue does nothing. -/
theorem flush_idle {b : Bindings ν} (idle : b.pending = []) (doc : Document) (env : Environment) :
    (b.flush doc env).1 = b := by
  unfold Bindings.flush
  rw [idle, Bindings.flushEach, ← idle]

theorem EvaluatesOnce.of_notes (h : e.Settled) (doc : Document)
    (notes : Bindings.Notes e.bindings e'.bindings) :
    EvaluatesOnce e e.bindings doc e' [] [] := by
  obtain ⟨done, inOrder⟩ := Bindings.flushesInOrder h.wellFormed doc e.environment
  obtain rfl : done = [] := List.sublist_nil.mp (h.idle ▸ inOrder.ordered)
  refine ⟨?_, List.nodup_nil, fun _ none => absurd none List.not_mem_nil, ?_, inOrder,
    h.notes notes⟩
  · rw [notes.history.evaluated, List.append_nil, List.append_nil]
  · rw [flush_idle h.idle]
    exact notes

/-- What emptying the queue adds to the evaluations of new observers, older ones being in the
queue. -/
theorem Creating.flush {start b : Bindings ν} (h : Creating start b doc [])
    (same : start.evaluated = e.bindings.evaluated)
    (next : start.nextObserver = e.bindings.nextObserver)
    (flushes : Flushes e.environment b doc e' doc') :
    ∃ created done, EvaluatesOnce e b doc e' created done ∧
      (b.nextObserver = start.nextObserver → created = []) := by
  obtain ⟨created, evaluated, ascending, bounds⟩ := h.evaluated
  rw [List.append_nil] at ascending bounds
  obtain ⟨done, inOrder⟩ := Bindings.flushesInOrder h.settling.wellFormed doc e.environment
  refine ⟨created, done, ⟨?_, ?_, fun id mem => next ▸ (bounds id mem).1, flushes.bindings, inOrder,
    h.settling.flush flushes⟩, fun none => ?_⟩
  · rw [flushes.bindings.history.evaluated, inOrder.evaluated, evaluated, same, List.append_assoc]
  · refine List.nodup_append.mpr ⟨?_, h.settling.wellFormed.nodup.sublist inOrder.ordered, ?_⟩
    · exact ascending.imp fun {id id'} (less : id.number < id'.number) (same : id = id') =>
        absurd less (same ▸ Nat.lt_irrefl _)
    · rintro id mem id' mem' rfl
      exact Nat.not_lt.mpr (bounds id mem).1 (h.waiting id (inOrder.ordered.subset mem'))
  · apply List.eq_nil_iff_forall_not_mem.mpr
    intro id mem
    obtain ⟨low, high⟩ := bounds id mem
    exact Nat.not_lt.mpr low (none ▸ high)

theorem Settled.creating (h : e.Settled) (doc : Document) {b : Bindings ν}
    (announces : Announces e.bindings b) : Creating e.bindings b doc [] := by
  have settling := h.settling.announce announces
  refine ⟨settling, Nat.le_of_eq announces.nextObserver.symm, ?_, [], ?_, List.Pairwise.nil,
    fun _ none => absurd none List.not_mem_nil⟩
  · exact announces.nextObserver ▸ settling.wellFormed.waiting
  · rw [announces.history.evaluated, List.append_nil]

theorem evaluatesOnce_dispatch (h : e.Settled) (doc : Document) (event : Event) :
    ∃ b done, Announces e.bindings b ∧ EvaluatesOnce e b doc (e.dispatch doc event).1 [] done := by
  rcases e.dispatch_shape doc event with ⟨notes, -⟩ | ⟨-, b, announces, flushes⟩
  · exact ⟨e.bindings, [], .refl _, .of_notes h doc notes.bindings⟩
  · obtain ⟨created, done, once, none⟩ := (h.creating doc announces).flush rfl rfl flushes
    obtain rfl := none announces.nextObserver
    exact ⟨b, done, announces, once⟩

theorem evaluatesOnce_runPass (h : e.Settled) (doc : Document) (pass : Pass ν) :
    ∃ b doc₁ created done, EvaluatesOnce e b doc₁ (e.runPass doc pass).1 created done := by
  obtain ⟨e₁, doc₁, scanned | ⟨-, notes, -⟩, -, after, -⟩ := e.runPass_shape doc pass
  · have announces := (e.announces_announced doc pass.container).2
    obtain ⟨b, doc₁, creating, -, flushes⟩ := scan_keeps pass.container
      (carried_creating e.bindings e.environment e.actions) (h.creating doc announces)
    rw [← scanned] at flushes
    obtain ⟨created, done, once, -⟩ := creating.flush rfl rfl (flushes.after after)
    exact ⟨b, doc₁, created, done, once⟩
  · exact ⟨e.bindings, doc, [], [], .of_notes h doc (notes.trans after)⟩

end

/-- One event or one pass evaluates every observer at most once. The queue stands in the order in
which observers joined it first, and those that are there, attached and below the limit when their
turn comes are evaluated in that order; no evaluation queues anybody. Afterwards nobody waits and
every observer is current. -/
theorem evaluates_once {e : Engine ν} {given : Document} (h : e.Reachable given) (doc : Document) :
    (∀ event, ∃ b done, Announces e.bindings b ∧
        EvaluatesOnce e b doc (e.dispatch doc event).1 [] done) ∧
      (∀ pass, ∃ b doc₁ created done,
        EvaluatesOnce e b doc₁ (e.runPass doc pass).1 created done) ∧
      (∀ (b : Bindings ν) (ids : List ObserverId), b.pending.Nodup →
        (ids.foldl Bindings.push b).pending = (b.pending ++ ids).eraseDups) ∧
      ∀ (b : Bindings ν) (env : Environment) (id : ObserverId), b.WellFormed →
        (b.evaluateNow doc env id).1.pending = b.pending := by
  have settled := settled_of_reachable h
  refine ⟨fun event => evaluatesOnce_dispatch settled doc event,
    fun pass => evaluatesOnce_runPass settled doc pass,
    fun b ids distinct => b.pending_foldl_push ids distinct, fun b env id wellFormed => ?_⟩
  exact (b.attempted_evaluateNow doc env id).pending wellFormed

def amountTyped : Option (Engine Unit × Document) :=
  runNew? .standard (.reference "amount") dependentForm
    [.request .root none, .pump 1, .edit (Form.typeText · ⟨3⟩ "2")]

/-- The change evaluates the observer that reads the value, and evaluates it once. -/
theorem evaluates_once_amountTyped :
    ∃ (e : Engine Unit) (doc : Document), amountTyped = some (e, doc) ∧
      ∃ b, Announces e.bindings b ∧
        EvaluatesOnce e b doc (e.dispatch doc ⟨⟨3⟩, .change⟩).1 [] [⟨0⟩] := by
  obtain ⟨⟨e, doc⟩, ran⟩ := Option.isSome_iff_exists.mp
    (show amountTyped.isSome by decide +kernel)
  have evaluated : (amountTyped.map fun r => (r.1.bindings.evaluated,
      (r.1.dispatch r.2 ⟨⟨3⟩, .change⟩).1.bindings.evaluated)) =
        some ([⟨0⟩], [⟨0⟩, ⟨0⟩]) := by decide +kernel
  rw [ran] at evaluated
  obtain ⟨before, after⟩ := Prod.mk.inj (Option.some.inj evaluated)
  obtain ⟨b, done, announces, once⟩ :=
    (evaluates_once ⟨.standard, _, _, _, ran⟩ doc).1 ⟨⟨3⟩, .change⟩
  have added := once.evaluated
  rw [before, after] at added
  obtain rfl : [⟨0⟩] = done := List.cons.inj added |>.2
  exact ⟨e, doc, ran, b, announces, once⟩

end FormDependencies.Engine
