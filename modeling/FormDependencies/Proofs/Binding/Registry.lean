import Mathlib.Data.Finset.Basic
import Mathlib.Data.List.Flatten
import FormDependencies.Proofs.Binding.Settlement

/-!
The registry of observers over any sequence of its operations: observers, what is kept about
elements, the numbers that were given out and the queue stay in step.

The operations come in any order, with any documents, and with identities that may never have been
given out. In between, references and groups may change in any way that calls who watches.
-/

namespace FormDependencies

/-! ## The queue in two tables -/

/-- A queue that keeps, besides its order, the set of those who wait. -/
structure PendingQueue where
  order : List ObserverId := []
  members : Finset ObserverId := ∅

namespace PendingQueue

def push (q : PendingQueue) (id : ObserverId) : PendingQueue :=
  if id ∈ q.members then q else ⟨q.order ++ [id], insert id q.members⟩

def pop (q : PendingQueue) : Option ObserverId × PendingQueue :=
  match q.order with
  | [] => (none, q)
  | id :: rest => (some id, ⟨rest, q.members.erase id⟩)

/-- Whether both tables hold the same, each observer once. -/
structure InStep (q : PendingQueue) : Prop where
  nodup : q.order.Nodup
  mem_iff : ∀ id, id ∈ q.members ↔ id ∈ q.order

theorem InStep.empty : InStep {} := by
  constructor <;> simp

theorem InStep.push {q : PendingQueue} (h : q.InStep) (id : ObserverId) : (q.push id).InStep := by
  unfold PendingQueue.push
  split
  · exact h
  · next absent =>
    have new : id ∉ q.order := by rwa [← h.mem_iff]
    constructor
    · rw [List.nodup_append]
      refine ⟨h.nodup, List.nodup_singleton id, ?_⟩
      rintro other mem last mem' rfl
      exact new (List.mem_singleton.mp mem' ▸ mem)
    · intro other
      simp [h.mem_iff, or_comm]

theorem InStep.pop {q : PendingQueue} (h : q.InStep) : q.pop.2.InStep := by
  unfold PendingQueue.pop
  split
  · exact h
  · next id rest same =>
    have nodup := h.nodup
    rw [same, List.nodup_cons] at nodup
    constructor
    · exact nodup.2
    · intro other
      simp only [Finset.mem_erase, h.mem_iff, same, List.mem_cons]
      constructor
      · rintro ⟨different, mem⟩
        exact mem.resolve_left different
      · intro mem
        exact ⟨fun same => nodup.1 (same ▸ mem), .inr mem⟩

inductive Move where
  | push (id : ObserverId)
  | pop

def move (q : PendingQueue) : Move → PendingQueue
  | .push id => q.push id
  | .pop => q.pop.2

theorem InStep.moves {q : PendingQueue} (h : q.InStep) (moves : List Move) :
    (moves.foldl move q).InStep := by
  induction moves generalizing q with
  | nil => exact h
  | cons first rest ih =>
    apply ih
    cases first with
    | push id => exact h.push id
    | pop => exact h.pop

theorem order_push {q : PendingQueue} (h : q.InStep) (id : ObserverId) :
    (q.push id).order = if id ∈ q.order then q.order else q.order ++ [id] := by
  unfold push
  simp only [h.mem_iff]
  split <;> rfl

@[simp] theorem order_pop (q : PendingQueue) : q.pop.2.order = q.order.tail := by
  obtain ⟨order, members⟩ := q
  cases order <;> rfl

/-- As many pops as there are members empty the queue. -/
theorem order_pops {n : Nat} {q : PendingQueue} (enough : q.order.length ≤ n) :
    ((List.replicate n Move.pop).foldl move q).order = [] := by
  induction n generalizing q with
  | zero => exact List.eq_nil_of_length_eq_zero (Nat.le_zero.mp enough)
  | succ n ih =>
    apply ih
    simp only [move, order_pop, List.length_tail]
    omega

/-- Pushing what a list has not yet puts it at the end. -/
theorem order_pushes {q : PendingQueue} (h : q.InStep) {ids : List ObserverId}
    (new : (q.order ++ ids).Nodup) :
    ((ids.map Move.push).foldl move q).order = q.order ++ ids := by
  induction ids generalizing q with
  | nil => simp
  | cons id rest ih =>
    have absent : id ∉ q.order := fun mem =>
      (List.nodup_append.mp new).2.2 id mem id List.mem_cons_self rfl
    have joined : (q.push id).order = q.order ++ [id] := by
      rw [order_push h, if_neg absent]
    have later := ih (h.push id) (by simpa [joined] using new)
    rw [joined, List.append_assoc] at later
    exact later

end PendingQueue

namespace Bindings
variable {ν : Type}

theorem pending_push (b : Bindings ν) (id : ObserverId) :
    (b.push id).pending = if id ∈ b.pending then b.pending else b.pending ++ [id] := by
  unfold push
  simp only [List.contains_iff_mem]
  split <;> rfl

/-- The queue of the bindings is the order of a queue in two tables that is pushed the same. -/
theorem pending_foldl_push_eq_order {q : PendingQueue} (h : q.InStep) {b : Bindings ν}
    (same : q.order = b.pending) (ids : List ObserverId) :
    ((ids.map PendingQueue.Move.push).foldl PendingQueue.move q).order =
      (ids.foldl push b).pending := by
  induction ids generalizing q b with
  | nil => exact same
  | cons id rest ih =>
    apply ih (h.push id)
    rw [PendingQueue.order_push h, pending_push, same]

/-! ## What keeps the registry -/

structure Retains (b c : Bindings ν) : Prop where
  created : c.observers.map Observer.asCreated = b.observers.map Observer.asCreated
  declared : c.declared = b.declared
  nextObserver : c.nextObserver = b.nextObserver
  placed : b.Placed → c.Placed

namespace Retains
variable {b c d : Bindings ν}

theorem announce (h : Announces b c) : Retains b c where
  created := congrArg _ h.observers
  declared := h.declared
  nextObserver := h.nextObserver
  placed := h.placed

theorem turn (b : Bindings ν) (turn : List (ObserverId × Nat)) : Retains b { b with turn } where
  created := rfl
  declared := rfl
  nextObserver := rfl
  placed h := h.of_eq (Nat.le_refl _) rfl rfl

theorem record (b : Bindings ν) (entry : Entry ν) : Retains b (b.record entry) where
  created := rfl
  declared := rfl
  nextObserver := rfl
  placed h := h.of_eq (Nat.le_refl _) rfl rfl

theorem idle (b : Bindings ν) : Retains b { b with pending := [] } where
  created := rfl
  declared := rfl
  nextObserver := rfl
  placed h := h.of_eq (Nat.le_refl _) rfl rfl

/-- An observer that is there afterwards was there before, as it was created. -/
theorem before (h : Retains b c) {o : Observer ν} (mem : o ∈ c.observers) :
    ∃ p ∈ b.observers, p.asCreated = o.asCreated := by
  have mem : o.asCreated ∈ b.observers.map Observer.asCreated :=
    h.created ▸ List.mem_map_of_mem mem
  exact List.mem_map.mp mem

theorem after (h : Retains b c) {o : Observer ν} (mem : o ∈ b.observers) :
    ∃ p ∈ c.observers, p.asCreated = o.asCreated := by
  have mem : o.asCreated ∈ c.observers.map Observer.asCreated :=
    h.created.symm ▸ List.mem_map_of_mem mem
  exact List.mem_map.mp mem

end Retains

/-- What does not depend on evaluations is the same for observers that were created the same. -/
theorem map_eq_of_asCreated {α : Type} (view : Observer ν → α)
    (stable : ∀ o, view o.asCreated = view o) {observers others : List (Observer ν)}
    (same : observers.map Observer.asCreated = others.map Observer.asCreated) :
    observers.map view = others.map view := by
  have split : ∀ observers : List (Observer ν),
      observers.map view = (observers.map Observer.asCreated).map view := by
    intro observers
    simp [Function.comp_def, stable]
  rw [split observers, same, ← split]

/-- An evaluation only counts itself and changes what its observer is subscribed to. -/
theorem retains_evaluateObserver {b : Bindings ν} (h : b.Placed) (doc : Document)
    (env : Environment) (o : Observer ν) :
    Retains b (b.evaluateObserver doc env o).1 ∧
      (b.evaluateObserver doc env o).1.pending = b.pending := by
  have faithful := lookUp_faithful h doc env.accessors o
  obtain ⟨slots, epochs, rebound, size⟩ := b.rebind_eq doc env.accessors o
  obtain ⟨change, added, evaluated, marks, -, -⟩ := b.evaluateObserver_eq doc env o
  rw [evaluated, rebound]
  refine ⟨⟨?_, faithful.declared, faithful.nextObserver, fun _ => ?_⟩, faithful.pending⟩
  · rw [← faithful.observers]
    simp only [List.map_map]
    apply List.map_congr_left
    intro p _
    by_cases own : p.id = o.id
    · have matched : (p.id == o.id) = true := beq_iff_eq.mpr own
      simp only [Function.comp_apply, matched, if_true]
      exact (marks _).1
    · simp [own]
  · exact faithful.placed.of_eq (Nat.le_of_eq size.symm) rfl rfl

/-- What is kept when the registry is retained and when the observers of an element are destroyed,
an attempt keeps. -/
theorem Attempted.retains {b c : Bindings ν} {doc doc' : Document} {env : Environment}
    {id : ObserverId} (attempted : Attempted b doc env id c doc') (P : Bindings ν → Prop)
    (retain : ∀ b c, Retains b c → c.pending = b.pending → P b → P c)
    (destroy : ∀ b el, P b → P (b.destroyElement el).1) (placed : b.Placed) (h : P b) : P c := by
  have counted : P (b.countTurn id) := retain b _ (.turn b _) rfl h
  cases attempted with
  | refused =>
    have entered : P (b.enterTurn id) := retain b _ (.turn b _) rfl h
    exact retain _ _ (.record _ _) rfl entered
  | missing => exact counted
  | detached _ o => exact destroy _ _ counted
  | evaluated _ o =>
    have placed : (b.countTurn id).Placed := (Retains.turn b _).placed placed
    obtain ⟨retains, pending⟩ := retains_evaluateObserver placed doc env o
    exact retain _ _ retains pending counted

/-! ## The tables of the registry -/

/-- Observers, what is kept about elements, and the identities that were given out fit together. -/
structure Registered (b : Bindings ν) (issued : List ObserverId) : Prop where
  placed : b.Placed
  separate : (b.declared.map (·.element)).Nodup
  nodup : (b.declared.flatMap (·.ids)).Nodup
  listed : ∀ o ∈ b.observers, ∃ entry ∈ b.declared, entry.element = o.element ∧ o.id ∈ entry.ids
  live : ∀ entry ∈ b.declared, ∀ id ∈ entry.ids,
    ∃ o ∈ b.observers, o.id = id ∧ o.element = entry.element
  ordered : (b.observers.map (·.id)).Sublist issued
  numbered : issued.map (·.number) = List.range b.nextObserver

theorem Registered.start : (Bindings.empty : Bindings ν).Registered [] where
  placed := ⟨.nil, fun _ none => absurd none List.not_mem_nil,
    fun _ none => absurd none List.not_mem_nil⟩
  separate := List.nodup_nil
  nodup := List.nodup_nil
  listed _ none := absurd none List.not_mem_nil
  live _ none := absurd none List.not_mem_nil
  ordered := .slnil
  numbered := rfl

section
variable {b c : Bindings ν} {issued : List ObserverId}

theorem Registered.nodup_issued (h : b.Registered issued) : issued.Nodup := by
  have distinct : (issued.map (·.number)).Nodup := by
    rw [h.numbered]
    exact List.nodup_range
  exact distinct.of_map _

theorem Registered.number_lt (h : b.Registered issued) {id : ObserverId} (mem : id ∈ issued) :
    id.number < b.nextObserver := by
  rw [← List.mem_range, ← h.numbered]
  exact List.mem_map_of_mem mem

theorem Registered.mem_issued (h : b.Registered issued) {entry : ElementObservers}
    (mem : entry ∈ b.declared) {id : ObserverId} (stored : id ∈ entry.ids) : id ∈ issued := by
  obtain ⟨o, there, rfl, -⟩ := h.live entry mem id stored
  exact h.ordered.subset (List.mem_map_of_mem there)

theorem Registered.eq_of_id (h : b.Registered issued) {o p : Observer ν} (mem : o ∈ b.observers)
    (mem' : p ∈ b.observers) (same : o.id = p.id) : o = p :=
  List.inj_on_of_nodup_map (h.nodup_issued.sublist h.ordered) mem mem' same

theorem Registered.eq_of_element (h : b.Registered issued) {entry other : ElementObservers}
    (mem : entry ∈ b.declared) (mem' : other ∈ b.declared) (same : entry.element = other.element) :
    entry = other :=
  List.inj_on_of_nodup_map h.separate mem mem' same

/-- What is found for an element is what is kept about it. -/
theorem Registered.declared?_eq_some_iff (h : b.Registered issued) {el : ElementId}
    {entry : ElementObservers} :
    b.declared? el = some entry ↔ entry ∈ b.declared ∧ entry.element = el := by
  constructor
  · intro found
    exact ⟨List.mem_of_find?_eq_some found, by simpa using List.find?_some found⟩
  · rintro ⟨mem, rfl⟩
    cases found : b.declared? entry.element with
    | none =>
      have absent := List.find?_eq_none.mp found entry mem
      simp at absent
    | some other =>
      have own : other.element = entry.element := by simpa using List.find?_some found
      rw [h.eq_of_element (List.mem_of_find?_eq_some found) mem own]

theorem Registered.retain (h : b.Registered issued) (retains : Retains b c) :
    c.Registered issued where
  placed := retains.placed h.placed
  separate := retains.declared ▸ h.separate
  nodup := retains.declared ▸ h.nodup
  listed o mem := by
    obtain ⟨p, there, same⟩ := retains.before mem
    rw [retains.declared, ← show p.id = o.id from congrArg (·.id) same,
      ← show p.element = o.element from congrArg (·.element) same]
    exact h.listed p there
  live entry mem id stored := by
    obtain ⟨o, there, known, own⟩ := h.live entry (retains.declared ▸ mem) id stored
    obtain ⟨p, there, same⟩ := retains.after there
    have sameId : p.id = o.id := congrArg (·.id) same
    have sameElement : p.element = o.element := congrArg (·.element) same
    exact ⟨p, there, sameId.trans known, sameElement.trans own⟩
  ordered := by
    rw [map_eq_of_asCreated (·.id) (fun _ => rfl) retains.created]
    exact h.ordered
  numbered := retains.nextObserver ▸ h.numbered

/-- The observers that the entry of an element lists are those of the element. -/
theorem Registered.mem_ids_iff (h : b.Registered issued) {entry : ElementObservers}
    (mem : entry ∈ b.declared) {o : Observer ν} (there : o ∈ b.observers) :
    o.id ∈ entry.ids ↔ o.element = entry.element := by
  constructor
  · intro stored
    obtain ⟨p, there', known, own⟩ := h.live entry mem o.id stored
    rwa [h.eq_of_id there there' known.symm]
  · intro own
    obtain ⟨other, mem', own', stored⟩ := h.listed o there
    rwa [h.eq_of_element mem mem' (own.symm.trans own'.symm)]

theorem Registered.mem_observersOf_iff (h : b.Registered issued) {el : ElementId} {o : Observer ν}
    (there : o ∈ b.observers) : o.id ∈ b.observersOf el ↔ o.element = el := by
  unfold observersOf
  cases found : b.declared? el with
  | none =>
    obtain ⟨entry, mem, own, -⟩ := h.listed o there
    have absent : entry.element ≠ el := by
      simpa using List.find?_eq_none.mp found entry mem
    simp [← own, absent]
  | some entry =>
    obtain ⟨mem, rfl⟩ := h.declared?_eq_some_iff.mp found
    exact h.mem_ids_iff mem there

theorem declared_destroyElement (b : Bindings ν) (el : ElementId) :
    (b.destroyElement el).1.declared = b.declared.filter fun entry => entry.element != el := by
  unfold destroyElement
  cases found : b.declared? el with
  | none =>
    refine (List.filter_eq_self.mpr fun entry mem => ?_).symm
    simpa using List.find?_eq_none.mp found entry mem
  | some entry =>
    obtain ⟨slots, epochs, same, -⟩ := b.unsubscribeAll_eq
      ((b.observers.filter fun o => entry.ids.contains o.id).flatMap (·.subscriptions))
    simp only [destroyEach, same]

/-- Exactly the observers of the element are destroyed. -/
theorem Registered.observers_destroyElement (h : b.Registered issued) (el : ElementId) :
    (b.destroyElement el).1.observers = b.observers.filter fun o => o.element != el := by
  rw [(b.destroys_destroyElement el).observers]
  apply List.filter_congr
  intro o mem
  have own : o.id ∈ b.observersOf el ↔ o.element = el := h.mem_observersOf_iff mem
  by_cases same : o.element = el <;> simp [own, same]

theorem Registered.destroyElement (h : b.Registered issued) (el : ElementId) :
    (b.destroyElement el).1.Registered issued := by
  have destroys := b.destroys_destroyElement el
  have declared := b.declared_destroyElement el
  have observers := h.observers_destroyElement el
  constructor
  · exact h.placed.of_eq (Nat.le_of_eq destroys.size.symm) destroys.references destroys.groups
  · rw [declared]
    exact h.separate.sublist (List.filter_sublist.map _)
  · rw [declared]
    exact h.nodup.sublist (List.filter_sublist.flatMap _)
  · intro o mem
    rw [observers, List.mem_filter] at mem
    obtain ⟨entry, there, own, stored⟩ := h.listed o mem.1
    rw [declared]
    exact ⟨entry, List.mem_filter.mpr ⟨there, own ▸ mem.2⟩, own, stored⟩
  · intro entry mem id stored
    rw [declared, List.mem_filter] at mem
    obtain ⟨o, there, known, own⟩ := h.live entry mem.1 id stored
    rw [observers]
    exact ⟨o, List.mem_filter.mpr ⟨there, own ▸ mem.2⟩, known, own⟩
  · rw [observers]
    exact (List.filter_sublist.map _).trans h.ordered
  · rw [destroys.nextObserver]
    exact h.numbered

/-- A new entry joins the others in any order. -/
theorem placeDeclared_perm {added : ElementObservers} {entries : List ElementObservers}
    (new : ∀ entry ∈ entries, entry.element ≠ added.element) :
    (placeDeclared added entries).Perm (added :: entries) := by
  induction entries with
  | nil => exact .refl _
  | cons first rest ih =>
    unfold placeDeclared
    rw [if_neg (new first List.mem_cons_self)]
    split
    · exact .refl _
    · have rest := ih fun entry mem => new entry (List.mem_cons_of_mem _ mem)
      exact (rest.cons first).trans (.swap added first _)

theorem Registered.addObservers (h : b.Registered issued) {el : ElementId}
    (undeclared : ∀ entry ∈ b.declared, entry.element ≠ el) (signature : String) (replaced : Nat)
    {added : List (Observer ν)} (own : ∀ o ∈ added, o.element = el)
    (numbers : added.map (·.id.number) = List.range' b.nextObserver added.length) :
    (b.addObservers el signature replaced added).Registered (issued ++ added.map (·.id)) := by
  let entry : ElementObservers := ⟨el, signature, added.map (·.id)⟩
  have placed : (placeDeclared entry b.declared).Perm (entry :: b.declared) :=
    placeDeclared_perm undeclared
  have numbered : (issued ++ added.map (·.id)).map (·.number) =
      List.range (b.nextObserver + added.length) := by
    rw [List.map_append, h.numbered, List.map_map, List.range_eq_range', List.range_eq_range',
      ← List.range'_append_1, Nat.zero_add]
    exact congrArg _ numbers
  have distinct : (issued ++ added.map (·.id)).Nodup := by
    apply List.Nodup.of_map (·.number)
    rw [numbered]
    exact List.nodup_range
  obtain ⟨-, new, apart⟩ := List.nodup_append.mp distinct
  constructor
  · exact h.placed.of_eq (Nat.le_refl _) rfl rfl
  · refine (placed.map _).nodup_iff.mpr (List.nodup_cons.mpr ⟨?_, h.separate⟩)
    simpa using undeclared
  · refine (placed.flatMap fun _ _ => .refl _).nodup_iff.mpr ?_
    rw [List.flatMap_cons, List.nodup_append]
    refine ⟨new, h.nodup, fun id mem other mem' same => ?_⟩
    obtain ⟨old, there, stored⟩ := List.mem_flatMap.mp mem'
    exact apart other (h.mem_issued there stored) id mem same.symm
  · intro o mem
    rcases List.mem_append.mp mem with mem | mem
    · obtain ⟨old, there, own, stored⟩ := h.listed o mem
      exact ⟨old, placed.mem_iff.mpr (List.mem_cons_of_mem _ there), own, stored⟩
    · exact ⟨entry, placed.mem_iff.mpr List.mem_cons_self, (own o mem).symm,
        List.mem_map_of_mem mem⟩
  · intro other mem id stored
    rcases List.mem_cons.mp (placed.mem_iff.mp mem) with rfl | mem
    · obtain ⟨o, there, rfl⟩ := List.mem_map.mp stored
      exact ⟨o, List.mem_append_right _ there, rfl, own o there⟩
    · obtain ⟨o, there, known, own⟩ := h.live other mem id stored
      exact ⟨o, List.mem_append_left _ there, known, own⟩
  · simp only [Bindings.addObservers, log, record, List.map_append]
    exact h.ordered.append (.refl _)
  · exact numbered

/-! ## The operations -/

def issuedBy : Except DependencyError (List ObserverId) → List ObserverId
  | .ok ids => ids
  | .error _ => []

theorem undeclared_destroyElement (b : Bindings ν) (el : ElementId) :
    ∀ entry ∈ (b.destroyElement el).1.declared, entry.element ≠ el := by
  intro entry mem
  rw [declared_destroyElement, List.mem_filter] at mem
  simpa using mem.2

theorem Registered.init (h : b.Registered issued) (doc : Document) (el : ElementId)
    (actions : ActionTable ν) (config : Config) :
    (b.init doc el actions config).1.Registered
      (issued ++ issuedBy (b.init doc el actions config).2) := by
  have destroyed := h.destroyElement el
  rcases b.init_cases doc el actions config with
    ⟨-, kept⟩ | ⟨-, ⟨error, failed, -⟩ | ⟨target, prepared, -, -, created⟩⟩
  · rw [kept]
    simpa [issuedBy] using h
  · rw [failed]
    simpa [issuedBy] using destroyed
  · rw [created]
    apply destroyed.addObservers (b.undeclared_destroyElement el)
    · exact fun o mem => element_of_mem_observersFrom doc el config target mem
    · exact number_observersFrom doc el config target _ prepared

theorem Registered.actualizeObservers (h : b.Registered issued) (doc : Document) :
    (b.actualizeObservers doc).1.Registered issued := by
  apply actualizeObservers_keeps (·.Registered issued) _ _ h
  · intro b el _ h
    exact h.destroyElement el
  · intro b count live h
    exact h.retain (.record b _)

theorem Registered.attempt {doc doc' : Document} {env : Environment} {id : ObserverId}
    (h : b.Registered issued) (attempted : Attempted b doc env id c doc') :
    c.Registered issued ∧ c.pending = b.pending := by
  apply attempted.retains (fun c => c.Registered issued ∧ c.pending = b.pending) _ _ h.placed
    ⟨h, rfl⟩
  · rintro c d retains pending ⟨h, same⟩
    exact ⟨h.retain retains, pending.trans same⟩
  · rintro c el ⟨h, same⟩
    exact ⟨h.destroyElement el, (c.destroys_destroyElement el).pending.trans same⟩

theorem Registered.flush (h : b.Registered issued) (doc : Document) (env : Environment) :
    (b.flush doc env).1.Registered issued ∧ (b.flush doc env).1.pending = [] := by
  let P := fun (c : Bindings ν) (_ : Document) (_ : List ObserverId) =>
    c.Registered issued ∧ c.pending = []
  refine flushEach_keeps P (fun _ _ _ _ _ kept => kept) ?_ b.pending {} ⟨h.retain (.idle b), rfl⟩
  rintro c doc' id owed d doc'' - attempted ⟨h, empty⟩
  obtain ⟨registered, pending⟩ := h.attempt attempted
  exact ⟨registered, pending.trans empty⟩

theorem Announces.queue (b : Bindings ν) (id : ObserverId) : Announces b (b.queue id) := by
  unfold Bindings.queue
  split
  · next there =>
    obtain ⟨o, found⟩ := Option.isSome_iff_exists.mp there
    exact .push (.inl ⟨o, mem_of_observer? found⟩)
  · exact .refl b

theorem pending_init (b : Bindings ν) (doc : Document) (el : ElementId) (actions : ActionTable ν)
    (config : Config) : (b.init doc el actions config).1.pending = b.pending := by
  have destroyed := (b.destroys_destroyElement el).pending
  rcases b.init_cases doc el actions config with
    ⟨-, same⟩ | ⟨-, ⟨error, same, -⟩ | ⟨target, prepared, -, -, same⟩⟩
  · rw [same]
  · rw [same]
    exact destroyed
  · rw [same]
    exact destroyed

theorem pending_actualizeObservers (b : Bindings ν) (doc : Document) :
    (b.actualizeObservers doc).1.pending = b.pending := by
  apply actualizeObservers_keeps (·.pending = b.pending) _ _ rfl
  · intro c el _ same
    exact (c.destroys_destroyElement el).pending.trans same
  · intro c count live same
    exact same

end

end Bindings

/-! ## Sequences of operations -/

/-- One use of the registry of observers, or something that happens to references and groups in
between. -/
inductive Operation (ν : Type) where
  | init (doc : Document) (el : ElementId) (actions : ActionTable ν) (config : Config)
  | destroyElement (el : ElementId)
  | actualize (doc : Document)
  | queue (id : ObserverId)
  | queueWithin (doc : Document) (container : ElementId)
  | queueSelfReaders (doc : Document) (target : ElementId)
  | beginTurn
  | evaluateNow (doc : Document) (env : Environment) (id : ObserverId)
  | flush (doc : Document) (env : Environment)
  | elsewhere (change : Bindings ν → Bindings ν)
    (announces : ∀ b, Bindings.Announces b (change b))

namespace Operation
variable {ν : Type}

def apply : Operation ν → Bindings ν → Bindings ν
  | .init doc el actions config, b => (b.init doc el actions config).1
  | .destroyElement el, b => (b.destroyElement el).1
  | .actualize doc, b => (b.actualizeObservers doc).1
  | .queue id, b => b.queue id
  | .queueWithin doc container, b => (b.queueWithin doc container).1
  | .queueSelfReaders doc target, b => (b.queueSelfReaders doc target).1
  | .beginTurn, b => b.beginTurn
  | .evaluateNow doc env id, b => (b.evaluateNow doc env id).1
  | .flush doc env, b => (b.flush doc env).1
  | .elsewhere change _, b => change b

def issued : Operation ν → Bindings ν → List ObserverId
  | .init doc el actions config, b => Bindings.issuedBy (b.init doc el actions config).2
  | _, _ => []

/-- What an operation does to the queue: the queueing operations and those who watch a change push,
and the queue is emptied one by one. -/
def moves : Operation ν → Bindings ν → List PendingQueue.Move
  | .queue id, b => if (b.observer? id).isSome then [.push id] else []
  | .queueWithin doc container, b =>
    (b.observers.filter fun o => doc.isWithin o.element container).map fun o => .push o.id
  | .queueSelfReaders doc target, b =>
    (b.observers.filter fun o => o.query.readsSelf && doc.isWithin target o.element).map
      fun o => .push o.id
  | .flush _ _, b => List.replicate b.pending.length .pop
  | .elsewhere change _, b => ((change b).pending.drop b.pending.length).map .push
  | _, _ => []

end Operation

/-- Every operation keeps the tables of the registry in step. -/
theorem Bindings.Registered.apply {ν : Type} {b : Bindings ν} {issued : List ObserverId}
    (h : b.Registered issued) (op : Operation ν) :
    (op.apply b).Registered (issued ++ op.issued b) := by
  have kept := fun {c : Bindings ν} (registered : c.Registered issued) =>
    (List.append_nil issued).symm ▸ registered
  cases op with
  | init doc el actions config => exact h.init doc el actions config
  | destroyElement el => exact kept (h.destroyElement el)
  | actualize doc => exact kept (h.actualizeObservers doc)
  | queue id => exact kept (h.retain (.announce (.queue ..)))
  | queueWithin doc container => exact kept (h.retain (.announce (.queueWithin ..)))
  | queueSelfReaders doc target => exact kept (h.retain (.announce (.queueSelfReaders ..)))
  | beginTurn => exact kept (h.retain (.turn _ _))
  | evaluateNow doc env id => exact kept (h.attempt (b.attempted_evaluateNow doc env id)).1
  | flush doc env => exact kept (h.flush doc env).1
  | elsewhere change announces => exact kept (h.retain (.announce (announces _)))

/-- The bindings, the identities that were given out, in order, and the queue in two tables. -/
structure ObserverRegistry (ν : Type) where
  bindings : Bindings ν := .empty
  issued : List ObserverId := []
  queue : PendingQueue := {}

namespace ObserverRegistry
variable {ν : Type}

def step (r : ObserverRegistry ν) (op : Operation ν) : ObserverRegistry ν where
  bindings := op.apply r.bindings
  issued := r.issued ++ op.issued r.bindings
  queue := (op.moves r.bindings).foldl PendingQueue.move r.queue

def run (ops : List (Operation ν)) : ObserverRegistry ν :=
  ops.foldl step {}

structure WellFormed (r : ObserverRegistry ν) : Prop where
  registered : r.bindings.Registered r.issued
  waiting : r.queue.order = r.bindings.pending
  inStep : r.queue.InStep

/-- The queue of the bindings follows the moves of an operation. -/
theorem WellFormed.waiting_step {r : ObserverRegistry ν} (h : r.WellFormed) (op : Operation ν) :
    (r.step op).queue.order = (r.step op).bindings.pending := by
  have pushes := Bindings.pending_foldl_push_eq_order h.inStep h.waiting
  have pushed : ∀ found : List (Observer ν),
      ((found.map fun o => PendingQueue.Move.push o.id).foldl PendingQueue.move r.queue).order =
        (found.foldl (fun b o => b.push o.id) r.bindings).pending := by
    intro found
    simpa [Function.comp_def, List.foldl_map] using pushes (found.map (·.id))
  cases op with
  | init doc el actions config => exact h.waiting.trans (Bindings.pending_init ..).symm
  | destroyElement el =>
    exact h.waiting.trans (r.bindings.destroys_destroyElement el).pending.symm
  | actualize doc => exact h.waiting.trans (Bindings.pending_actualizeObservers ..).symm
  | queue id =>
    simp only [step, Operation.moves, Operation.apply, Bindings.queue]
    split
    · exact pushes [id]
    · exact h.waiting
  | queueWithin doc container => exact pushed _
  | queueSelfReaders doc target => exact pushed _
  | beginTurn => exact h.waiting
  | evaluateNow doc env id =>
    have attempted := r.bindings.attempted_evaluateNow doc env id
    exact h.waiting.trans (h.registered.attempt attempted).2.symm
  | flush doc env =>
    have emptied := PendingQueue.order_pops (Nat.le_of_eq (congrArg List.length h.waiting))
    exact emptied.trans (h.registered.flush doc env).2.symm
  | elsewhere change announces =>
    obtain ⟨later, grown⟩ := (announces r.bindings).waiting
    have nodup : r.bindings.pending.Nodup := h.waiting ▸ h.inStep.nodup
    have distinct := (announces r.bindings).nodup nodup
    have added : (change r.bindings).pending.drop r.bindings.pending.length = later := by
      rw [← grown, List.drop_left]
    simp only [step, Operation.moves, Operation.apply, added]
    rw [← grown] at distinct ⊢
    rw [← h.waiting] at distinct ⊢
    exact PendingQueue.order_pushes h.inStep distinct

theorem WellFormed.step {r : ObserverRegistry ν} (h : r.WellFormed) (op : Operation ν) :
    (r.step op).WellFormed :=
  ⟨h.registered.apply op, h.waiting_step op, h.inStep.moves _⟩

theorem WellFormed.run (ops : List (Operation ν)) : (run ops).WellFormed := by
  suffices each : ∀ r : ObserverRegistry ν, r.WellFormed →
      (ops.foldl ObserverRegistry.step r).WellFormed from each {} ⟨.start, rfl, .empty⟩
  induction ops with
  | nil => exact fun r h => h
  | cons op rest ih => exact fun r h => ih _ (h.step op)

/-- The representation invariant of the registry. -/
structure Consistent (r : ObserverRegistry ν) : Prop where
  /-- The live identities are those that elements list, no identity under two elements or twice
  under one. -/
  union : (r.bindings.declared.flatMap (·.ids)).Perm (r.bindings.observers.map (·.id))
  disjoint : (r.bindings.declared.flatMap (·.ids)).Nodup
  separate : (r.bindings.declared.map (·.element)).Nodup
  stored : ∀ entry ∈ r.bindings.declared, ∀ id ∈ entry.ids,
    ∃ o, r.bindings.observer? id = some o ∧ o.id = id ∧ o.element = entry.element
  below : ∀ id ∈ r.issued, id.number < r.bindings.nextObserver
  unique : r.issued.Nodup
  /-- Observers stand in the order in which their identities were given out. -/
  ordered : (r.bindings.observers.map (·.id)).Sublist r.issued
  waiting : r.queue.order = r.bindings.pending
  inStep : r.queue.InStep

/-- Whatever the operations were, the tables of the registry are in step. -/
theorem consistent_run (ops : List (Operation ν)) : (run ops).Consistent := by
  have h := WellFormed.run ops
  have registered := h.registered
  have live : ((ObserverRegistry.run ops).bindings.observers.map (·.id)).Nodup :=
    registered.nodup_issued.sublist registered.ordered
  constructor
  · rw [List.perm_ext_iff_of_nodup registered.nodup live]
    intro id
    rw [List.mem_flatMap, List.mem_map]
    constructor
    · rintro ⟨entry, mem, stored⟩
      obtain ⟨o, there, known, -⟩ := registered.live entry mem id stored
      exact ⟨o, there, known⟩
    · rintro ⟨o, there, rfl⟩
      obtain ⟨entry, mem, -, stored⟩ := registered.listed o there
      exact ⟨entry, mem, stored⟩
  · exact registered.nodup
  · exact registered.separate
  · intro entry mem id stored
    obtain ⟨o, there, rfl, own⟩ := registered.live entry mem id stored
    cases found : (ObserverRegistry.run ops).bindings.observer? o.id with
    | none => exact absurd rfl (Bindings.observer?_eq_none.mp found o there)
    | some p =>
      obtain ⟨there', same⟩ := Bindings.mem_of_observer? found
      rw [registered.eq_of_id there' there same]
      exact ⟨o, rfl, rfl, own⟩
  · exact fun id mem => registered.number_lt mem
  · exact registered.nodup_issued
  · exact registered.ordered
  · exact h.waiting
  · exact h.inStep

end ObserverRegistry

end FormDependencies
