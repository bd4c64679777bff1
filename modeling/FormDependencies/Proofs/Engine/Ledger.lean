import FormDependencies.Proofs.Engine.Step
import Mathlib.Data.List.Basic
import Mathlib.Logic.Relation

/-!
Where the scheduled passes are. Every pass gets a ticket when it is scheduled, and the ledger of a
run says for each ticket whether its pass is ready, is parked, has run or was dropped. The queues of
the engine are those of the ledger, no ticket is lost, and none is in two places.
-/

namespace FormDependencies

structure Ticket (ν : Type) where
  number : Nat
  pass : Pass ν
  /-- The document when it was last decided where the pass is put. -/
  seen : Document

structure PassRun (ν : Type) extends Ticket ν where
  engine : Engine ν
  found : Document
  left : Engine ν × Document

/-- What became of the passes that were scheduled so far. -/
structure Ledger (ν : Type) where
  /-- All passes, in the order of scheduling. -/
  scheduled : List (Pass ν) := []
  ready : List (Ticket ν) := []
  parked : List (Ticket ν) := []
  /-- In the order in which they ran. -/
  ran : List (PassRun ν) := []
  dropped : List (Ticket ν) := []
  /-- What entered the queue of ready passes, in one group what entered together. -/
  entered : List (List (Ticket ν)) := []

namespace Ticket
variable {ν : Type}

def seenIn (t : Ticket ν) (doc : Document) : Ticket ν := { t with seen := doc }

/-- What of a ticket never changes. -/
def stub (t : Ticket ν) : Pass ν × Nat := (t.pass, t.number)

end Ticket

namespace Ledger
variable {ν : Type}

def schedule (l : Ledger ν) (doc : Document) (pass : Pass ν) : Ledger ν :=
  let ticket : Ticket ν := ⟨l.scheduled.length, pass, doc⟩
  let l := { l with scheduled := l.scheduled ++ [pass] }
  if doc.isReady pass.container then
    { l with ready := l.ready ++ [ticket], entered := l.entered ++ [[ticket]] }
  else { l with parked := l.parked ++ [ticket] }

def dropDetached (l : Ledger ν) (doc : Document) : Ledger ν :=
  let gone := l.parked.filter fun t => !doc.isAttached t.pass.container
  { l with
    parked := l.parked.filter fun t => doc.isAttached t.pass.container
    dropped := l.dropped ++ gone.map (·.seenIn doc) }

def release (l : Ledger ν) (doc : Document) : Ledger ν :=
  let parked := l.parked.map (·.seenIn doc)
  let released := parked.filter fun t => doc.isReady t.pass.container
  { l with
    ready := l.ready ++ released
    parked := parked.filter fun t => !doc.isReady t.pass.container
    entered := l.entered ++ [released] }

def unpark (l : Ledger ν) (doc : Document) : Ledger ν := (l.dropDetached doc).release doc

def runOldest (l : Ledger ν) (e : Engine ν) (doc : Document) (left : Engine ν × Document) :
    Ledger ν :=
  match l.ready with
  | [] => l
  | ticket :: ready =>
    { l with ready, ran := l.ran ++ [⟨ticket, { e with ready := ready.map (·.pass) }, doc, left⟩] }

def tickets (l : Ledger ν) : List (Ticket ν) :=
  l.ready ++ l.parked ++ l.ran.map (·.toTicket) ++ l.dropped

end Ledger

/-! ## The ledger of a run -/

namespace Engine
variable {ν : Type}

def dispatchLedger (e : Engine ν) (doc : Document) (event : Event) (l : Ledger ν) : Ledger ν :=
  match event.kind with
  | .contentLoaded => l.schedule doc { container := event.target }
  | .componentReady => l.unpark doc
  | .change | .selected => l
  | .collectionAdd | .collectionRemove =>
    if e.collection.holds doc event.target then
      l.schedule (e.dispatch doc event).2 { container := event.target }
    else l

def stepLedger (e : Engine ν) (doc : Document) (l : Ledger ν) : Ledger ν :=
  match doc.nextEvent with
  | (doc, some event) => e.dispatchLedger doc event l
  | (doc, none) =>
    match e.step? doc with
    | some left => l.runOldest e doc left
    | none => l

def settleLedger : Nat → Engine ν → Document → Ledger ν → Ledger ν
  | 0, _, _, l => l
  | fuel + 1, e, doc, l =>
    match e.step? doc with
    | none => l
    | some (e', doc') => settleLedger fuel e' doc' (e.stepLedger doc l)

end Engine

def Move.ledger {ν : Type} (e : Engine ν) (doc : Document) (l : Ledger ν) : Move ν → Ledger ν
  | .request container callback => l.schedule doc { container, callback }
  | .dispatch event => e.dispatchLedger doc event l
  | .pump fuel => Engine.settleLedger fuel (e.beginTurn doc) doc (l.dropDetached doc)
  | .beginTurn => l.dropDetached doc
  | .round => e.stepLedger doc l
  | .registerAccessor _ _ | .registerAction _ _ | .takeErrors | .edit _ => l

namespace Engine
variable {ν : Type}

def runLedger (e : Engine ν) (doc : Document) (l : Ledger ν) : List (Move ν) → Ledger ν
  | [] => l
  | move :: rest =>
    match move.perform? e doc with
    | none => l
    | some (e', doc') => e'.runLedger doc' (move.ledger e doc l) rest

def runNewLedger (config : Config) (evaluator : Evaluator) (given : Document)
    (moves : List (Move ν)) : Ledger ν :=
  match create config evaluator with
  | .ok e => e.runLedger given {} moves
  | .error _ => {}

end Engine

theorem Engine.runLedger_append {ν : Type} {e e' : Engine ν} {doc doc' : Document} {l : Ledger ν}
    {moves : List (Move ν)} (ran : e.run? doc moves = some (e', doc')) (more : List (Move ν)) :
    e.runLedger doc l (moves ++ more) = e'.runLedger doc' (e.runLedger doc l moves) more := by
  induction moves generalizing e doc l with
  | nil =>
    obtain ⟨rfl, rfl⟩ : e = e' ∧ doc = doc' := by simpa [run?] using ran
    rfl
  | cons first rest ih =>
    obtain ⟨⟨e₁, doc₁⟩, performed, ran⟩ := Option.bind_eq_some_iff.mp ran
    simp only [List.cons_append, runLedger, performed]
    exact ih ran

/-! ## What the ledger keeps -/

namespace Ledger
variable {ν : Type}

/-- What happens to a document and a ledger, one thing after the other. The document changes as the
relation says. -/
inductive Step (R : Document → Document → Prop) :
    Document × Ledger ν → Document × Ledger ν → Prop
  | change {doc doc' : Document} (l : Ledger ν) (related : R doc doc') : Step R (doc, l) (doc', l)
  | take {doc : Document} {event : Event} {rest : List Event} (l : Ledger ν)
    (oldest : doc.outbox = event :: rest) (other : event.kind ≠ .componentReady) :
    Step R (doc, l) ({ doc with outbox := rest }, l)
  /-- The event that announces an element as ready is taken, and moves what waits for it at once. -/
  | takeReady {doc : Document} {event : Event} {rest : List Event} (l : Ledger ν)
    (oldest : doc.outbox = event :: rest) :
    Step R (doc, l) ({ doc with outbox := rest }, l.unpark { doc with outbox := rest })
  | unpark (doc : Document) (l : Ledger ν) : Step R (doc, l) (doc, l.unpark doc)
  | dropDetached (doc : Document) (l : Ledger ν) : Step R (doc, l) (doc, l.dropDetached doc)
  | schedule (doc : Document) (l : Ledger ν) (pass : Pass ν) :
    Step R (doc, l) (doc, l.schedule doc pass)
  | runOldest {doc : Document} {l : Ledger ν} {ticket : Ticket ν} {ready : List (Ticket ν)}
    (e : Engine ν) (idle : doc.outbox = []) (oldest : l.ready = ticket :: ready) :
    Step R (doc, l) (doc, l.runOldest e doc
      ({ e with ready := ready.map Ticket.pass }.runPass doc ticket.pass))

abbrev Path (R : Document → Document → Prop) :
    Document × Ledger ν → Document × Ledger ν → Prop :=
  Relation.ReflTransGen (Step R)

/-- No ticket is lost or in two places, and each is where it belongs. -/
structure Accounted (l : Ledger ν) : Prop where
  /-- Each scheduled pass has its ticket in one place. -/
  placed : (l.tickets.map Ticket.stub).Perm l.scheduled.zipIdx
  /-- Passes run in the order in which they entered the queue. -/
  inOrder : l.entered.flatten = l.ran.map (·.toTicket) ++ l.ready
  /-- Parked passes stand in the order of scheduling. -/
  parking : (l.parked.map (·.number)).Pairwise (· < ·)
  /-- What enters the queue together enters it in the order of parking. -/
  together : ∀ group ∈ l.entered, (group.map (·.number)).Pairwise (· < ·)
  readySeen : ∀ t ∈ l.entered.flatten, t.seen.isReady t.pass.container
  waitingSeen : ∀ t ∈ l.parked, t.seen.isReady t.pass.container = false
  detachedSeen : ∀ t ∈ l.dropped, t.seen.isAttached t.pass.container = false

/-- A later ledger: nothing that was recorded is taken back. -/
structure Later (l l' : Ledger ν) : Prop where
  scheduled : l.scheduled <+: l'.scheduled
  entered : l.entered <+: l'.entered
  ran : l.ran <+: l'.ran
  dropped : l.dropped <+: l'.dropped

theorem Later.refl (l : Ledger ν) : Later l l :=
  ⟨List.prefix_rfl, List.prefix_rfl, List.prefix_rfl, List.prefix_rfl⟩

theorem Later.trans {l l' l'' : Ledger ν} (first : Later l l') (second : Later l' l'') :
    Later l l'' :=
  ⟨first.scheduled.trans second.scheduled, first.entered.trans second.entered,
    first.ran.trans second.ran, first.dropped.trans second.dropped⟩

theorem later_unpark (l : Ledger ν) (doc : Document) : Later l (l.unpark doc) :=
  ⟨List.prefix_rfl, List.prefix_append .., List.prefix_rfl, List.prefix_append ..⟩

theorem Step.later {R : Document → Document → Prop} {now next : Document × Ledger ν}
    (step : Step R now next) : Later now.2 next.2 := by
  cases step with
  | change => exact .refl _
  | take => exact .refl _
  | takeReady => exact later_unpark _ _
  | unpark => exact later_unpark _ _
  | dropDetached =>
    exact ⟨List.prefix_rfl, List.prefix_rfl, List.prefix_rfl, List.prefix_append ..⟩
  | schedule =>
    unfold Ledger.schedule
    dsimp only
    split
    · exact ⟨List.prefix_append .., List.prefix_append .., List.prefix_rfl, List.prefix_rfl⟩
    · exact ⟨List.prefix_append .., List.prefix_rfl, List.prefix_rfl, List.prefix_rfl⟩
  | runOldest e idle oldest =>
    unfold Ledger.runOldest
    rw [oldest]
    exact ⟨List.prefix_rfl, List.prefix_rfl, List.prefix_append .., List.prefix_rfl⟩

theorem Path.later {R : Document → Document → Prop} {now last : Document × Ledger ν}
    (path : Path R now last) : Later now.2 last.2 := by
  induction path with
  | refl => exact .refl _
  | tail _ step ih => exact ih.trans step.later

/-! ## No ticket is lost -/

@[simp] theorem stub_seenIn (t : Ticket ν) (doc : Document) : (t.seenIn doc).stub = t.stub := rfl

theorem map_stub_seenIn (ts : List (Ticket ν)) (doc : Document) :
    (ts.map (·.seenIn doc)).map Ticket.stub = ts.map Ticket.stub := by
  simp [Function.comp_def]

/-- What a filter takes and what it leaves are all there was. -/
theorem perm_filter_append (ts : List (Ticket ν)) (test : Ticket ν → Bool) :
    ((ts.filter test ++ ts.filter fun t => !test t).map Ticket.stub).Perm (ts.map Ticket.stub) :=
  (List.filter_append_perm test ts).map _

theorem stubs_schedule (l : Ledger ν) (doc : Document) (pass : Pass ν) :
    ((l.schedule doc pass).tickets.map Ticket.stub).Perm
      (l.tickets.map Ticket.stub ++ [(pass, l.scheduled.length)]) := by
  classical
  have same : Ticket.stub ⟨l.scheduled.length, pass, doc⟩ = (pass, l.scheduled.length) := rfl
  rw [List.perm_iff_count]
  intro entry
  unfold Ledger.schedule tickets
  dsimp only
  split
  · simp only [List.map_append, List.count_append, List.map_cons, List.map_nil, same]
    omega
  · simp only [List.map_append, List.count_append, List.map_cons, List.map_nil, same]
    omega

theorem stubs_dropDetached (l : Ledger ν) (doc : Document) :
    ((l.dropDetached doc).tickets.map Ticket.stub).Perm (l.tickets.map Ticket.stub) := by
  classical
  have parts := perm_filter_append l.parked fun t => doc.isAttached t.pass.container
  rw [List.perm_iff_count] at parts ⊢
  intro entry
  have count := parts entry
  unfold Ledger.dropDetached tickets
  simp only [List.map_append, List.count_append, map_stub_seenIn] at count ⊢
  omega

theorem stubs_release (l : Ledger ν) (doc : Document) :
    ((l.release doc).tickets.map Ticket.stub).Perm (l.tickets.map Ticket.stub) := by
  classical
  have parts := perm_filter_append (l.parked.map (·.seenIn doc)) fun t =>
    doc.isReady t.pass.container
  rw [map_stub_seenIn, List.perm_iff_count] at parts
  rw [List.perm_iff_count]
  intro entry
  have count := parts entry
  unfold Ledger.release tickets
  simp only [List.map_append, List.count_append] at count ⊢
  omega

theorem stubs_runOldest (l : Ledger ν) (e : Engine ν) (doc : Document)
    (left : Engine ν × Document) :
    ((l.runOldest e doc left).tickets.map Ticket.stub).Perm (l.tickets.map Ticket.stub) := by
  classical
  unfold Ledger.runOldest
  split
  · exact .refl _
  · next ticket ready oldest =>
    rw [List.perm_iff_count]
    intro entry
    unfold tickets
    rw [oldest]
    simp only [List.map_append, List.count_append, List.map_cons, List.map_nil, List.count_cons,
      List.count_nil]
    omega

/-- The number of a ticket is that of its pass in the order of scheduling. -/
theorem Accounted.number_lt {l : Ledger ν} (h : l.Accounted) {t : Ticket ν} (mem : t ∈ l.tickets) :
    t.number < l.scheduled.length := by
  have listed : t.stub ∈ l.scheduled.zipIdx := h.placed.subset (List.mem_map_of_mem mem)
  exact (List.mem_zipIdx' listed).1

/-- What is ready runs at some time, or is still ready. -/
theorem Accounted.fate {l l' : Ledger ν} (h : l.Accounted) (h' : l'.Accounted) (later : Later l l')
    {t : Ticket ν} (mem : t ∈ l.ready) : t ∈ l'.ran.map (·.toTicket) ++ l'.ready := by
  have entered : t ∈ l.entered.flatten := h.inOrder ▸ List.mem_append_right _ mem
  obtain ⟨group, listed, there⟩ := List.mem_flatten.mp entered
  rw [← h'.inOrder]
  exact List.mem_flatten.mpr ⟨group, later.entered.subset listed, there⟩

section
variable {l : Ledger ν}

theorem Accounted.schedule (h : l.Accounted) (doc : Document) (pass : Pass ν) :
    (l.schedule doc pass).Accounted := by
  have placed : ((l.schedule doc pass).tickets.map Ticket.stub).Perm
      (l.scheduled ++ [pass]).zipIdx := by
    rw [List.zipIdx_append, List.zipIdx_singleton, Nat.zero_add]
    exact (l.stubs_schedule doc pass).trans (h.placed.append_right _)
  have older : ∀ t ∈ l.parked, t.number < l.scheduled.length := fun t mem =>
    h.number_lt (by simp [tickets, mem])
  unfold Ledger.schedule at placed ⊢
  dsimp only at placed ⊢
  split
  · next ready =>
    rw [if_pos ready] at placed
    refine ⟨placed, ?_, h.parking, ?_, ?_, h.waitingSeen, h.detachedSeen⟩
    · simp only [List.flatten_append, h.inOrder, List.flatten_singleton, List.append_assoc]
    · intro group mem
      rcases List.mem_append.mp mem with mem | mem
      · exact h.together group mem
      · rw [List.mem_singleton.mp mem]
        exact List.pairwise_singleton ..
    · intro t mem
      rw [List.flatten_append] at mem
      rcases List.mem_append.mp mem with mem | mem
      · exact h.readySeen t mem
      · rw [List.flatten_singleton, List.mem_singleton] at mem
        rw [mem]
        exact ready
  · next waiting =>
    rw [if_neg waiting] at placed
    refine ⟨placed, h.inOrder, ?_, h.together, h.readySeen, ?_, h.detachedSeen⟩
    · rw [List.map_append, List.pairwise_append]
      refine ⟨h.parking, List.pairwise_singleton .., ?_⟩
      intro n mem m mem'
      obtain ⟨t, there, rfl⟩ := List.mem_map.mp mem
      obtain rfl : m = l.scheduled.length := List.mem_singleton.mp mem'
      exact older t there
    · intro t mem
      rcases List.mem_append.mp mem with mem | mem
      · exact h.waitingSeen t mem
      · rw [List.mem_singleton.mp mem]
        exact Bool.eq_false_iff.mpr waiting

theorem Accounted.dropDetached (h : l.Accounted) (doc : Document) :
    (l.dropDetached doc).Accounted := by
  refine ⟨(l.stubs_dropDetached doc).trans h.placed, h.inOrder, ?_, h.together, h.readySeen, ?_, ?_⟩
  · exact h.parking.sublist (List.filter_sublist.map _)
  · exact fun t mem => h.waitingSeen t (List.mem_filter.mp mem).1
  · intro t mem
    rcases List.mem_append.mp mem with mem | mem
    · exact h.detachedSeen t mem
    · obtain ⟨parked, gone, rfl⟩ := List.mem_map.mp mem
      have detached := (List.mem_filter.mp gone).2
      rwa [Bool.not_eq_true'] at detached

theorem Accounted.release (h : l.Accounted) (doc : Document) : (l.release doc).Accounted := by
  have parking : ((l.parked.map (·.seenIn doc)).map (·.number)).Pairwise (· < ·) := by
    rw [List.map_map]
    exact h.parking
  have seen : ∀ t ∈ l.parked.map (·.seenIn doc), t.seen = doc := by
    intro t mem
    obtain ⟨parked, -, rfl⟩ := List.mem_map.mp mem
    rfl
  refine ⟨(l.stubs_release doc).trans h.placed, ?_, ?_, ?_, ?_, ?_, h.detachedSeen⟩
  · simp only [Ledger.release, List.flatten_append, h.inOrder, List.flatten_singleton,
      List.append_assoc]
  · exact parking.sublist (List.filter_sublist.map _)
  · intro group mem
    rcases List.mem_append.mp mem with mem | mem
    · exact h.together group mem
    · rw [List.mem_singleton.mp mem]
      exact parking.sublist (List.filter_sublist.map _)
  · intro t mem
    rw [Ledger.release, List.flatten_append] at mem
    rcases List.mem_append.mp mem with mem | mem
    · exact h.readySeen t mem
    · rw [List.flatten_singleton] at mem
      obtain ⟨there, ready⟩ := List.mem_filter.mp mem
      exact (seen t there).symm ▸ ready
  · intro t mem
    obtain ⟨there, waiting⟩ := List.mem_filter.mp mem
    rw [seen t there]
    simpa using waiting

theorem Accounted.runOldest (h : l.Accounted) (e : Engine ν) (doc : Document)
    (left : Engine ν × Document) : (l.runOldest e doc left).Accounted := by
  have placed := (l.stubs_runOldest e doc left).trans h.placed
  unfold Ledger.runOldest at placed ⊢
  split
  · exact h
  · next ticket ready oldest =>
    rw [oldest] at placed
    refine ⟨placed, ?_, h.parking, h.together, h.readySeen, h.waitingSeen, h.detachedSeen⟩
    rw [h.inOrder, oldest]
    simp

theorem Accounted.unpark (h : l.Accounted) (doc : Document) : (l.unpark doc).Accounted :=
  (h.dropDetached doc).release doc

end

theorem Accounted.step {R : Document → Document → Prop} {now next : Document × Ledger ν}
    (h : now.2.Accounted) (step : Step R now next) : next.2.Accounted := by
  cases step with
  | change => exact h
  | take => exact h
  | takeReady => exact h.unpark _
  | unpark => exact h.unpark _
  | dropDetached => exact h.dropDetached _
  | schedule => exact h.schedule _ _
  | runOldest => exact h.runOldest _ _ _

theorem Accounted.empty : ({} : Ledger ν).Accounted :=
  ⟨.refl _, rfl, .nil, fun _ none => absurd none List.not_mem_nil,
    fun _ none => absurd none List.not_mem_nil, fun _ none => absurd none List.not_mem_nil,
    fun _ none => absurd none List.not_mem_nil⟩

theorem Accounted.path {R : Document → Document → Prop} {now last : Document × Ledger ν}
    (h : now.2.Accounted) (path : Path R now last) : last.2.Accounted := by
  induction path with
  | refl => exact h
  | tail _ step ih => exact ih.step step

/-- What has run on the way is told as it happened. -/
theorem Path.genuine {R : Document → Document → Prop} {now last : Document × Ledger ν}
    (path : Path R now last) :
    ∀ r ∈ last.2.ran, r ∈ now.2.ran ∨ r.left = r.engine.runPass r.found r.pass := by
  induction path with
  | refl => exact fun _ mem => .inl mem
  | tail _ step ih =>
    cases step with
    | schedule doc l pass =>
      have same : (l.schedule doc pass).ran = l.ran := by
        unfold Ledger.schedule
        dsimp only
        split
        · rfl
        · rfl
      exact same ▸ ih
    | runOldest e idle oldest =>
      intro r mem
      simp only [Ledger.runOldest, oldest] at mem
      rcases List.mem_append.mp mem with mem | mem
      · exact ih r mem
      · obtain rfl := List.mem_singleton.mp mem
        exact .inr rfl
    | _ => exact ih

end Ledger

/-! ## The queues of the engine -/

namespace Engine
variable {ν : Type} {e e' : Engine ν} {l : Ledger ν}

structure Holds (e : Engine ν) (l : Ledger ν) : Prop where
  ready : e.ready = l.ready.map (·.pass)
  parked : e.parked = l.parked.map (·.pass)

theorem Holds.same (h : e.Holds l) (same : e'.ready = e.ready ∧ e'.parked = e.parked) :
    e'.Holds l :=
  ⟨same.1.trans h.ready, same.2.trans h.parked⟩

theorem Holds.steady (h : e.Holds l) (steady : Steady e e') : e'.Holds l :=
  h.same ⟨steady.ready, steady.parked⟩

theorem Holds.schedule (h : e.Holds l) (doc : Document) (pass : Pass ν) :
    (e.schedule doc pass).Holds (l.schedule doc pass) := by
  unfold Engine.schedule Ledger.schedule
  dsimp only
  split
  · exact ⟨by simp [h.ready], h.parked⟩
  · exact ⟨h.ready, by simp [h.parked]⟩

theorem Holds.dropDetached (h : e.Holds l) (doc : Document) :
    (e.dropDetached doc).Holds (l.dropDetached doc) := by
  refine ⟨h.ready, ?_⟩
  simp only [Engine.dropDetached, Ledger.dropDetached, h.parked, List.filter_map]
  rfl

theorem Holds.beginTurn (h : e.Holds l) (doc : Document) :
    (e.beginTurn doc).Holds (l.dropDetached doc) := by
  have started : Holds { e with bindings := e.bindings.beginTurn } l := h.same ⟨rfl, rfl⟩
  exact started.dropDetached doc

theorem Holds.unpark (h : e.Holds l) (doc : Document) : (e.unpark doc).Holds (l.unpark doc) := by
  obtain ⟨ready, parked⟩ := h.dropDetached doc
  unfold Engine.unpark Ledger.unpark Ledger.release
  dsimp only
  rw [List.partition_eq_filter_filter, ready, parked]
  refine ⟨?_, ?_⟩
  · simp only [List.map_append, List.filter_map, List.map_map]
    rfl
  · simp only [List.filter_map, List.map_map]
    rfl

theorem Holds.dispatch (h : e.Holds l) (doc : Document) (event : Event) :
    (e.dispatch doc event).1.Holds (e.dispatchLedger doc event l) := by
  have logged : Steady e (e.log (.event event)) := .log e _
  let e₀ := e.log (.event event)
  have changed := logged.trans (e₀.announces_elementChanged doc event.target).1
  have flushed := changed.trans ((e₀.elementChanged doc event.target).flushes_flush doc).1
  have collection : Holds (if e₀.collection.holds doc event.target then
      e₀.collectionChanged doc event.target else (e₀, doc)).1
      (if e.collection.holds doc event.target then
        l.schedule (if e₀.collection.holds doc event.target then
          e₀.collectionChanged doc event.target else (e₀, doc)).2 { container := event.target }
      else l) := by
    by_cases within : e.collection.holds doc event.target
    · have within₀ : e₀.collection.holds doc event.target := within
      rw [if_pos within, if_pos within₀]
      obtain ⟨e₁, steady, -, same⟩ := e₀.collectionChanged_shape doc event.target
      rw [same]
      exact (h.steady (logged.trans (steady.trans (e₁.flushes_flush doc).1))).schedule _ _
    · have within₀ : ¬e₀.collection.holds doc event.target := within
      rw [if_neg within, if_neg within₀]
      exact h.steady logged
  unfold dispatchLedger Engine.dispatch
  cases event.kind with
  | contentLoaded => exact (h.steady logged).schedule doc _
  | componentReady => exact (h.steady logged).unpark doc
  | change => exact h.steady flushed
  | selected => exact h.steady flushed
  | collectionAdd => exact collection
  | collectionRemove => exact collection

end Engine

end FormDependencies
