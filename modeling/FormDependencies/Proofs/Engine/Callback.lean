import FormDependencies.Evaluator.Script
import FormDependencies.Proofs.Document.Forest
import FormDependencies.Proofs.Engine.Conduct

/-!
What the host does at the end of passes. A pass calls it once, with the document that it comes to;
nothing else calls it. So a run stays as it is when other calls take the place of those of waiting
passes, as long as they do the same with the one document that they are given, if they are given
one at all.
-/

namespace FormDependencies
variable {ν : Type}

namespace Pass

def call (pass : Pass ν) (doc : Document) : Document × List ν :=
  match pass.callback with
  | none => (doc, [])
  | some callback => callback doc

/-- The end of the pass: the host is called once, and what it notes is recorded. -/
def conclude (pass : Pass ν) (e : Engine ν) (doc : Document) : Engine ν × Document :=
  ({ e with bindings := e.bindings.recordNotes (pass.call doc).2 }, (pass.call doc).1)

end Pass

namespace Engine

def visit (e : Engine ν) (doc : Document) (container : ElementId) : Engine ν × Document :=
  if doc.isAttached container then e.scan doc container
  else (e.log (.passDetached container), doc)

theorem runPass_eq (e : Engine ν) (doc : Document) (pass : Pass ν) :
    e.runPass doc pass =
      pass.conclude (e.visit doc pass.container).1 (e.visit doc pass.container).2 := by
  unfold runPass Pass.conclude Pass.call visit
  cases pass.callback with
  | none => rfl
  | some callback => rfl

end Engine

def PassRun.shown (r : PassRun ν) : Document :=
  (r.engine.visit r.found r.pass.container).2

/-! ## Other queues -/

namespace Engine

def requeue (e : Engine ν) (ready parked : List (Pass ν)) : Engine ν := { e with ready, parked }

section
variable (e : Engine ν) (doc : Document) (ready parked : List (Pass ν))

@[simp] theorem requeue_recordErrors (errors : List DependencyError) :
    (e.requeue ready parked).recordErrors errors =
      (e.recordErrors errors).requeue ready parked := by
  unfold recordErrors
  induction errors generalizing e with
  | nil => rfl
  | cons error rest ih => exact ih (e.recordError error)

@[simp] theorem requeue_flush :
    (e.requeue ready parked).flush doc =
      ((e.flush doc).1.requeue ready parked, (e.flush doc).2) := by
  let e₁ := { e with bindings := (e.bindings.flush doc e.environment).1 }
  exact congrArg (·, (e.bindings.flush doc e.environment).2.1)
    (e₁.requeue_recordErrors ready parked _)

theorem requeue_registerEach (els : List ElementId) :
    (e.requeue ready parked).registerEach doc els =
      ((e.registerEach doc els).1.requeue ready parked, (e.registerEach doc els).2) := by
  induction els generalizing e with
  | nil => rfl
  | cons el rest ih =>
    have next := ih { e with bindings := (e.bindings.register doc e.accessors e.config el).1 }
    unfold registerEach
    dsimp only [requeue] at next ⊢
    rw [next]

theorem requeue_evaluateEach (ids : List ObserverId) :
    (e.requeue ready parked).evaluateEach doc ids =
      ((e.evaluateEach doc ids).1.requeue ready parked, (e.evaluateEach doc ids).2) := by
  induction ids generalizing e doc with
  | nil => rfl
  | cons id rest ih =>
    have next := ih { e with bindings := (e.bindings.evaluateNow doc e.environment id).1 }
      (e.bindings.evaluateNow doc e.environment id).2.1
    unfold evaluateEach
    dsimp only [requeue, environment] at next ⊢
    rw [next]

theorem requeue_initElement (el : ElementId) :
    (e.requeue ready parked).initElement doc el =
      ((e.initElement doc el).1.requeue ready parked, (e.initElement doc el).2) := by
  have initialized : (e.requeue ready parked).bindings.init doc el
      (e.requeue ready parked).actions (e.requeue ready parked).config =
        e.bindings.init doc el e.actions e.config := rfl
  unfold initElement
  rw [initialized]
  obtain ⟨bindings, error | ids⟩ := e.bindings.init doc el e.actions e.config
  · rfl
  · have each := requeue_evaluateEach { e with bindings } doc ready parked ids
    have recorded := requeue_recordErrors ({ e with bindings }.evaluateEach doc ids).1
    dsimp only [requeue] at each recorded ⊢
    rw [each, recorded]

theorem requeue_initEach (els : List ElementId) :
    (e.requeue ready parked).initEach doc els =
      ((e.initEach doc els).1.requeue ready parked, (e.initEach doc els).2) := by
  induction els generalizing e doc with
  | nil => rfl
  | cons el rest ih =>
    unfold initEach
    rw [requeue_initElement]
    dsimp only
    rw [ih]

theorem requeue_scan (container : ElementId) :
    (e.requeue ready parked).scan doc container =
      ((e.scan doc container).1.requeue ready parked, (e.scan doc container).2) := by
  have registered := requeue_registerEach
    { e with bindings := (e.bindings.actualizeReferences doc).1 } doc ready parked
    (doc.carriers container e.config.referenceAttribute)
  unfold scan
  dsimp only [requeue] at registered ⊢
  rw [registered]
  generalize registerEach _ doc _ = r
  have created := requeue_initEach
    { r.1 with bindings := ((r.1.bindings.actualizeGroups doc).1.actualizeObservers doc).1 } doc
    ready parked (doc.carriers container r.1.config.queryAttribute)
  dsimp only [requeue] at created ⊢
  rw [created]
  generalize initEach _ doc _ = s
  have flushed := requeue_flush s.1 s.2.1 ready parked
  dsimp only [requeue] at flushed ⊢
  rw [flushed]
  rfl

end

end Engine

/-! ## Other calls -/

/-- Other calls for the passes that were scheduled first. -/
structure Exchange (ν : Type) where
  bound : Nat
  callback : Nat → Option (Document → Document × List ν)

namespace Exchange

def pass (x : Exchange ν) (t : Ticket ν) : Pass ν :=
  if t.number < x.bound then { t.pass with callback := x.callback t.number } else t.pass

def engine (x : Exchange ν) (e : Engine ν) (l : Ledger ν) : Engine ν :=
  e.requeue (l.ready.map x.pass) (l.parked.map x.pass)

def Agrees (x : Exchange ν) (r : PassRun ν) : Prop :=
  (x.pass r.toTicket).call r.shown = r.pass.call r.shown

variable (x : Exchange ν)

@[simp] theorem container_pass (t : Ticket ν) : (x.pass t).container = t.pass.container := by
  unfold pass
  split
  · rfl
  · rfl

theorem filter_map_pass (test : ElementId → Bool) (ts : List (Ticket ν)) :
    (ts.map x.pass).filter (fun pass => test pass.container) =
      (ts.filter fun t => test t.pass.container).map x.pass := by
  rw [List.filter_map]
  congr 1
  apply List.filter_congr
  intro t _
  exact congrArg test (x.container_pass t)

variable {e e' : Engine ν} {doc doc' : Document} {l : Ledger ν} {start : Document × Ledger ν}

theorem engine_schedule (later : x.bound ≤ l.scheduled.length) (doc : Document) (pass : Pass ν) :
    (x.engine e l).schedule doc pass = x.engine (e.schedule doc pass) (l.schedule doc pass) := by
  have kept : x.pass ⟨l.scheduled.length, pass, doc⟩ = pass := if_neg (Nat.not_lt.mpr later)
  unfold engine Engine.schedule Ledger.schedule
  dsimp only
  split
  · simp only [Engine.requeue, Engine.log, List.map_append, List.map_cons, List.map_nil, kept]
  · simp only [Engine.requeue, Engine.log, List.map_append, List.map_cons, List.map_nil, kept]

theorem engine_dropDetached (h : e.Holds l) (doc : Document) :
    (x.engine e l).dropDetached doc = x.engine (e.dropDetached doc) (l.dropDetached doc) := by
  have kept := x.filter_map_pass doc.isAttached l.parked
  have gone := x.filter_map_pass (fun el => !doc.isAttached el) l.parked
  simp only [engine, Engine.dropDetached, Ledger.dropDetached, Engine.requeue, h.parked, kept, gone,
    List.filter_map, List.foldl_map, container_pass]
  rfl

theorem engine_unpark (h : e.Holds l) (doc : Document) :
    (x.engine e l).unpark doc = x.engine (e.unpark doc) (l.unpark doc) := by
  unfold Engine.unpark Ledger.unpark
  rw [x.engine_dropDetached h]
  generalize l.dropDetached doc = l
  have released := x.filter_map_pass doc.isReady l.parked
  have waiting := x.filter_map_pass (fun el => !doc.isReady el) l.parked
  simp only [engine, Engine.requeue, Ledger.release, List.partition_eq_filter_filter,
    Function.comp_def, released, waiting, List.filter_map, List.map_map, List.map_append]
  rfl

theorem engine_flush (e : Engine ν) (l : Ledger ν) (doc : Document) :
    (x.engine e l).flush doc = (x.engine (e.flush doc).1 l, (e.flush doc).2) :=
  e.requeue_flush doc _ _

theorem engine_collectionChanged (later : x.bound ≤ l.scheduled.length) (doc : Document)
    (target : ElementId) :
    (x.engine e l).collectionChanged doc target =
      (x.engine (e.collectionChanged doc target).1
        (l.schedule (e.collectionChanged doc target).2 { container := target }),
        (e.collectionChanged doc target).2) := by
  have changed : (x.engine e l).elementChanged doc target =
      x.engine (e.elementChanged doc target) l := rfl
  unfold Engine.collectionChanged
  rw [changed]
  generalize e.elementChanged doc target = e₁
  have same : (x.engine e₁ l).bindings = e₁.bindings := rfl
  dsimp only
  rw [same]
  generalize (Bindings.queueWithin _ doc target).1 = b
  change (((x.engine { e₁ with bindings := b } l).flush doc).1.request _ target none, _) = _
  rw [x.engine_flush]
  exact congrArg (·, _) (x.engine_schedule later _ _)

/-- Of what an event does, the queues only matter where they are changed. -/
theorem engine_dispatch (h : e.Holds l) (later : x.bound ≤ l.scheduled.length) (doc : Document)
    (event : Event) :
    (x.engine e l).dispatch doc event =
      (x.engine (e.dispatch doc event).1 (e.dispatchLedger doc event l),
        (e.dispatch doc event).2) := by
  let e₀ := e.log (.event event)
  have holds : e₀.Holds l := h.same ⟨rfl, rfl⟩
  have flushed := x.engine_flush (e₀.elementChanged doc event.target) l doc
  have collection : (if e₀.collection.holds doc event.target then
        (x.engine e₀ l).collectionChanged doc event.target else (x.engine e₀ l, doc)) =
      (x.engine (if e₀.collection.holds doc event.target then
          e₀.collectionChanged doc event.target else (e₀, doc)).1
        (if e₀.collection.holds doc event.target then
          l.schedule (if e₀.collection.holds doc event.target then
            e₀.collectionChanged doc event.target else (e₀, doc)).2 { container := event.target }
          else l),
        (if e₀.collection.holds doc event.target then
          e₀.collectionChanged doc event.target else (e₀, doc)).2) := by
    split
    · exact x.engine_collectionChanged later doc event.target
    · rfl
  unfold Engine.dispatchLedger
  obtain ⟨target, kind⟩ := event
  cases kind with
  | contentLoaded => exact congrArg (·, doc) (x.engine_schedule (e := e₀) later doc _)
  | componentReady => exact congrArg (·, doc) (x.engine_unpark holds doc)
  | change => exact flushed
  | selected => exact flushed
  | collectionAdd => exact collection
  | collectionRemove => exact collection

theorem engine_visit (e : Engine ν) (l : Ledger ν) (doc : Document) (container : ElementId) :
    (x.engine e l).visit doc container =
      (x.engine (e.visit doc container).1 l, (e.visit doc container).2) := by
  unfold Engine.visit
  split
  · exact e.requeue_scan doc _ _ container
  · rfl

/-- A pass only calls what the host gave it with the document that it shows. -/
theorem engine_runPass (e : Engine ν) (l : Ledger ν) (doc : Document) (t : Ticket ν)
    (agrees : (x.pass t).call (e.visit doc t.pass.container).2 =
      t.pass.call (e.visit doc t.pass.container).2) :
    (x.engine e l).runPass doc (x.pass t) =
      (x.engine (e.runPass doc t.pass).1 l, (e.runPass doc t.pass).2) := by
  rw [Engine.runPass_eq, Engine.runPass_eq, container_pass, engine_visit]
  unfold Pass.conclude
  rw [agrees]
  rfl

theorem engine_step (h : e.Holds l) (later : x.bound ≤ l.scheduled.length)
    (next : e.step? doc = some (e', doc')) (agrees : ∀ r ∈ (e.stepLedger doc l).ran, x.Agrees r) :
    (x.engine e l).step? doc = some (x.engine e' (e.stepLedger doc l), doc') := by
  rcases Engine.step?_eq_some next with
    ⟨event, rest, waiting, same⟩ | ⟨idle, pass, rest, oldest, same⟩
  · have dispatched := x.engine_dispatch h later { doc with outbox := rest } event
    rw [← same] at dispatched
    simp only [Engine.step?, Engine.stepLedger, Document.nextEvent, waiting, dispatched]
  · have queue := h.ready
    rw [oldest] at queue
    cases tickets : l.ready with
    | nil => simp [tickets] at queue
    | cons t ready =>
      rw [tickets] at queue
      obtain ⟨rfl, rfl⟩ := List.cons.inj queue
      simp only [Engine.stepLedger, Document.nextEvent, idle, next] at agrees ⊢
      simp only [Ledger.runOldest, tickets] at agrees ⊢
      have agree := agrees _ (List.mem_append_right _ List.mem_cons_self)
      let e₀ : Engine ν := { e with ready := ready.map (·.pass) }
      have ran := x.engine_runPass e₀ { l with ready } doc t agree
      rw [← same] at ran
      have exchanged : (x.engine e l).ready = x.pass t :: ready.map x.pass := by
        rw [engine, Engine.requeue, tickets, List.map_cons]
      simp only [Engine.step?, Document.nextEvent, idle, exchanged]
      exact congrArg some ran

theorem engine_settle {fuel count : Nat} (h : Engine.Follows start e doc l)
    (later : x.bound ≤ l.scheduled.length)
    (settled : Engine.settle? fuel e doc = some (e', doc', count))
    (agrees : ∀ r ∈ (Engine.settleLedger fuel e doc l).ran, x.Agrees r) :
    Engine.settle? fuel (x.engine e l) doc =
      some (x.engine e' (Engine.settleLedger fuel e doc l), doc', count) := by
  have idle : ∀ {e : Engine ν} {l : Ledger ν} {doc : Document}, e.Holds l → e.step? doc = none →
      (x.engine e l).step? doc = none := by
    intro e l doc h none
    obtain ⟨waiting, oldest⟩ := Engine.step?_eq_none.mp none
    rw [h.ready, List.map_eq_nil_iff] at oldest
    refine Engine.step?_eq_none.mpr ⟨waiting, ?_⟩
    rw [engine, Engine.requeue, oldest, List.map_nil]
  induction fuel generalizing start e doc l count with
  | zero =>
    unfold Engine.settle? at settled
    split at settled
    · next done =>
      obtain ⟨rfl, rfl, rfl⟩ : e = e' ∧ doc = doc' ∧ 0 = count := by simpa using settled
      rw [Engine.settle?, idle h.holds (Option.isNone_iff_eq_none.mp done)]
      rfl
    · cases settled
  | succ fuel ih =>
    unfold Engine.settle? at settled ⊢
    unfold Engine.settleLedger at agrees ⊢
    cases next : e.step? doc with
    | none =>
      simp only [next] at settled
      obtain ⟨rfl, rfl, rfl⟩ : e = e' ∧ doc = doc' ∧ 0 = count := by simpa using settled
      rw [idle h.holds next]
    | some r =>
      simp only [next, Option.map_eq_some_iff] at settled agrees ⊢
      obtain ⟨⟨last, lastDoc, n⟩, settled, same⟩ := settled
      obtain ⟨rfl, rfl, rfl⟩ : last = e' ∧ lastDoc = doc' ∧ n + 1 = count := by simpa using same
      have following := h.here.step Engine.permits_any next
      have after := following.here.settle Engine.permits_any settled
      have first := x.engine_step h.holds later next fun r mem =>
        agrees r (after.later.ran.subset mem)
      have bound := Nat.le_trans later following.later.scheduled.length_le
      have done := ih following bound settled agrees
      simp only [first, done, Option.map_some]

theorem engine_beginTurn (h : e.Holds l) (doc : Document) :
    (x.engine e l).beginTurn doc = x.engine (e.beginTurn doc) (l.dropDetached doc) := by
  have started : Engine.Holds { e with bindings := e.bindings.beginTurn } l := h.same ⟨rfl, rfl⟩
  exact x.engine_dropDetached started doc

theorem engine_pump {fuel count : Nat} (h : Engine.Follows start e doc l)
    (later : x.bound ≤ l.scheduled.length)
    (pumped : e.pump? fuel doc = some (e', doc', count))
    (agrees : ∀ r ∈ (Move.ledger e doc l (.pump fuel)).ran, x.Agrees r) :
    (x.engine e l).pump? fuel doc =
      some (x.engine e' (Move.ledger e doc l (.pump fuel)), doc', count) := by
  obtain ⟨last, settled, rfl⟩ := Engine.pump?_eq_some pumped
  unfold Engine.pump?
  rw [x.engine_beginTurn h.holds, x.engine_settle h.beginTurn later settled agrees, Option.map_some]
  dsimp only
  split
  · rfl
  · rfl

theorem engine_registerAccessor (selector : String) (accessor : Accessor) :
    (x.engine e l).registerAccessor selector accessor =
      (e.registerAccessor selector accessor).map (x.engine · l) := by
  unfold Engine.registerAccessor
  cases Selector.parse selector with
  | error cause => rfl
  | ok selector => rfl

theorem engine_registerAction (raw : String) (action : Action ν) :
    (x.engine e l).registerAction raw action =
      (e.registerAction raw action).map fun r => (x.engine r.1 l, r.2) := by
  have same : (x.engine e l).actions = e.actions := rfl
  unfold Engine.registerAction
  rw [same]
  cases e.actions.register raw action with
  | error cause => rfl
  | ok r => rfl

theorem engine_perform {move : Move ν} (h : Engine.Follows start e doc l)
    (later : x.bound ≤ l.scheduled.length)
    (performed : move.perform? e doc = some (e', doc'))
    (agrees : ∀ r ∈ (move.ledger e doc l).ran, x.Agrees r) :
    move.perform? (x.engine e l) doc = some (x.engine e' (move.ledger e doc l), doc') := by
  cases move with
  | request container callback =>
    obtain ⟨rfl, rfl⟩ := Prod.mk.inj (Option.some.inj performed)
    exact congrArg (fun e => some (e, doc)) (x.engine_schedule later doc _)
  | dispatch event =>
    have dispatched := x.engine_dispatch h.holds later doc event
    rw [Option.some.inj performed] at dispatched
    exact congrArg some dispatched
  | pump fuel =>
    obtain ⟨⟨last, lastDoc, count⟩, pumped, same⟩ := Option.map_eq_some_iff.mp performed
    obtain ⟨rfl, rfl⟩ : last = e' ∧ lastDoc = doc' := by simpa using same
    rw [Move.perform?, x.engine_pump h later pumped agrees, Option.map_some]
  | beginTurn =>
    obtain ⟨rfl, rfl⟩ := Prod.mk.inj (Option.some.inj performed)
    exact congrArg (fun e => some (e, doc)) (x.engine_beginTurn h.holds doc)
  | round => exact x.engine_step h.holds later performed agrees
  | registerAccessor selector accessor =>
    unfold Move.perform? at performed ⊢
    dsimp only at performed ⊢
    rw [x.engine_registerAccessor]
    cases registered : e.registerAccessor selector accessor with
    | error cause =>
      rw [registered] at performed
      obtain ⟨rfl, rfl⟩ := Prod.mk.inj (Option.some.inj performed)
      rfl
    | ok e₁ =>
      rw [registered] at performed
      obtain ⟨rfl, rfl⟩ := Prod.mk.inj (Option.some.inj performed)
      rfl
  | registerAction raw action =>
    unfold Move.perform? at performed ⊢
    dsimp only at performed ⊢
    rw [x.engine_registerAction]
    cases registered : e.registerAction raw action with
    | error cause =>
      rw [registered] at performed
      obtain ⟨rfl, rfl⟩ := Prod.mk.inj (Option.some.inj performed)
      rfl
    | ok r =>
      rw [registered] at performed
      obtain ⟨rfl, rfl⟩ := Prod.mk.inj (Option.some.inj performed)
      rfl
  | takeErrors =>
    obtain ⟨rfl, rfl⟩ := Prod.mk.inj (Option.some.inj performed)
    rfl
  | edit change =>
    obtain ⟨rfl, rfl⟩ := Prod.mk.inj (Option.some.inj performed)
    rfl

theorem engine_run {moves : List (Move ν)} (h : Engine.Follows start e doc l)
    (later : x.bound ≤ l.scheduled.length)
    (ran : e.run? doc moves = some (e', doc'))
    (agrees : ∀ r ∈ (e.runLedger doc l moves).ran, x.Agrees r) :
    (x.engine e l).run? doc moves = some (x.engine e' (e.runLedger doc l moves), doc') := by
  induction moves generalizing start e doc l with
  | nil =>
    obtain ⟨rfl, rfl⟩ : e = e' ∧ doc = doc' := by simpa [Engine.run?] using ran
    rfl
  | cons first rest ih =>
    obtain ⟨⟨e₁, doc₁⟩, performed, ran⟩ := Option.bind_eq_some_iff.mp ran
    unfold Engine.runLedger at agrees ⊢
    rw [performed] at agrees ⊢
    have following := h.here.perform Engine.permits_any (Engine.keeps_any first doc) performed
    have after := following.here.run Engine.permits_any (Engine.conducts_any _ _ rest) ran
    have started := x.engine_perform h later performed fun r mem =>
      agrees r (after.later.ran.subset mem)
    have bound := Nat.le_trans later following.later.scheduled.length_le
    have done := ih following bound ran agrees
    rw [Engine.run?, started]
    exact done

end Exchange

/-! ## Every pass is accounted for -/

namespace Engine

/-- After every run each pass that was ever scheduled is in one place: it is in the queue of ready
passes, or is parked, or has run, or was dropped. What has run did its visit, and then the host was
called once. As the run goes on, nothing of this is taken back, and what is ready is not dropped.
The host is not called otherwise: the run goes on in the same way when other calls take the place of
those of waiting passes, if each does the same with the document that its pass shows it when it
runs; of a pass that does not run the call may be any. -/
theorem passes_accounted (config : Config) (evaluator : Evaluator) (given : Document)
    (moves : List (Move ν)) {e : Engine ν} {doc : Document}
    (ran : runNew? config evaluator given moves = some (e, doc)) :
    let l := runNewLedger config evaluator given moves
    e.Holds l ∧ l.Accounted ∧
      (∀ r ∈ l.ran,
        r.left = r.pass.conclude (r.engine.visit r.found r.pass.container).1 r.shown) ∧
      ∀ (more : List (Move ν)) (e' : Engine ν) (doc' : Document),
        e.run? doc more = some (e', doc') →
        let l' := runNewLedger config evaluator given (moves ++ more)
        l.Later l' ∧ (∀ t ∈ l.ready, t ∈ l'.ran.map (·.toTicket) ++ l'.ready) ∧
          ∀ x : Exchange ν, x.bound ≤ l.scheduled.length → (∀ r ∈ l'.ran, x.Agrees r) →
            (x.engine e l).run? doc more = some (x.engine e' l', doc') := by
  intro l
  have followed := follows_runNew ran
  have accounted := accounted_runNew ran
  refine ⟨followed.holds, accounted, ?_, ?_⟩
  · intro r mem
    rcases followed.path.genuine r mem with none | genuine
    · exact absurd none List.not_mem_nil
    · rw [genuine, runPass_eq]
      rfl
  · intro more e' doc' goesOn l'
    have same : l' = e.runLedger doc l more := runNewLedger_append ran more
    have after := followed.here.run permits_any (conducts_any e doc more) goesOn
    rw [same]
    refine ⟨after.later, ?_, fun x bound agrees => x.engine_run followed bound goesOn agrees⟩
    exact fun t mem => accounted.fate (accounted.path after.path) after.later mem

/-- Two sections that wait for something, passes over them and over a field, and then the first
section is announced and the second one removed. -/
def sectionsWaiting : List (Move Unit) :=
  [.edit (·.editAll [.create "section", .append .root ⟨1⟩, .create "picker", .append ⟨1⟩ ⟨2⟩,
      .setPending ⟨2⟩ true, .create "section", .append .root ⟨3⟩, .create "picker",
      .append ⟨3⟩ ⟨4⟩, .setPending ⟨4⟩ true, .create "input", .append .root ⟨5⟩]),
    .request ⟨1⟩ (some fun doc => (doc, [()])), .request ⟨3⟩ none, .request ⟨5⟩ none,
    .edit (·.editAll [.markReady ⟨2⟩, .remove ⟨3⟩])]

/-- Other calls for these passes. That for the first section is as before unless the second one is
attached, that for the second section is new, and that for the field is none as before. -/
def sectionsExchanged : Exchange Unit where
  bound := 3
  callback
    | 0 => some fun doc => (doc, if doc.isAttached ⟨3⟩ then [] else [()])
    | 1 => some fun _ => (.new, [])
    | _ => none

/-- The pass over the field runs first, and then the one over the first section, which has been
released. The one over the second section is dropped, so that the call for it does not matter. -/
theorem passes_accounted_sectionsWaiting :
    ∃ (e e' : Engine Unit) (doc doc' : Document),
      runNew? .standard (.script .any) .new sectionsWaiting = some (e, doc) ∧
      e.run? doc [.pump 3] = some (e', doc') ∧
      let l := runNewLedger .standard (.script .any) .new sectionsWaiting
      let l' := runNewLedger .standard (.script .any) .new (sectionsWaiting ++ [.pump 3])
      (l'.ran.map (·.number), l'.dropped.map (·.number)) = ([2, 0], [1]) ∧ l.Later l' ∧
        (sectionsExchanged.engine e l).run? doc [.pump 3] =
          some (sectionsExchanged.engine e' l', doc') := by
  let evaluator : Evaluator := .script .any
  let run := runNew? .standard evaluator .new sectionsWaiting
  let l := runNewLedger .standard evaluator .new sectionsWaiting
  let l' := runNewLedger .standard evaluator .new (sectionsWaiting ++ [.pump 3])
  obtain ⟨⟨e, doc⟩, ran⟩ := Option.isSome_iff_exists.mp (show run.isSome by decide +kernel)
  have goesOn : (run.any fun r => (r.1.run? r.2 [.pump 3]).isSome) = true := by decide +kernel
  rw [ran, Option.any_some] at goesOn
  obtain ⟨⟨e', doc'⟩, goesOn⟩ := Option.isSome_iff_exists.mp goesOn
  have checked : (l'.ran.map (·.number), l'.dropped.map (·.number)) = ([2, 0], [1]) ∧
      3 ≤ l.scheduled.length ∧ ∀ r ∈ l'.ran,
        (sectionsExchanged.pass r.toTicket).call r.shown = r.pass.call r.shown := by
    decide +kernel
  obtain ⟨places, bound, agrees⟩ := checked
  obtain ⟨later, -, exchanged⟩ :=
    (passes_accounted .standard evaluator .new sectionsWaiting ran).2.2.2 _ e' doc' goesOn
  exact ⟨e, e', doc, doc', ran, goesOn, places, later, exchanged _ bound agrees⟩

end Engine

end FormDependencies
