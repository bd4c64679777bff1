import FormDependencies.Engine.Run
import FormDependencies.Proofs.Binding.Settlement

/-!
Of what the steps of the engine are made. An event announces changes and then empties the queue; a
pass announces changes, destroys observers, creates others and evaluates each of them at once, and
empties the queue. Nothing else happens to the bindings, apart from what is noted in the journal.
-/

namespace FormDependencies.Engine
variable {ν : Type}

open Bindings (Notes Announces Attempted)

structure SameSetup (e e' : Engine ν) : Prop where
  config : e'.config = e.config
  collection : e'.collection = e.collection
  accessors : e'.accessors = e.accessors
  actions : e'.actions = e.actions
  evaluator : e'.evaluator = e.evaluator

namespace SameSetup
variable {e e' e'' : Engine ν}

theorem update (e : Engine ν) (bindings : Bindings ν) (ready parked : List (Pass ν))
    (errors : List DependencyError) : SameSetup e { e with bindings, ready, parked, errors } :=
  ⟨rfl, rfl, rfl, rfl, rfl⟩

theorem refl (e : Engine ν) : SameSetup e e := .update e ..

theorem trans (first : SameSetup e e') (second : SameSetup e' e'') : SameSetup e e'' :=
  ⟨second.config.trans first.config, second.collection.trans first.collection,
    second.accessors.trans first.accessors, second.actions.trans first.actions,
    second.evaluator.trans first.evaluator⟩

theorem environment (h : SameSetup e e') : e'.environment = e.environment := by
  simp only [Engine.environment, h.config, h.accessors, h.evaluator]

end SameSetup

structure Steady (e e' : Engine ν) : Prop extends SameSetup e e' where
  ready : e'.ready = e.ready
  parked : e'.parked = e.parked

namespace Steady
variable {e e' e'' : Engine ν}

theorem refl (e : Engine ν) : Steady e e := ⟨.refl e, rfl, rfl⟩

theorem bindings (e : Engine ν) (bindings : Bindings ν) : Steady e { e with bindings } :=
  ⟨.update e .., rfl, rfl⟩

theorem trans (first : Steady e e') (second : Steady e' e'') : Steady e e'' :=
  ⟨first.toSameSetup.trans second.toSameSetup, second.ready.trans first.ready,
    second.parked.trans first.parked⟩

theorem log (e : Engine ν) (event : LogEvent) : Steady e (e.log event) := .bindings e _

theorem recordErrors (e : Engine ν) (errors : List DependencyError) :
    Steady e (e.recordErrors errors) := by
  unfold Engine.recordErrors
  induction errors generalizing e with
  | nil => exact refl e
  | cons error rest ih =>
    have first : Steady e (e.recordError error) := ⟨.update e .., rfl, rfl⟩
    exact first.trans (ih _)

end Steady

/-- Nothing has happened to an engine but what is noted in the journal, and passes may have been
rearranged. -/
structure Notes (e e' : Engine ν) : Prop where
  setup : SameSetup e e'
  bindings : Bindings.Notes e.bindings e'.bindings

theorem Notes.refl (e : Engine ν) : Notes e e := ⟨.refl e, .refl e.bindings⟩

theorem Notes.trans {e e' e'' : Engine ν} (first : Notes e e') (second : Notes e' e'') :
    Notes e e'' :=
  ⟨first.setup.trans second.setup, first.bindings.trans second.bindings⟩

/-! ## Notes -/

theorem notes_log (e : Engine ν) {event : LogEvent}
    (plain : (Entry.log (ν := ν) event).isPlain) : Notes e (e.log event) :=
  ⟨.update e .., .record _ plain⟩

theorem notes_recordError (e : Engine ν) (error : DependencyError) :
    Notes e (e.recordError error) :=
  ⟨.update e .., .record _ rfl⟩

theorem notes_recordErrors (e : Engine ν) (errors : List DependencyError) :
    Notes e (e.recordErrors errors) := by
  unfold recordErrors
  induction errors generalizing e with
  | nil => exact .refl e
  | cons error rest ih => exact (e.notes_recordError error).trans (ih _)

theorem notes_schedule (e : Engine ν) (doc : Document) (pass : Pass ν) :
    Notes e (e.schedule doc pass) := by
  unfold schedule
  split
  · exact ⟨.update e .., .record _ rfl⟩
  · exact ⟨.update e .., .record _ rfl⟩

theorem notes_request (e : Engine ν) (doc : Document) (container : ElementId)
    (callback : Option (Document → Document × List ν)) :
    Notes e (e.request doc container callback) :=
  e.notes_schedule doc _

theorem notes_dropDetached (e : Engine ν) (doc : Document) : Notes e (e.dropDetached doc) :=
  ⟨.update e .., .foldl _ (fun b _ => .record b rfl) _ _⟩

theorem notes_unpark (e : Engine ν) (doc : Document) : Notes e (e.unpark doc) :=
  ⟨.update e .., (e.notes_dropDetached doc).bindings⟩

/-! ## Events -/

theorem announces_elementChanged (e : Engine ν) (doc : Document) (target : ElementId) :
    Steady e (e.elementChanged doc target) ∧
      Announces e.bindings (e.elementChanged doc target).bindings := by
  unfold elementChanged
  dsimp only
  refine ⟨.bindings e _, ?_⟩
  apply (Announces.referencesChanged e.bindings doc e.accessors target).trans
  split
  · exact .queueSelfReaders ..
  · exact (Announces.groupsChanged ..).trans (.queueSelfReaders ..)

structure Flushes (env : Environment) (b : Bindings ν) (doc : Document) (e' : Engine ν)
    (doc' : Document) : Prop where
  bindings : Bindings.Notes (b.flush doc env).1 e'.bindings
  document : doc' = (b.flush doc env).2.1

theorem Flushes.after {env : Environment} {b : Bindings ν} {doc doc' : Document}
    {e' e'' : Engine ν} (h : Flushes env b doc e' doc')
    (notes : Bindings.Notes e'.bindings e''.bindings) : Flushes env b doc e'' doc' :=
  ⟨h.bindings.trans notes, h.document⟩

theorem flushes_flush (e : Engine ν) (doc : Document) :
    Steady e (e.flush doc).1 ∧
      Flushes e.environment e.bindings doc (e.flush doc).1 (e.flush doc).2 := by
  let e₁ := { e with bindings := (e.bindings.flush doc e.environment).1 }
  have steady : Steady e e₁ := .bindings e _
  have notes := e₁.notes_recordErrors (e.bindings.flush doc e.environment).2.2.errors
  exact ⟨steady.trans (.recordErrors e₁ _), notes.bindings, rfl⟩

structure Settles (e : Engine ν) (doc : Document) (e' : Engine ν) (doc' : Document) : Prop where
  setup : SameSetup e e'
  flushed : ∃ b, Announces e.bindings b ∧ Flushes e.environment b doc e' doc'

theorem settles_flush {e e₁ : Engine ν} (setup : SameSetup e e₁)
    (announces : Announces e.bindings e₁.bindings) (doc : Document) :
    Settles e doc (e₁.flush doc).1 (e₁.flush doc).2 := by
  obtain ⟨steady, flushes⟩ := e₁.flushes_flush doc
  rw [setup.environment] at flushes
  exact ⟨setup.trans steady.toSameSetup, e₁.bindings, announces, flushes⟩

namespace Settles
variable {e e' e'' : Engine ν} {doc doc' : Document}

theorem before (h : Settles e' doc e'' doc') (setup : SameSetup e e')
    (announces : Announces e.bindings e'.bindings) : Settles e doc e'' doc' := by
  obtain ⟨setup', b, announced, flushes⟩ := h
  rw [setup.environment] at flushes
  exact ⟨setup.trans setup', b, announces.trans announced, flushes⟩

theorem after (h : Settles e doc e' doc') (notes : Notes e' e'') : Settles e doc e'' doc' := by
  obtain ⟨setup, b, announced, flushes⟩ := h
  exact ⟨setup.trans notes.setup, b, announced, flushes.after notes.bindings⟩

end Settles

/-- A change of members announces changes, empties the queue and requests a pass. -/
theorem collectionChanged_shape (e : Engine ν) (doc : Document) (target : ElementId) :
    ∃ e₁, Steady e e₁ ∧ Announces e.bindings e₁.bindings ∧ e.collectionChanged doc target =
      ((e₁.flush doc).1.request (e₁.flush doc).2 target none, (e₁.flush doc).2) := by
  obtain ⟨setup, announces⟩ := e.announces_elementChanged doc target
  have reclaimed := Announces.actualizeReferences (e.elementChanged doc target).bindings doc
  have grouped := Announces.actualizeGroups
    ((e.elementChanged doc target).bindings.actualizeReferences doc).1 doc
  have queued := Announces.queueWithin
    (((e.elementChanged doc target).bindings.actualizeReferences doc).1.actualizeGroups doc).1 doc
    target
  have announced := announces.trans (reclaimed.trans (grouped.trans queued))
  -- only what the changes are matters from here on, not how they come about
  generalize changed :
    ((((e.elementChanged doc target).bindings.actualizeReferences doc).1.actualizeGroups
      doc).1.queueWithin doc target).1 = b at announced
  refine ⟨{ e.elementChanged doc target with bindings := b }, ?_, announced, ?_⟩
  · exact setup.trans (.bindings (e.elementChanged doc target) b)
  · rw [collectionChanged, changed]

theorem settles_collectionChanged (e : Engine ν) (doc : Document) (target : ElementId) :
    Settles e doc (e.collectionChanged doc target).1 (e.collectionChanged doc target).2 := by
  obtain ⟨e₁, steady, announced, same⟩ := e.collectionChanged_shape doc target
  rw [same]
  exact (settles_flush steady.toSameSetup announced doc).after (notes_request _ _ target none)

/-- An event is noted and at most rearranges passes, or changes are announced and the queue is
emptied. -/
theorem dispatch_shape (e : Engine ν) (doc : Document) (event : Event) :
    Notes e (e.dispatch doc event).1 ∧ (e.dispatch doc event).2 = doc ∨
      Settles e doc (e.dispatch doc event).1 (e.dispatch doc event).2 := by
  have noted : Notes e (e.log (.event event)) := e.notes_log rfl
  let e₀ := e.log (.event event)
  have announces := Announces.notes noted.bindings
  have changed := e₀.announces_elementChanged doc event.target
  have flushed := settles_flush (noted.setup.trans changed.1.toSameSetup)
    (announces.trans changed.2) doc
  have collection : Notes e (if e₀.collection.holds doc event.target then
        e₀.collectionChanged doc event.target else (e₀, doc)).1 ∧
      (if e₀.collection.holds doc event.target then
        e₀.collectionChanged doc event.target else (e₀, doc)).2 = doc ∨
      Settles e doc (if e₀.collection.holds doc event.target then
        e₀.collectionChanged doc event.target else (e₀, doc)).1
        (if e₀.collection.holds doc event.target then
          e₀.collectionChanged doc event.target else (e₀, doc)).2 := by
    split
    · exact .inr ((e₀.settles_collectionChanged doc event.target).before noted.setup announces)
    · exact .inl ⟨noted, rfl⟩
  unfold dispatch
  cases event.kind with
  | contentLoaded => exact .inl ⟨noted.trans (notes_request _ doc event.target none), rfl⟩
  | componentReady => exact .inl ⟨noted.trans (notes_unpark _ doc), rfl⟩
  | change => exact .inr flushed
  | selected => exact .inr flushed
  | collectionAdd => exact collection
  | collectionRemove => exact collection

/-! ## Passes -/

theorem announces_registerEach (doc : Document) (els : List ElementId) (e : Engine ν) :
    Steady e (e.registerEach doc els).1 ∧
      Announces e.bindings (e.registerEach doc els).1.bindings := by
  induction els generalizing e with
  | nil => exact ⟨.refl e, .refl e.bindings⟩
  | cons el rest ih =>
    rw [registerEach]
    have registered := Announces.register e.bindings doc e.accessors e.config el
    generalize e.bindings.register doc e.accessors e.config el = r at registered
    obtain ⟨steady, announces⟩ := ih { e with bindings := r.1 }
    exact ⟨(Steady.bindings e r.1).trans steady, registered.trans announces⟩

/-- What attempts carry on holds when all new observers have been attempted. -/
theorem evaluateEach_keeps {env : Environment}
    (P : Bindings ν → Document → List ObserverId → Prop)
    (attempt : ∀ b doc id owed c doc', Attempted b doc env id c doc' →
      P b doc (id :: owed) → P c doc' owed)
    (ids : List ObserverId) {e : Engine ν} {doc : Document} (same : e.environment = env)
    (h : P e.bindings doc ids) :
    Steady e (e.evaluateEach doc ids).1 ∧
      P (e.evaluateEach doc ids).1.bindings (e.evaluateEach doc ids).2.1 [] := by
  induction ids generalizing e doc with
  | nil => exact ⟨.refl e, h⟩
  | cons id rest ih =>
    let e₁ := { e with bindings := (e.bindings.evaluateNow doc e.environment id).1 }
    have steady : Steady e e₁ := .bindings e _
    have attempted := e.bindings.attempted_evaluateNow doc e.environment id
    rw [same] at attempted
    have next : P e₁.bindings (e.bindings.evaluateNow doc e.environment id).2.1 rest := by
      simp only [e₁, same]
      exact attempt _ _ _ _ _ _ attempted h
    obtain ⟨steady', last⟩ := ih (steady.toSameSetup.environment.trans same) next
    exact ⟨steady.trans steady', last⟩

/-- What the creation of observers carries on, which are then owed an evaluation each. -/
structure Carried (env : Environment) (actions : ActionTable ν)
    (P : Bindings ν → Document → List ObserverId → Prop) : Prop where
  note : ∀ b c doc owed, Bindings.Notes b c → P b doc owed → P c doc owed
  destroy : ∀ b doc el, P b doc [] → P (b.destroyElement el).1 doc []
  create : ∀ (b : Bindings ν) doc el signature replaced target prepared,
    Bindings.targetOf doc el env.config = .ok target →
    Bindings.prepareEach actions (doc.declarations el env.config) = .ok prepared →
    signature = doc.declarationSignature el env.config → P b doc [] →
    let destroyed := (b.destroyElement el).1
    let added := Bindings.observersFrom doc el env.config target destroyed.nextObserver prepared
    P (destroyed.addObservers el signature replaced added) doc (added.map (·.id))
  attempt : ∀ b doc id owed c doc', Attempted b doc env id c doc' →
    P b doc (id :: owed) → P c doc' owed

section
variable {env : Environment} {actions : ActionTable ν}
  {P : Bindings ν → Document → List ObserverId → Prop}

theorem initElement_keeps (carried : Carried env actions P) {e : Engine ν} {doc : Document}
    (same : e.environment = env) (known : e.actions = actions) (el : ElementId)
    (h : P e.bindings doc []) :
    Steady e (e.initElement doc el).1 ∧
      P (e.initElement doc el).1.bindings (e.initElement doc el).2.1 [] := by
  have config : e.config = env.config := congrArg Environment.config same
  -- what is left when the observers of the element are there
  have created : ∀ (b : Bindings ν) (ids : List ObserverId), P b doc ids →
      let r := { e with bindings := b }.evaluateEach doc ids
      Steady e (r.1.recordErrors r.2.2) ∧ P (r.1.recordErrors r.2.2).bindings r.2.1 [] := by
    intro b ids h
    have steady : Steady e { e with bindings := b } := .bindings e b
    obtain ⟨steady', last⟩ := evaluateEach_keeps P carried.attempt ids
      (steady.toSameSetup.environment.trans same) h
    have notes := notes_recordErrors ({ e with bindings := b }.evaluateEach doc ids).1
      ({ e with bindings := b }.evaluateEach doc ids).2.2
    exact ⟨(steady.trans steady').trans (.recordErrors _ _),
      carried.note _ _ _ _ notes.bindings last⟩
  unfold initElement
  rcases Bindings.init_cases e.bindings doc el e.actions e.config with
    ⟨-, kept⟩ | ⟨-, ⟨error, failed, -⟩ | ⟨target, prepared, targeted, read, added⟩⟩
  · rw [kept]
    exact created _ _ h
  · rw [failed]
    let b := (e.bindings.destroyElement el).1
    have notes := notes_recordError { e with bindings := b } error
    exact ⟨(Steady.bindings e b).trans ⟨notes.setup, rfl, rfl⟩,
      carried.note _ _ _ _ notes.bindings (carried.destroy _ doc el h)⟩
  · rw [added]
    apply created _ _
    rw [config] at targeted read ⊢
    rw [known] at read
    exact carried.create _ doc el _ _ target prepared targeted read rfl h

theorem initEach_keeps (carried : Carried env actions P) (els : List ElementId) {e : Engine ν}
    {doc : Document} (same : e.environment = env) (known : e.actions = actions)
    (h : P e.bindings doc []) :
    Steady e (e.initEach doc els).1 ∧
      P (e.initEach doc els).1.bindings (e.initEach doc els).2.1 [] := by
  induction els generalizing e doc with
  | nil => exact ⟨.refl e, h⟩
  | cons el rest ih =>
    rw [initEach]
    obtain ⟨steady, first⟩ := initElement_keeps carried same known el h
    generalize e.initElement doc el = r at steady first
    obtain ⟨steady', last⟩ :=
      ih (steady.toSameSetup.environment.trans same) (steady.actions.trans known) first
    exact ⟨steady.trans steady', last⟩

end

/-- What a pass begins with: references are reclaimed and those of the container registered, and the
groups are computed anew. -/
def announced (e : Engine ν) (doc : Document) (container : ElementId) : Engine ν :=
  let registered := ({ e with bindings := (e.bindings.actualizeReferences doc).1 }.registerEach doc
    (doc.carriers container e.config.referenceAttribute)).1
  { registered with bindings := (registered.bindings.actualizeGroups doc).1 }

theorem announces_announced (e : Engine ν) (doc : Document) (container : ElementId) :
    Steady e (e.announced doc container) ∧
      Announces e.bindings (e.announced doc container).bindings := by
  let b := (e.bindings.actualizeReferences doc).1
  obtain ⟨steady, registered⟩ := announces_registerEach doc
    (doc.carriers container e.config.referenceAttribute) { e with bindings := b }
  have reclaimed := Announces.actualizeReferences e.bindings doc
  exact ⟨(Steady.bindings e b).trans (steady.trans (.bindings _ _)),
    reclaimed.trans (registered.trans (Announces.actualizeGroups _ doc))⟩

/-- Then a pass destroys the observers of detached elements, creates new ones and evaluates them,
and empties the queue. -/
theorem scan_shape (e : Engine ν) (doc : Document) (container : ElementId) :
    let e₁ := e.announced doc container
    let created := { e₁ with bindings := (e₁.bindings.actualizeObservers doc).1 }.initEach doc
      (doc.carriers container e.config.queryAttribute)
    ∃ event : LogEvent, (Entry.log (ν := ν) event).isPlain ∧ e.scan doc container =
      ((created.1.flush created.2.1).1.log event, (created.1.flush created.2.1).2) := by
  have config : (e.announced doc container).config = e.config :=
    (e.announces_announced doc container).1.config
  rw [← config]
  exact ⟨_, rfl, by rw [scan]; rfl⟩

/-- What announcements start and the creation of observers carries on holds when the queue of a pass
is to be emptied. -/
theorem scan_keeps {P : Bindings ν → Document → List ObserverId → Prop} {e : Engine ν}
    {doc : Document} (container : ElementId) (carried : Carried e.environment e.actions P)
    (start : P (e.announced doc container).bindings doc []) :
    ∃ b doc₁, P b doc₁ [] ∧ Steady e (e.scan doc container).1 ∧
      Flushes e.environment b doc₁ (e.scan doc container).1 (e.scan doc container).2 := by
  have steady := (e.announces_announced doc container).1
  obtain ⟨event, plain, same⟩ := e.scan_shape doc container
  have destroyed : P ((e.announced doc container).bindings.actualizeObservers doc).1 doc [] :=
    Bindings.actualizeObservers_keeps (P · doc []) (fun b el _ h => carried.destroy b doc el h)
      (fun b _ _ h => carried.note _ _ _ _ (.record b rfl) h) start
  generalize ((e.announced doc container).bindings.actualizeObservers doc).1 = b₁ at same destroyed
  let e₁ := { e.announced doc container with bindings := b₁ }
  have steady₁ : Steady e e₁ := steady.trans (.bindings _ b₁)
  let els := doc.carriers container e.config.queryAttribute
  obtain ⟨steady₂, created⟩ := initEach_keeps carried els steady₁.toSameSetup.environment
    steady₁.actions destroyed
  generalize e₁.initEach doc els = r at steady₂ created same
  have steady₂ := steady₁.trans steady₂
  obtain ⟨steady₃, flushes⟩ := r.1.flushes_flush r.2.1
  have noted := (r.1.flush r.2.1).1.notes_log plain
  rw [steady₂.toSameSetup.environment] at flushes
  rw [same]
  exact ⟨r.1.bindings, r.2.1, created, steady₂.trans (steady₃.trans (.log _ event)),
    flushes.after noted.bindings⟩

/-- A pass over an attached container is a scan, and then the host may change the document. -/
theorem runPass_shape (e : Engine ν) (doc : Document) (pass : Pass ν) :
    ∃ (e₁ : Engine ν) (doc₁ : Document),
      ((e₁, doc₁) = e.scan doc pass.container ∨
        Steady e e₁ ∧ Bindings.Notes e.bindings e₁.bindings ∧ doc₁ = doc) ∧
      Steady e₁ (e.runPass doc pass).1 ∧
      Bindings.Notes e₁.bindings (e.runPass doc pass).1.bindings ∧
      (pass.callback = none ∧ (e.runPass doc pass).2 = doc₁ ∨
        ∃ callback, pass.callback = some callback ∧
          (e.runPass doc pass).2 = (callback doc₁).1) := by
  unfold runPass
  obtain ⟨r, before⟩ : ∃ r, r = if doc.isAttached pass.container then e.scan doc pass.container
    else (e.log (.passDetached pass.container), doc) := ⟨_, rfl⟩
  rw [← before]
  refine ⟨r.1, r.2, ?_, ?_⟩
  · by_cases attached : doc.isAttached pass.container
    · rw [if_pos attached] at before
      exact .inl before
    · rw [if_neg attached] at before
      rw [before]
      exact .inr ⟨.log e _, .record _ rfl, rfl⟩
  · cases pass.callback with
    | none => exact ⟨.refl _, .refl _, .inl ⟨rfl, rfl⟩⟩
    | some callback =>
      exact ⟨.bindings r.1 _, .recordNotes r.1.bindings (callback r.2).2, .inr ⟨callback, rfl, rfl⟩⟩

/-! ## Rounds -/

/-- A round takes the oldest event, or else the oldest ready pass. -/
theorem step?_eq_some {e e' : Engine ν} {doc doc' : Document} (h : e.step? doc = some (e', doc')) :
    (∃ event rest, doc.outbox = event :: rest ∧
        (e', doc') = e.dispatch { doc with outbox := rest } event) ∨
      doc.outbox = [] ∧ ∃ pass rest, e.ready = pass :: rest ∧
        (e', doc') = { e with ready := rest }.runPass doc pass := by
  unfold step? Document.nextEvent at h
  cases waiting : doc.outbox with
  | cons event rest =>
    simp only [waiting, Option.some.injEq] at h
    exact .inl ⟨event, rest, rfl, h.symm⟩
  | nil =>
    simp only [waiting] at h
    cases ready : e.ready with
    | nil => simp [ready] at h
    | cons pass rest =>
      simp only [ready, Option.some.injEq] at h
      exact .inr ⟨rfl, pass, rest, rfl, h.symm⟩

theorem step?_eq_none {e : Engine ν} {doc : Document} :
    e.step? doc = none ↔ doc.outbox = [] ∧ e.ready = [] := by
  unfold step? Document.nextEvent
  cases doc.outbox with
  | cons event rest => simp
  | nil => cases e.ready <;> simp

/-- What every round keeps holds when a turn is over. -/
theorem settle?_keeps {P : Engine ν → Document → Prop}
    (step : ∀ e doc e' doc', e.step? doc = some (e', doc') → P e doc → P e' doc') {fuel : Nat}
    {e e' : Engine ν} {doc doc' : Document} {count : Nat}
    (h : settle? fuel e doc = some (e', doc', count)) (start : P e doc) :
    P e' doc' ∧ e'.step? doc' = none := by
  induction fuel generalizing e doc count with
  | zero =>
    unfold settle? at h
    split at h
    · next done =>
      obtain ⟨rfl, rfl, -⟩ : e = e' ∧ doc = doc' ∧ 0 = count := by simpa using h
      exact ⟨start, Option.isNone_iff_eq_none.mp done⟩
    · cases h
  | succ fuel ih =>
    unfold settle? at h
    cases next : e.step? doc with
    | none =>
      simp only [next] at h
      obtain ⟨rfl, rfl, -⟩ : e = e' ∧ doc = doc' ∧ 0 = count := by simpa using h
      exact ⟨start, next⟩
    | some r =>
      simp only [next, Option.map_eq_some_iff] at h
      obtain ⟨⟨last, lastDoc, n⟩, h, same⟩ := h
      obtain ⟨rfl, rfl, -⟩ : last = e' ∧ lastDoc = doc' ∧ n + 1 = count := by simpa using same
      exact ih h (step e doc r.1 r.2 next start)

theorem pump?_keeps {P : Engine ν → Document → Prop} {e : Engine ν} {doc : Document}
    (step : ∀ e doc e' doc', e.step? doc = some (e', doc') → P e doc → P e' doc')
    (log : ∀ (e : Engine ν) doc event, (Entry.log (ν := ν) event).isPlain → P e doc →
      P (e.log event) doc)
    {fuel : Nat} {e' : Engine ν} {doc' : Document} {count : Nat}
    (h : pump? fuel e doc = some (e', doc', count)) (start : P (e.beginTurn doc) doc) :
    P e' doc' := by
  obtain ⟨⟨last, lastDoc, n⟩, settled, same⟩ := Option.map_eq_some_iff.mp h
  obtain ⟨rfl, rfl, -⟩ :
      (if n = 0 then last else last.log (.pumped n)) = e' ∧ lastDoc = doc' ∧ n = count := by
    simpa using same
  have done := (settle?_keeps step settled start).1
  split
  · exact done
  · exact log last lastDoc _ rfl done

/-! ## Runs -/

theorem create_eq {config : Config} {evaluator : Evaluator} {e : Engine ν}
    (h : create config evaluator = .ok e) :
    ∃ collection, config.collection = .ok collection ∧
      e = { config, collection, evaluator
            bindings := AccessorTable.builtinRegistrations.foldl Bindings.log {} } := by
  unfold create at h
  cases read : config.collection with
  | error cause =>
    rw [read] at h
    cases h
  | ok collection =>
    rw [read] at h
    exact ⟨collection, rfl, (Except.ok.inj h).symm⟩

theorem notes_create {config : Config} {evaluator : Evaluator} {e : Engine ν}
    (h : create config evaluator = .ok e) : Bindings.Notes Bindings.empty e.bindings := by
  obtain ⟨collection, -, rfl⟩ := create_eq h
  refine .logs _ _ fun event mem => ?_
  obtain ⟨entry, -, rfl⟩ := List.mem_map.mp mem
  rfl

theorem notes_registerAccessor {selector : String} {accessor : Accessor} {e e' : Engine ν}
    (h : e.registerAccessor selector accessor = .ok e') :
    Bindings.Notes e.bindings e'.bindings ∧ e'.config = e.config := by
  unfold registerAccessor at h
  cases read : Selector.parse selector with
  | error cause =>
    rw [read] at h
    cases h
  | ok selector =>
    rw [read] at h
    obtain rfl := Except.ok.inj h
    exact ⟨.record _ rfl, rfl⟩

theorem notes_registerAction {raw name : String} {action : Action ν} {e e' : Engine ν}
    (h : e.registerAction raw action = .ok (e', name)) :
    Bindings.Notes e.bindings e'.bindings ∧ e'.config = e.config := by
  unfold registerAction at h
  cases registered : e.actions.register raw action with
  | error cause =>
    rw [registered] at h
    cases h
  | ok r =>
    obtain ⟨actions, given⟩ := r
    simp only [registered, bind, Except.bind, pure, Except.pure, Except.ok.injEq,
      Prod.mk.injEq] at h
    obtain ⟨rfl, -⟩ := h
    have plain : ∀ event ∈ e.actions.registration raw given,
        (Entry.log (ν := ν) event).isPlain := by
      intro event mem
      rcases List.mem_append.mp mem with mem | mem
      · split at mem
        · exact absurd mem List.not_mem_nil
        · exact List.mem_singleton.mp mem ▸ rfl
      · split at mem
        · exact List.mem_singleton.mp mem ▸ rfl
        · exact absurd mem List.not_mem_nil
    dsimp only
    exact ⟨.logs e.bindings (e.actions.registration raw given) plain, rfl⟩

/-- A move other than an event, a turn or a round only makes notes. -/
theorem perform?_shape {move : Move ν} {e e' : Engine ν} {doc doc' : Document}
    (h : move.perform? e doc = some (e', doc')) :
    (Bindings.Notes e.bindings e'.bindings ∧ e'.config = e.config) ∨
      (∃ event, move = .dispatch event ∧ e.dispatch doc event = (e', doc')) ∨
      (∃ fuel count, move = .pump fuel ∧ e.pump? fuel doc = some (e', doc', count)) ∨
      (move = .beginTurn ∧ e' = e.beginTurn doc ∧ doc' = doc) ∨
      move = .round ∧ e.step? doc = some (e', doc') := by
  cases move with
  | request container callback =>
    obtain ⟨rfl, -⟩ := Prod.mk.inj (Option.some.inj h)
    have notes := e.notes_request doc container callback
    exact .inl ⟨notes.bindings, notes.setup.config⟩
  | dispatch event => exact .inr (.inl ⟨event, rfl, Option.some.inj h⟩)
  | pump fuel =>
    obtain ⟨⟨last, lastDoc, count⟩, pumped, same⟩ := Option.map_eq_some_iff.mp h
    obtain ⟨rfl, rfl⟩ : last = e' ∧ lastDoc = doc' := by simpa using same
    exact .inr (.inr (.inl ⟨fuel, count, rfl, pumped⟩))
  | beginTurn =>
    obtain ⟨rfl, rfl⟩ := Prod.mk.inj (Option.some.inj h)
    exact .inr (.inr (.inr (.inl ⟨rfl, rfl, rfl⟩)))
  | round => exact .inr (.inr (.inr (.inr ⟨rfl, h⟩)))
  | registerAccessor selector accessor =>
    unfold Move.perform? at h
    dsimp only at h
    cases registered : e.registerAccessor selector accessor with
    | error cause =>
      rw [registered] at h
      obtain ⟨rfl, -⟩ := Prod.mk.inj (Option.some.inj h)
      exact .inl ⟨.refl _, rfl⟩
    | ok e₁ =>
      rw [registered] at h
      obtain ⟨rfl, -⟩ := Prod.mk.inj (Option.some.inj h)
      exact .inl (notes_registerAccessor registered)
  | registerAction raw action =>
    unfold Move.perform? at h
    dsimp only at h
    cases registered : e.registerAction raw action with
    | error cause =>
      rw [registered] at h
      obtain ⟨rfl, -⟩ := Prod.mk.inj (Option.some.inj h)
      exact .inl ⟨.refl _, rfl⟩
    | ok r =>
      rw [registered] at h
      obtain ⟨rfl, -⟩ := Prod.mk.inj (Option.some.inj h)
      exact .inl (notes_registerAction registered)
  | takeErrors =>
    obtain ⟨rfl, -⟩ := Prod.mk.inj (Option.some.inj h)
    exact .inl ⟨.refl _, rfl⟩
  | edit change =>
    obtain ⟨rfl, -⟩ := Prod.mk.inj (Option.some.inj h)
    exact .inl ⟨.refl _, rfl⟩

/-- What every move keeps holds after every run. -/
theorem run?_keeps {P : Engine ν → Document → Prop} (moves : List (Move ν))
    (move : ∀ m ∈ moves, ∀ e doc e' doc', m.perform? e doc = some (e', doc') → P e doc → P e' doc')
    {e e' : Engine ν} {doc doc' : Document} (h : e.run? doc moves = some (e', doc'))
    (start : P e doc) : P e' doc' := by
  induction moves generalizing e doc with
  | nil =>
    obtain ⟨rfl, rfl⟩ : e = e' ∧ doc = doc' := by simpa [run?] using h
    exact start
  | cons first rest ih =>
    obtain ⟨⟨e₁, doc₁⟩, performed, ran⟩ := Option.bind_eq_some_iff.mp h
    exact ih (fun m mem => move m (List.mem_cons_of_mem _ mem)) ran
      (move first List.mem_cons_self e doc e₁ doc₁ performed start)

theorem runNew?_eq_some {config : Config} {evaluator : Evaluator} {given : Document}
    {moves : List (Move ν)} {r : Engine ν × Document} :
    runNew? config evaluator given moves = some r ↔
      ∃ start, create config evaluator = .ok start ∧ start.run? given moves = some r := by
  unfold runNew?
  cases create config evaluator with
  | ok e => simp
  | error cause => simp

end FormDependencies.Engine
