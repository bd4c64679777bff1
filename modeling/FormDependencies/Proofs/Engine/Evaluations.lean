import FormDependencies.Proofs.Binding.Supply
import FormDependencies.Proofs.Engine.Step

/-!
The evaluations of a run, in order, each with what it finds. They are those that the journal tells
of. At each of them every reference and every group has a slot of its own.
-/

namespace FormDependencies

structure Evaluation (ν : Type) where
  environment : Environment
  bindings : Bindings ν
  document : Document
  observer : Observer ν

namespace Evaluation
variable {ν : Type}

def handed (v : Evaluation ν) : ReferenceValues :=
  (v.bindings.rebind v.document v.environment.accessors v.observer).2

def supply (v : Evaluation ν) (token : ReferenceToken) : List (ElementId × Value) :=
  v.bindings.supply v.document v.environment.accessors v.observer.element token

def outcome (v : Evaluation ν) : Document :=
  (v.bindings.evaluateObserver v.document v.environment v.observer).2.1

structure Sound (v : Evaluation ν) : Prop where
  allotted : v.bindings.Allotted
  there : v.observer ∈ v.bindings.observers
  attached : v.document.isAttached v.observer.element

end Evaluation

namespace Bindings
variable {ν : Type}

/-- The evaluation that an attempt comes to. There is none when the limit refuses it, and none of an
observer that is missing or whose element is detached. -/
def evaluation? (b : Bindings ν) (doc : Document) (env : Environment) (id : ObserverId) :
    Option (Evaluation ν) :=
  if b.isLimited env.config id then none
  else
    match (b.countTurn id).observer? id with
    | none => none
    | some o => if doc.isAttached o.element then some ⟨env, b.countTurn id, doc, o⟩ else none

def flushEachEvaluations (b : Bindings ν) (doc : Document) (env : Environment) :
    List ObserverId → List (Evaluation ν)
  | [] => []
  | id :: rest =>
    let (c, doc', _) := b.flushOne doc env {} id
    (b.evaluation? doc env id).toList ++ c.flushEachEvaluations doc' env rest

def flushEvaluations (b : Bindings ν) (doc : Document) (env : Environment) :
    List (Evaluation ν) :=
  flushEachEvaluations { b with pending := [] } doc env b.pending

end Bindings

namespace Engine
variable {ν : Type}

def evaluateEachEvaluations (e : Engine ν) (doc : Document) :
    List ObserverId → List (Evaluation ν)
  | [] => []
  | id :: rest =>
    let (bindings, doc', _) := e.bindings.evaluateNow doc e.environment id
    (e.bindings.evaluation? doc e.environment id).toList ++
      { e with bindings }.evaluateEachEvaluations doc' rest

def initElementEvaluations (e : Engine ν) (doc : Document) (el : ElementId) :
    List (Evaluation ν) :=
  match e.bindings.init doc el e.actions e.config with
  | (_, .error _) => []
  | (bindings, .ok ids) => { e with bindings }.evaluateEachEvaluations doc ids

def initEachEvaluations (e : Engine ν) (doc : Document) : List ElementId → List (Evaluation ν)
  | [] => []
  | el :: rest =>
    let (e', doc', _) := e.initElement doc el
    e.initElementEvaluations doc el ++ e'.initEachEvaluations doc' rest

def scanEvaluations (e : Engine ν) (doc : Document) (container : ElementId) :
    List (Evaluation ν) :=
  let e := e.announced doc container
  let e := { e with bindings := (e.bindings.actualizeObservers doc).1 }
  let els := doc.carriers container e.config.queryAttribute
  let (e', doc', _) := e.initEach doc els
  e.initEachEvaluations doc els ++ e'.bindings.flushEvaluations doc' e'.environment

def runPassEvaluations (e : Engine ν) (doc : Document) (pass : Pass ν) : List (Evaluation ν) :=
  if doc.isAttached pass.container then e.scanEvaluations doc pass.container else []

def collectionAnnounced (e : Engine ν) (doc : Document) (target : ElementId) : Bindings ν :=
  let bindings := ((e.elementChanged doc target).bindings.actualizeReferences doc).1
  let bindings := (bindings.actualizeGroups doc).1
  (bindings.queueWithin doc target).1

def dispatchEvaluations (e : Engine ν) (doc : Document) (event : Event) : List (Evaluation ν) :=
  let e := e.log (.event event)
  match event.kind with
  | .contentLoaded | .componentReady => []
  | .change | .selected =>
    (e.elementChanged doc event.target).bindings.flushEvaluations doc e.environment
  | .collectionAdd | .collectionRemove =>
    if e.collection.holds doc event.target then
      (e.collectionAnnounced doc event.target).flushEvaluations doc e.environment
    else []

def stepEvaluations (e : Engine ν) (doc : Document) : List (Evaluation ν) :=
  match doc.nextEvent with
  | (doc, some event) => e.dispatchEvaluations doc event
  | (doc, none) =>
    match e.ready with
    | pass :: ready => { e with ready }.runPassEvaluations doc pass
    | [] => []

def settleEvaluations : Nat → Engine ν → Document → List (Evaluation ν)
  | 0, _, _ => []
  | fuel + 1, e, doc =>
    match e.step? doc with
    | none => []
    | some (e', doc') => e.stepEvaluations doc ++ settleEvaluations fuel e' doc'

end Engine

def Move.evaluations {ν : Type} (e : Engine ν) (doc : Document) : Move ν → List (Evaluation ν)
  | .dispatch event => e.dispatchEvaluations doc event
  | .pump fuel => Engine.settleEvaluations fuel (e.beginTurn doc) doc
  | .round => e.stepEvaluations doc
  | .request _ _ | .beginTurn | .registerAccessor _ _ | .registerAction _ _ | .takeErrors
  | .edit _ => []

namespace Engine
variable {ν : Type}

def runEvaluations (e : Engine ν) (doc : Document) : List (Move ν) → List (Evaluation ν)
  | [] => []
  | move :: rest =>
    move.evaluations e doc ++
      match move.perform? e doc with
      | none => []
      | some (e', doc') => e'.runEvaluations doc' rest

def runNewEvaluations (config : Config) (evaluator : Evaluator) (given : Document)
    (moves : List (Move ν)) : List (Evaluation ν) :=
  match create config evaluator with
  | .ok e => e.runEvaluations given moves
  | .error _ => []

end Engine

/-! ## Attempts -/

namespace Bindings
variable {ν : Type}

/-- Attempts to evaluate observers one after the other, with the evaluations that they come to. An
observer that is not there may be passed over. -/
inductive Attempts (env : Environment) : List ObserverId → Bindings ν → Document →
    List (Evaluation ν) → Bindings ν → Document → Prop
  | done (b : Bindings ν) (doc : Document) : Attempts env [] b doc [] b doc
  | absent {b c : Bindings ν} {doc doc' : Document} {id : ObserverId} {ids : List ObserverId}
    {vs : List (Evaluation ν)} (missing : b.observer? id = none)
    (rest : Attempts env ids b doc vs c doc') : Attempts env (id :: ids) b doc vs c doc'
  | attempt {b c d : Bindings ν} {doc doc' doc'' : Document} {id : ObserverId}
    {ids : List ObserverId} {vs : List (Evaluation ν)} (there : Attempted b doc env id c doc')
    (rest : Attempts env ids c doc' vs d doc'') :
    Attempts env (id :: ids) b doc ((b.evaluation? doc env id).toList ++ vs) d doc''

variable {env : Environment} {b c : Bindings ν} {doc doc' : Document}

/-- What attempts carry on whose evaluations are as `V` says holds when all have been made. -/
theorem Attempts.keeps {V : Evaluation ν → Prop}
    {P : Bindings ν → Document → List ObserverId → Prop}
    (absent : ∀ b doc id owed, b.observer? id = none → P b doc (id :: owed) → P b doc owed)
    (attempt : ∀ b doc id owed c doc', Attempted b doc env id c doc' →
      (∀ v ∈ b.evaluation? doc env id, V v) → P b doc (id :: owed) → P c doc' owed)
    {ids : List ObserverId} {vs : List (Evaluation ν)} (attempts : Attempts env ids b doc vs c doc')
    (such : ∀ v ∈ vs, V v) (start : P b doc ids) : P c doc' [] := by
  induction attempts with
  | done => exact start
  | absent missing _ ih => exact ih such (absent _ _ _ _ missing start)
  | attempt there _ ih =>
    refine ih (fun v mem => such v (List.mem_append_right _ mem))
      (attempt _ _ _ _ _ _ there (fun v mem => such v ?_) start)
    exact List.mem_append_left _ (Option.mem_toList.mpr mem)

theorem evaluation?_of_absent {id : ObserverId} (missing : b.observer? id = none)
    (doc : Document) (env : Environment) : b.evaluation? doc env id = none := by
  unfold evaluation?
  split
  · rfl
  · rw [show (b.countTurn id).observer? id = none from missing]

theorem attempts_flushEach (ids : List ObserverId) (b : Bindings ν) (doc : Document)
    (report : FlushReport) :
    Attempts env ids b doc (b.flushEachEvaluations doc env ids)
      (b.flushEach doc env report ids).1 (b.flushEach doc env report ids).2.1 := by
  induction ids generalizing b doc report with
  | nil => exact .done b doc
  | cons id rest ih =>
    unfold flushEachEvaluations flushEach
    dsimp only
    rcases b.flushOne_cases doc env report id with ⟨missing, same, same'⟩ | ⟨there, same, same'⟩
    · rcases b.flushOne_cases doc env {} id with ⟨-, first, first'⟩ | ⟨there, -⟩
      · rw [same, same', first, first', evaluation?_of_absent missing]
        exact .absent missing (ih _ _ _)
      · rw [missing] at there
        cases there
    · rcases b.flushOne_cases doc env {} id with ⟨missing, -⟩ | ⟨-, first, first'⟩
      · rw [missing] at there
        cases there
      · rw [same, same', first, first']
        exact .attempt (b.attempted_evaluateNow doc env id) (ih _ _ _)

theorem attempts_flush (b : Bindings ν) (doc : Document) (env : Environment) :
    Attempts env b.pending { b with pending := [] } doc (b.flushEvaluations doc env)
      (b.flush doc env).1 (b.flush doc env).2.1 :=
  attempts_flushEach b.pending _ doc {}

/-! ## The journal -/

theorem evaluated_evaluateObserver (h : b.Placed) (doc : Document) (env : Environment)
    (o : Observer ν) : (b.evaluateObserver doc env o).1.evaluated = b.evaluated ++ [o.id] := by
  let l := b.lookUp doc env.accessors o
  let recorded := l.bindings.record (.lookedUp o.id l.readings)
  have looked : recorded.evaluated = b.evaluated ++ [o.id] := by
    rw [evaluated_record, (lookUp_faithful h doc env.accessors o).history.evaluated]
    rfl
  obtain ⟨slots, epochs, rebound, -⟩ := b.rebind_eq doc env.accessors o
  obtain ⟨change, added, same, -, silent, -⟩ := b.evaluateObserver_eq doc env o
  have nothing : added.filterMap Entry.evaluated? = [] :=
    List.filterMap_eq_nil_iff.mpr fun entry mem => (silent entry mem).1
  rw [same, rebound, ← looked]
  simp only [evaluated, List.filterMap_append, nothing, List.nil_append]
  rfl

theorem evaluation?_eq_some {id : ObserverId} {v : Evaluation ν} :
    b.evaluation? doc env id = some v ↔
      b.isLimited env.config id = false ∧ ∃ o, b.observer? id = some o ∧
        doc.isAttached o.element ∧ v = ⟨env, b.countTurn id, doc, o⟩ := by
  have same : (b.countTurn id).observer? id = b.observer? id := rfl
  unfold evaluation?
  rw [same]
  cases b.isLimited env.config id with
  | true => simp
  | false =>
    cases b.observer? id with
    | none => simp
    | some o => by_cases attached : doc.isAttached o.element <;> simp [attached, eq_comm (b := v)]

theorem sameHistory_actualizeObservers (b : Bindings ν) (doc : Document) :
    SameHistory b (b.actualizeObservers doc).1 := by
  refine actualizeObservers_keeps (SameHistory b) ?_ ?_ (.of_eq rfl)
  · intro c el _ same
    exact same.trans (sameHistory_destroyElement c el)
  · intro c count live same
    exact same.trans (.record rfl)

theorem sameHistory_init (b : Bindings ν) (doc : Document) (el : ElementId)
    (actions : ActionTable ν) (config : Config) :
    SameHistory b (b.init doc el actions config).1 := by
  have destroyed := sameHistory_destroyElement b el
  rcases b.init_cases doc el actions config with
    ⟨-, same⟩ | ⟨-, ⟨error, same, -⟩ | ⟨target, prepared, -, -, same⟩⟩
  · rw [same]
    exact .of_eq rfl
  · rw [same]
    exact destroyed
  · rw [same]
    exact destroyed.trans (SameHistory.trans (.record rfl) (.of_eq rfl))

/-- Something has happened to some bindings with the evaluations `vs` on the way. What each of them
found was in order, and the journal tells of just these. -/
structure Proceeds (b : Bindings ν) (vs : List (Evaluation ν)) (c : Bindings ν) : Prop where
  allotted : c.Allotted
  sound : ∀ v ∈ vs, v.Sound
  evaluated : c.evaluated = b.evaluated ++ vs.map (·.observer.id)

namespace Proceeds
variable {d : Bindings ν} {vs ws : List (Evaluation ν)}

theorem quiet (allotted : c.Allotted) (history : SameHistory b c) : Proceeds b [] c :=
  ⟨allotted, fun _ none => absurd none List.not_mem_nil,
    history.evaluated.trans (List.append_nil _).symm⟩

theorem trans (first : Proceeds b vs c) (second : Proceeds c ws d) : Proceeds b (vs ++ ws) d where
  allotted := second.allotted
  sound v mem := (List.mem_append.mp mem).elim (first.sound v) (second.sound v)
  evaluated := by
    rw [second.evaluated, first.evaluated, List.map_append, List.append_assoc]

theorem after (h : Proceeds b vs c) (allotted : d.Allotted) (history : SameHistory c d) :
    Proceeds b vs d := by
  have whole := h.trans (quiet allotted history)
  rwa [List.append_nil] at whole

theorem notes (h : Proceeds b vs c) (notes : Notes c d) : Proceeds b vs d :=
  h.after (h.allotted.same (.notes notes)) notes.history

theorem attempt {id : ObserverId} (h : b.Allotted) (attempted : Attempted b doc env id c doc') :
    Proceeds b (b.evaluation? doc env id).toList c := by
  have allotted := h.attempt attempted
  cases attempted with
  | refused limited =>
    have none : b.evaluation? doc env id = none := if_pos limited
    rw [none]
    refine ⟨allotted, fun _ none => absurd none List.not_mem_nil, ?_⟩
    exact (b.enterTurn id).evaluated_record
      (.log (.cascadeLimit id env.config.cascadeLimit.toNat))
  | missing _ absent =>
    rw [evaluation?_of_absent absent]
    exact quiet allotted (.of_eq rfl)
  | detached _ o found loose =>
    have none : b.evaluation? doc env id = none := by
      rw [Option.eq_none_iff_forall_ne_some]
      intro v some
      obtain ⟨-, o', found', attached, -⟩ := evaluation?_eq_some.mp some
      obtain rfl := Option.some.inj (found.symm.trans found')
      rw [loose] at attached
      cases attached
    rw [none]
    exact quiet allotted ((SameHistory.of_eq rfl).trans (sameHistory_destroyElement _ o.element))
  | evaluated free o found attached =>
    have some := evaluation?_eq_some.mpr ⟨free, o, found, attached, rfl⟩
    have counted : (b.countTurn id).Allotted := h.same (.of_slots rfl rfl rfl)
    rw [some]
    refine ⟨allotted, fun v mem => ?_, evaluated_evaluateObserver counted.placed doc env o⟩
    obtain rfl := List.mem_singleton.mp mem
    exact ⟨counted, (mem_of_observer? found).1, attached⟩

theorem attempts {ids : List ObserverId} (h : b.Allotted)
    (attempts : Attempts env ids b doc vs c doc') : Proceeds b vs c := by
  induction attempts with
  | done b _ => exact quiet h (.of_eq rfl)
  | absent _ _ ih => exact ih h
  | attempt there _ ih =>
    have first := attempt h there
    exact first.trans (ih first.allotted)

theorem flush (h : b.Allotted) (doc : Document) (env : Environment) :
    Proceeds b (b.flushEvaluations doc env) (b.flush doc env).1 := by
  have idle : ({ b with pending := [] } : Bindings ν).Allotted := h.same (.of_slots rfl rfl rfl)
  have all := attempts idle (b.attempts_flush doc env)
  exact ⟨all.allotted, all.sound, all.evaluated⟩

end Proceeds

end Bindings

namespace Engine
variable {ν : Type}

open Bindings (Attempts)

theorem attempts_evaluateEach (ids : List ObserverId) (e : Engine ν) (doc : Document) :
    Attempts e.environment ids e.bindings doc (e.evaluateEachEvaluations doc ids)
      (e.evaluateEach doc ids).1.bindings (e.evaluateEach doc ids).2.1 := by
  induction ids generalizing e doc with
  | nil => exact .done e.bindings doc
  | cons id rest ih =>
    let e₁ := { e with bindings := (e.bindings.evaluateNow doc e.environment id).1 }
    have later := ih e₁ (e.bindings.evaluateNow doc e.environment id).2.1
    exact .attempt (e.bindings.attempted_evaluateNow doc e.environment id) later

/-! ## Slots stay allotted -/

section
variable {e : Engine ν}

theorem allotted_elementChanged (h : e.bindings.Allotted) (doc : Document) (target : ElementId) :
    (e.elementChanged doc target).bindings.Allotted := by
  have reread := h.referencesChanged doc e.accessors target
  unfold elementChanged
  dsimp only
  split
  · exact reread.same (.queueWhere _ _)
  · exact (reread.groupsChanged doc target _).same (.queueWhere _ _)

theorem allotted_collectionAnnounced (h : e.bindings.Allotted) (doc : Document)
    (target : ElementId) : (e.collectionAnnounced doc target).Allotted :=
  (((allotted_elementChanged h doc target).actualizeReferences doc).actualizeGroups doc).same
    (.queueWhere _ _)

theorem announces_collectionAnnounced (e : Engine ν) (doc : Document) (target : ElementId) :
    Bindings.Announces e.bindings (e.collectionAnnounced doc target) :=
  (e.announces_elementChanged doc target).2.trans
    ((Bindings.Announces.actualizeReferences _ doc).trans
      ((Bindings.Announces.actualizeGroups _ doc).trans (.queueWithin _ doc target)))

theorem collectionChanged_eq (e : Engine ν) (doc : Document) (target : ElementId) :
    let r := { e.elementChanged doc target with
      bindings := e.collectionAnnounced doc target }.flush doc
    e.collectionChanged doc target = (r.1.request r.2 target none, r.2) := by
  unfold collectionAnnounced
  rw [collectionChanged]

theorem allotted_registerEach (doc : Document) (els : List ElementId) {e : Engine ν}
    (h : e.bindings.Allotted) : (e.registerEach doc els).1.bindings.Allotted := by
  induction els generalizing e with
  | nil => exact h
  | cons el rest ih =>
    have registered := h.register doc e.accessors e.config el
    rw [registerEach]
    generalize e.bindings.register doc e.accessors e.config el = r at registered
    exact ih (e := { e with bindings := r.1 }) registered

theorem allotted_announced (h : e.bindings.Allotted) (doc : Document) (container : ElementId) :
    (e.announced doc container).bindings.Allotted :=
  (allotted_registerEach doc _ (h.actualizeReferences doc)).actualizeGroups doc

end

/-! ## Runs -/

section
variable {e e' : Engine ν} {doc doc' : Document}

open Bindings (Proceeds)

theorem proceeds_flush (h : e.bindings.Allotted) (doc : Document) :
    Proceeds e.bindings (e.bindings.flushEvaluations doc e.environment)
      (e.flush doc).1.bindings :=
  (Proceeds.flush h doc e.environment).notes (e.flushes_flush doc).2.bindings

theorem proceeds_initElement (h : e.bindings.Allotted) (doc : Document) (el : ElementId) :
    Proceeds e.bindings (e.initElementEvaluations doc el) (e.initElement doc el).1.bindings := by
  have allotted := h.same (.init e.bindings doc el e.actions e.config)
  have history := Bindings.sameHistory_init e.bindings doc el e.actions e.config
  unfold initElementEvaluations initElement
  cases made : e.bindings.init doc el e.actions e.config with
  | mk b result =>
    rw [made] at allotted history
    have started : Proceeds e.bindings [] b := .quiet allotted history
    cases result with
    | error error =>
      exact started.notes (notes_recordError { e with bindings := b } error).bindings
    | ok ids =>
      have attempted := Proceeds.attempts (b := b) allotted
        (attempts_evaluateEach ids { e with bindings := b } doc)
      exact (started.trans attempted).notes (notes_recordErrors _ _).bindings

theorem proceeds_initEach (els : List ElementId) {e : Engine ν} (h : e.bindings.Allotted)
    (doc : Document) :
    Proceeds e.bindings (e.initEachEvaluations doc els) (e.initEach doc els).1.bindings := by
  induction els generalizing e doc with
  | nil => exact .quiet h (.of_eq rfl)
  | cons el rest ih =>
    have first := proceeds_initElement h doc el
    exact first.trans (ih first.allotted _)

theorem proceeds_scan (h : e.bindings.Allotted) (doc : Document) (container : ElementId) :
    Proceeds e.bindings (e.scanEvaluations doc container) (e.scan doc container).1.bindings := by
  obtain ⟨steady, announces⟩ := e.announces_announced doc container
  have allotted := allotted_announced h doc container
  obtain ⟨event, plain, same⟩ := e.scan_shape doc container
  rw [← steady.config] at same
  rw [same]
  unfold scanEvaluations
  generalize e.announced doc container = e₁ at steady announces allotted
  have destroyed : Proceeds e.bindings [] (e₁.bindings.actualizeObservers doc).1 := by
    apply Proceeds.quiet (allotted.same (.actualizeObservers _ doc))
    exact announces.history.trans (Bindings.sameHistory_actualizeObservers _ doc)
  let e₂ := { e₁ with bindings := (e₁.bindings.actualizeObservers doc).1 }
  let els := doc.carriers container e₁.config.queryAttribute
  have created : Proceeds e₂.bindings (e₂.initEachEvaluations doc els)
      (e₂.initEach doc els).1.bindings := proceeds_initEach els destroyed.allotted doc
  have flushed := proceeds_flush created.allotted (e₂.initEach doc els).2.1
  exact (destroyed.trans (created.trans flushed)).notes (notes_log _ plain).bindings

theorem proceeds_runPass (h : e.bindings.Allotted) (doc : Document) (pass : Pass ν) :
    Proceeds e.bindings (e.runPassEvaluations doc pass) (e.runPass doc pass).1.bindings := by
  have before : Proceeds e.bindings (e.runPassEvaluations doc pass)
      (if doc.isAttached pass.container then e.scan doc pass.container
        else (e.log (.passDetached pass.container), doc)).1.bindings := by
    unfold runPassEvaluations
    split
    · exact proceeds_scan h doc pass.container
    · exact (Proceeds.quiet h (.of_eq rfl)).notes (e.notes_log rfl).bindings
  unfold runPass
  dsimp only
  cases pass.callback with
  | none => exact before
  | some callback => exact before.notes (.recordNotes _ _)

theorem proceeds_changed {e₁ : Engine ν} (setup : SameSetup e e₁)
    (announces : Bindings.Announces e.bindings e₁.bindings) (allotted : e₁.bindings.Allotted)
    (doc : Document) :
    Proceeds e.bindings (e₁.bindings.flushEvaluations doc e.environment)
      (e₁.flush doc).1.bindings := by
  have started := Proceeds.quiet allotted announces.history
  rw [← setup.environment]
  exact started.trans (proceeds_flush allotted doc)

theorem proceeds_dispatch (h : e.bindings.Allotted) (doc : Document) (event : Event) :
    Proceeds e.bindings (e.dispatchEvaluations doc event) (e.dispatch doc event).1.bindings := by
  have noted : Notes e (e.log (.event event)) := e.notes_log rfl
  have logged : (e.log (.event event)).bindings.Allotted := h.same (.notes noted.bindings)
  have quiet : Proceeds e.bindings [] (e.log (.event event)).bindings :=
    .quiet logged noted.bindings.history
  unfold dispatchEvaluations dispatch
  dsimp only
  generalize e.log (.event event) = e₀ at logged quiet
  have changed : Proceeds e.bindings
      ((e₀.elementChanged doc event.target).bindings.flushEvaluations doc e₀.environment)
      ((e₀.elementChanged doc event.target).flush doc).1.bindings := by
    obtain ⟨steady, announces⟩ := e₀.announces_elementChanged doc event.target
    exact quiet.trans (proceeds_changed steady.toSameSetup announces
      (allotted_elementChanged logged doc event.target) doc)
  have collection : Proceeds e.bindings
      (if e₀.collection.holds doc event.target then
        (e₀.collectionAnnounced doc event.target).flushEvaluations doc e₀.environment
        else [])
      (if e₀.collection.holds doc event.target then e₀.collectionChanged doc event.target
        else (e₀, doc)).1.bindings := by
    split
    · have steady := (e₀.announces_elementChanged doc event.target).1
      have announces := e₀.announces_collectionAnnounced doc event.target
      have allotted := allotted_collectionAnnounced logged doc event.target
      rw [collectionChanged_eq]
      generalize e₀.collectionAnnounced doc event.target = b at announces allotted
      generalize e₀.elementChanged doc event.target = e₁ at steady
      have flushed := proceeds_changed (steady.trans (.bindings e₁ b)).toSameSetup announces
        allotted doc
      exact (quiet.trans flushed).notes (notes_request _ _ _ _).bindings
    · exact quiet
  cases event.kind with
  | contentLoaded => exact quiet.notes (notes_request _ _ _ _).bindings
  | componentReady => exact quiet.notes (notes_unpark _ _).bindings
  | change => exact changed
  | selected => exact changed
  | collectionAdd => exact collection
  | collectionRemove => exact collection

theorem proceeds_step (h : e.bindings.Allotted) (next : e.step? doc = some (e', doc')) :
    Proceeds e.bindings (e.stepEvaluations doc) e'.bindings := by
  unfold stepEvaluations Document.nextEvent
  rcases step?_eq_some next with ⟨event, rest, waiting, same⟩ | ⟨empty, pass, rest, ready, same⟩
  · rw [waiting]
    have dispatched := proceeds_dispatch h { doc with outbox := rest } event
    rwa [← same] at dispatched
  · rw [empty]
    dsimp only
    rw [ready]
    have ran := proceeds_runPass (e := { e with ready := rest }) h doc pass
    rwa [← same] at ran

theorem stepEvaluations_of_none (next : e.step? doc = none) : e.stepEvaluations doc = [] := by
  obtain ⟨empty, idle⟩ := step?_eq_none.mp next
  unfold stepEvaluations Document.nextEvent
  rw [empty]
  dsimp only
  rw [idle]

theorem proceeds_beginTurn (h : e.bindings.Allotted) (doc : Document) :
    Proceeds e.bindings [] (e.beginTurn doc).bindings := by
  have begun : Proceeds e.bindings [] e.bindings.beginTurn :=
    .quiet (h.same (.of_slots rfl rfl rfl)) (.of_eq rfl)
  exact begun.notes (notes_dropDetached { e with bindings := e.bindings.beginTurn } doc).bindings

theorem proceeds_settle (fuel : Nat) {e : Engine ν} (h : e.bindings.Allotted) (doc : Document) :
    (∀ v ∈ settleEvaluations fuel e doc, v.Sound) ∧
      ∀ e' doc' count, settle? fuel e doc = some (e', doc', count) →
        Proceeds e.bindings (settleEvaluations fuel e doc) e'.bindings := by
  induction fuel generalizing e doc with
  | zero =>
    refine ⟨fun _ none => absurd none List.not_mem_nil, fun e' doc' count settled => ?_⟩
    unfold settle? at settled
    split at settled
    · obtain ⟨rfl, -⟩ := Prod.mk.inj (Option.some.inj settled)
      exact .quiet h (.of_eq rfl)
    · cases settled
  | succ fuel ih =>
    unfold settleEvaluations settle?
    cases next : e.step? doc with
    | none =>
      refine ⟨fun _ none => absurd none List.not_mem_nil, fun e' doc' count settled => ?_⟩
      obtain ⟨rfl, -⟩ := Prod.mk.inj (Option.some.inj settled)
      exact .quiet h (.of_eq rfl)
    | some r =>
      have first := proceeds_step h next
      obtain ⟨sound, rest⟩ := ih first.allotted r.2
      constructor
      · intro v mem
        exact (List.mem_append.mp mem).elim (first.sound v) (sound v)
      · intro e' doc' count settled
        obtain ⟨⟨last, lastDoc, n⟩, ended, same⟩ := Option.map_eq_some_iff.mp settled
        obtain ⟨rfl, -⟩ := Prod.mk.inj same
        exact first.trans (rest _ _ _ ended)

theorem proceeds_perform (h : e.bindings.Allotted) (doc : Document) (move : Move ν) :
    (∀ v ∈ move.evaluations e doc, v.Sound) ∧
      ∀ e' doc', move.perform? e doc = some (e', doc') →
        Proceeds e.bindings (move.evaluations e doc) e'.bindings := by
  have none : ∀ v ∈ ([] : List (Evaluation ν)), v.Sound := fun _ none =>
    absurd none List.not_mem_nil
  have quiet : ∀ e' doc', move.perform? e doc = some (e', doc') →
      (∀ event, move ≠ .dispatch event) → (∀ fuel, move ≠ .pump fuel) → move ≠ .round →
      Proceeds e.bindings [] e'.bindings := by
    intro e' doc' performed dispatch pump round
    rcases perform?_shape performed with ⟨notes, -⟩ | ⟨event, same, -⟩ | ⟨fuel, -, same, -⟩ |
      ⟨-, rfl, -⟩ | ⟨same, -⟩
    · exact .quiet (h.same (.notes notes)) notes.history
    · exact absurd same (dispatch event)
    · exact absurd same (pump fuel)
    · exact proceeds_beginTurn h doc
    · exact absurd same round
  cases move with
  | dispatch event =>
    have dispatched := proceeds_dispatch h doc event
    refine ⟨dispatched.sound, fun e' doc' performed => ?_⟩
    obtain ⟨rfl, -⟩ := Prod.mk.inj (Option.some.inj performed)
    exact dispatched
  | pump fuel =>
    have begun := proceeds_beginTurn h doc
    obtain ⟨sound, ended⟩ := proceeds_settle fuel begun.allotted doc
    refine ⟨sound, fun e' doc' performed => ?_⟩
    obtain ⟨⟨last, lastDoc, count⟩, pumped, same⟩ := Option.map_eq_some_iff.mp performed
    obtain ⟨rfl, -⟩ := Prod.mk.inj same
    obtain ⟨⟨_, _, n⟩, settled, same⟩ := Option.map_eq_some_iff.mp pumped
    obtain ⟨rfl, -⟩ := Prod.mk.inj same
    have whole := begun.trans (ended _ _ _ settled)
    split
    · exact whole
    · exact whole.notes (notes_log _ rfl).bindings
  | round =>
    unfold Move.evaluations Move.perform?
    cases next : e.step? doc with
    | none =>
      rw [stepEvaluations_of_none next]
      exact ⟨none, fun _ _ none => nomatch none⟩
    | some r =>
      have stepped := proceeds_step h next
      refine ⟨stepped.sound, fun e' doc' same => ?_⟩
      obtain ⟨rfl, -⟩ := Prod.mk.inj (Option.some.inj same)
      exact stepped
  | request => exact ⟨none, fun _ _ performed => quiet _ _ performed nofun nofun nofun⟩
  | beginTurn => exact ⟨none, fun _ _ performed => quiet _ _ performed nofun nofun nofun⟩
  | registerAccessor => exact ⟨none, fun _ _ performed => quiet _ _ performed nofun nofun nofun⟩
  | registerAction => exact ⟨none, fun _ _ performed => quiet _ _ performed nofun nofun nofun⟩
  | takeErrors => exact ⟨none, fun _ _ performed => quiet _ _ performed nofun nofun nofun⟩
  | edit => exact ⟨none, fun _ _ performed => quiet _ _ performed nofun nofun nofun⟩

theorem proceeds_run (moves : List (Move ν)) {e : Engine ν} (h : e.bindings.Allotted)
    (doc : Document) :
    (∀ v ∈ e.runEvaluations doc moves, v.Sound) ∧
      ∀ e' doc', e.run? doc moves = some (e', doc') →
        Proceeds e.bindings (e.runEvaluations doc moves) e'.bindings := by
  induction moves generalizing e doc with
  | nil =>
    refine ⟨fun _ none => absurd none List.not_mem_nil, fun e' doc' ran => ?_⟩
    obtain ⟨rfl, -⟩ := Prod.mk.inj (Option.some.inj ran)
    exact .quiet h (.of_eq rfl)
  | cons move rest ih =>
    obtain ⟨sound, first⟩ := proceeds_perform h doc move
    unfold runEvaluations run?
    cases performed : move.perform? e doc with
    | none =>
      rw [List.append_nil]
      refine ⟨sound, fun e' doc' none => ?_⟩
      cases none
    | some r =>
      have done := first _ _ performed
      obtain ⟨sound', later⟩ := ih done.allotted r.2
      constructor
      · intro v mem
        exact (List.mem_append.mp mem).elim (sound v) (sound' v)
      · intro e' doc' ran
        exact done.trans (later _ _ ran)

/-- What every evaluation of a run finds is in order, and the journal tells of the evaluations in
order. -/
theorem proceeds_runNew (config : Config) (evaluator : Evaluator) (given : Document)
    (moves : List (Move ν)) :
    (∀ v ∈ runNewEvaluations config evaluator given moves, v.Sound) ∧
      ∀ e doc, runNew? config evaluator given moves = some (e, doc) →
        e.bindings.Allotted ∧ e.bindings.evaluated =
          (runNewEvaluations config evaluator given moves).map (·.observer.id) := by
  unfold runNewEvaluations runNew?
  cases created : create config evaluator with
  | error cause => exact ⟨fun _ none => absurd none List.not_mem_nil, fun _ _ none => nomatch none⟩
  | ok start =>
    have notes := notes_create created
    have allotted : start.bindings.Allotted := Bindings.Allotted.start.same (.notes notes)
    obtain ⟨sound, ended⟩ := proceeds_run moves allotted given
    refine ⟨sound, fun e doc ran => ?_⟩
    have proceeds := ended e doc ran
    refine ⟨proceeds.allotted, ?_⟩
    rw [proceeds.evaluated, notes.history.evaluated]
    rfl

theorem allotted_of_reachable (h : e.Reachable doc) : e.bindings.Allotted := by
  obtain ⟨config, evaluator, given, moves, ran⟩ := h
  exact ((proceeds_runNew config evaluator given moves).2 e doc ran).1

end

end Engine

end FormDependencies
