import FormDependencies.Proofs.Binding.Standing
import FormDependencies.Proofs.Engine.Evaluations
import FormDependencies.Proofs.Engine.Once
import FormDependencies.Proofs.Engine.Registration
import FormDependencies.Proofs.Engine.Scan

/-!
Engines that stand as a document has them. A pass leaves its container so when the actions on the
way spare the tree and the declarations in the container. A further pass over what stands finds
nothing to do: it only reports again what is wrong about declarations.
-/

namespace FormDependencies

def Evaluation.Spares {ν : Type} (v : Evaluation ν) (els : List ElementId) : Prop :=
  v.document.DeclaresAlike v.environment.config els v.outcome

namespace Engine
variable {ν : Type}

open Bindings (Attempted Attempts SameReferences)

/-- All references, groups and observers are those of a document as far as a container goes, but for
flaws that have been reported. Nobody waits. -/
structure Standing (e : Engine ν) (doc : Document) (container : ElementId)
    (reported : List DependencyError) : Prop where
  grounded : e.bindings.Grounded doc
  borne : ∀ el ∈ doc.carriers container e.config.referenceAttribute,
    e.bindings.Bears doc e.accessors e.config el
  attached : ∀ el entry, e.bindings.declared? el = some entry → doc.isAttached el
  answered : ∀ el ∈ doc.carriers container e.config.queryAttribute,
    e.bindings.Answered doc e.actions e.config reported el
  idle : e.bindings.pending = []

/-! ## A pass over what stands -/

/-- Nothing has happened to an engine but notes, and flaws of elements that were reported before
have been reported again. -/
structure Repeats (doc : Document) (els : List ElementId) (reported : List DependencyError)
    (e e' : Engine ν) : Prop where
  steady : Steady e e'
  bindings : Bindings.Notes e.bindings e'.bindings
  errors : ∃ again, e'.errors = e.errors ++ again ∧
    ∀ error ∈ again, error ∈ reported ∧ ∃ el ∈ els, doc.flaw? e.actions e.config el = some error

section
variable {doc : Document} {els : List ElementId} {reported : List DependencyError}
  {e e' e'' : Engine ν}

theorem Repeats.of_notes (steady : Steady e e') (notes : Bindings.Notes e.bindings e'.bindings)
    (errors : e'.errors = e.errors) : Repeats doc els reported e e' := by
  refine ⟨steady, notes, [], ?_, ?_⟩
  · rw [errors, List.append_nil]
  · intro error none
    exact absurd none List.not_mem_nil

theorem Repeats.trans (first : Repeats doc els reported e e')
    (second : Repeats doc els reported e' e'') : Repeats doc els reported e e'' := by
  obtain ⟨earlier, errors, known⟩ := first.errors
  obtain ⟨later, errors', known'⟩ := second.errors
  refine ⟨first.steady.trans second.steady, first.bindings.trans second.bindings,
    earlier ++ later, ?_, ?_⟩
  · rw [errors', errors, List.append_assoc]
  · intro error mem
    rcases List.mem_append.mp mem with mem | mem
    · exact known error mem
    · rw [← first.steady.actions, ← first.steady.config]
      exact known' error mem

theorem notes_registerEach (doc : Document) (els : List ElementId) {e : Engine ν}
    (borne : ∀ el ∈ els, e.bindings.Bears doc e.accessors e.config el) :
    Bindings.Notes e.bindings (e.registerEach doc els).1.bindings := by
  induction els generalizing e with
  | nil => exact .refl e.bindings
  | cons el rest ih =>
    obtain ⟨first, others⟩ := List.forall_mem_cons.mp borne
    have registered := first.register
    rw [registerEach]
    generalize e.bindings.register doc e.accessors e.config el = r at registered
    have later := ih (e := { e with bindings := r.1 }) fun el mem =>
      (others el mem).same (.of_sources (.notes registered))
    exact registered.trans later

/-- To bring up to date what stands changes nothing. -/
theorem Standing.notes_announced {container : ElementId}
    (h : e.Standing doc container reported) :
    Bindings.Notes e.bindings (e.announced doc container).bindings := by
  have registered := notes_registerEach doc _ h.borne
  have grounded := h.grounded.same (.notes registered)
  unfold announced
  rw [h.grounded.actualizeReferences]
  exact registered.trans grounded.actualizeGroups

theorem initElement_of_answered {el : ElementId}
    (answered : e.bindings.Answered doc e.actions e.config reported el) :
    e.initElementEvaluations doc el = [] ∧ (e.initElement doc el).2.1 = doc ∧
      ((e.initElement doc el).1 = e ∨
        ∃ error ∈ reported, doc.flaw? e.actions e.config el = some error ∧
          (e.initElement doc el).1 = e.recordError error) := by
  unfold initElementEvaluations initElement
  rcases answered.init with kept | ⟨error, mem, flaw, failed⟩
  · rw [kept]
    exact ⟨rfl, rfl, .inl rfl⟩
  · rw [failed]
    exact ⟨rfl, rfl, .inr ⟨error, mem, flaw, rfl⟩⟩

theorem initEach_of_answered (els : List ElementId) {e : Engine ν}
    (answered : ∀ el ∈ els, e.bindings.Answered doc e.actions e.config reported el) :
    e.initEachEvaluations doc els = [] ∧ (e.initEach doc els).2.1 = doc ∧
      Repeats doc els reported e (e.initEach doc els).1 := by
  induction els generalizing e with
  | nil => exact ⟨rfl, rfl, .of_notes (.refl e) (.refl e.bindings) rfl⟩
  | cons el rest ih =>
    obtain ⟨own, others⟩ := List.forall_mem_cons.mp answered
    obtain ⟨none, same, first⟩ := initElement_of_answered own
    have repeated : Repeats doc (el :: rest) reported e (e.initElement doc el).1 := by
      rcases first with kept | ⟨error, mem, flaw, failed⟩
      · rw [kept]
        exact .of_notes (.refl e) (.refl e.bindings) rfl
      · rw [failed]
        have notes := e.notes_recordError error
        refine ⟨⟨notes.setup, rfl, rfl⟩, notes.bindings, [error], rfl, ?_⟩
        intro other listed
        obtain rfl := List.mem_singleton.mp listed
        exact ⟨mem, el, List.mem_cons_self, flaw⟩
    unfold initEachEvaluations initEach
    rw [none]
    generalize e.initElement doc el = r at same repeated
    obtain ⟨e₁, doc₁, n⟩ := r
    obtain rfl : doc₁ = doc := same
    have still : ∀ el ∈ rest, e₁.bindings.Answered doc₁ e₁.actions e₁.config reported el := by
      intro el mem
      rw [repeated.steady.actions, repeated.steady.config]
      have declared := (Bindings.Announces.notes repeated.bindings).declared
      exact (others el mem).same (Bindings.declared?_congr declared el) (List.Subset.refl _)
    obtain ⟨none', same', later⟩ := ih still
    obtain ⟨again, errors, known⟩ := later.errors
    refine ⟨none', same', repeated.trans ⟨later.steady, later.bindings, again, errors, ?_⟩⟩
    intro error mem
    obtain ⟨before, owner, listed, flaw⟩ := known error mem
    exact ⟨before, owner, List.mem_cons_of_mem _ listed, flaw⟩

theorem flush_of_idle (idle : e.bindings.pending = []) (doc : Document) :
    e.flush doc = (e, doc) ∧ e.bindings.flushEvaluations doc e.environment = [] := by
  have same : e.bindings.flush doc e.environment = (e.bindings, doc, {}) := by
    unfold Bindings.flush
    rw [idle, Bindings.flushEach, ← idle]
  unfold flush Bindings.flushEvaluations
  rw [same, idle]
  exact ⟨rfl, rfl⟩

/-- A pass over what stands changes nothing and evaluates nothing. -/
theorem Standing.repeats {container : ElementId} (h : e.Standing doc container reported) :
    e.scanEvaluations doc container = [] ∧ (e.scan doc container).2 = doc ∧
      Repeats doc (doc.carriers container e.config.queryAttribute) reported e
        (e.scan doc container).1 := by
  obtain ⟨steady, -⟩ := e.announces_announced doc container
  have notes := h.notes_announced
  have errors := e.errors_announced doc container
  obtain ⟨event, plain, same⟩ := e.scan_shape doc container
  rw [← steady.config] at same ⊢
  unfold scanEvaluations
  rw [same]
  generalize e.announced doc container = e₁ at steady notes errors
  have declared := Bindings.declared?_congr (Bindings.Announces.notes notes).declared
  have kept : e₁.bindings.actualizeObservers doc = (e₁.bindings, 0) := by
    apply Bindings.actualizeObservers_of_attached
    intro el entry found
    exact h.attached el entry ((declared el).symm.trans found)
  let els := doc.carriers container e₁.config.queryAttribute
  have answered : ∀ el ∈ els, e₁.bindings.Answered doc e₁.actions e₁.config reported el := by
    intro el mem
    simp only [els, steady.config] at mem
    rw [steady.actions, steady.config]
    exact (h.answered el mem).same (declared el) (List.Subset.refl _)
  have started : Repeats doc els reported e e₁ := .of_notes steady notes errors
  obtain ⟨none, same', later⟩ := initEach_of_answered els answered
  simp only [kept]
  rw [none, List.nil_append]
  generalize e₁.initEach doc els = r at same' later
  obtain ⟨e₂, doc₂, n⟩ := r
  obtain rfl : doc₂ = doc := same'
  have whole := started.trans later
  have idle : e₂.bindings.pending = [] := whole.bindings.pending.trans h.idle
  obtain ⟨same', none'⟩ := flush_of_idle idle doc₂
  rw [same', none']
  exact ⟨rfl, rfl, whole.trans (.of_notes (.log e₂ event) (.record _ plain) rfl)⟩

end

/-! ## What a pass leaves -/

section
variable {given doc doc' : Document} {config : Config} {els : List ElementId}
  {start b c : Bindings ν} {env : Environment} {id : ObserverId}

/-- References and groups are still those of the document that a pass was given, whose tree and
declarations have been spared. -/
structure Upheld (given : Document) (config : Config) (els : List ElementId) (start b : Bindings ν)
    (doc : Document) : Prop where
  alike : given.DeclaresAlike config els doc
  allotted : b.Allotted
  grounded : b.Grounded given
  references : SameReferences start b

theorem Upheld.same (h : Upheld given config els start b doc)
    (same : Bindings.SameSources b c) : Upheld given config els start c doc where
  alike := h.alike
  allotted := h.allotted.same same
  grounded := h.grounded.same same
  references := h.references.trans (.of_sources same)

/-- An attempt to evaluate an observer destroys nothing where all elements with observers are
attached. -/
theorem Upheld.attempt (h : Upheld given config els start b doc) (rooted : given.Rooted)
    (wellFormed : b.WellFormed)
    (attached : ∀ el entry, b.declared? el = some entry → given.isAttached el)
    (attempted : Attempted b doc env id c doc') (known : env.config = config)
    (spares : ∀ v ∈ b.evaluation? doc env id, v.Spares els) :
    Upheld given config els start c doc' ∧ ∀ el, c.declared? el = b.declared? el := by
  have counted := h.same (c := b.countTurn id) (.of_slots rfl rfl rfl)
  cases attempted with
  | refused => exact ⟨h.same (.of_slots rfl rfl rfl), fun _ => rfl⟩
  | missing => exact ⟨counted, fun _ => rfl⟩
  | detached _ o found loose =>
    have listed := wellFormed.listed o (Bindings.mem_of_observer? found).1
    unfold Bindings.observersOf at listed
    cases own : b.declared? o.element with
    | none =>
      rw [own] at listed
      exact absurd listed List.not_mem_nil
    | some entry =>
      rw [h.alike.isAttached, attached _ entry own] at loose
      cases loose
  | evaluated free o found there =>
    have spared := spares _ (Bindings.evaluation?_eq_some.mpr ⟨free, o, found, there, rfl⟩)
    have extension := Bindings.extends_evaluateObserver counted.allotted doc env o
    have declared := (wellFormed.evaluates doc env found).declared
    constructor
    · constructor
      · exact h.alike.trans (known ▸ spared)
      · exact extension.allotted
      · exact counted.grounded.extend counted.allotted h.alike.toSameTree rooted there extension
      · exact counted.references.trans (extension.sameReferences counted.allotted.placed)
    · exact Bindings.declared?_congr declared

theorem Upheld.attempts {ids : List ObserverId} {vs : List (Evaluation ν)}
    (h : Upheld given config els start b doc) (rooted : given.Rooted) (wellFormed : b.WellFormed)
    (created : ∀ id ∈ ids, id.number < b.nextObserver)
    (attached : ∀ el entry, b.declared? el = some entry → given.isAttached el)
    (attempts : Attempts env ids b doc vs c doc') (known : env.config = config)
    (spares : ∀ v ∈ vs, v.Spares els) :
    Upheld given config els start c doc' ∧ ∀ el, c.declared? el = b.declared? el := by
  let P := fun (d : Bindings ν) (doc : Document) (owed : List ObserverId) =>
    d.WellFormed ∧ (∀ id ∈ owed, id.number < d.nextObserver) ∧
      Upheld given config els start d doc ∧ ∀ el, d.declared? el = b.declared? el
  have last : P c doc' [] := by
    apply Attempts.keeps (V := fun v => v.Spares els) _ _ attempts spares
    · exact ⟨wellFormed, created, h, fun _ => rfl⟩
    · rintro d doc id owed - ⟨wellFormed, created, rest⟩
      exact ⟨wellFormed, fun id mem => created id (List.mem_cons_of_mem _ mem), rest⟩
    · rintro d doc id owed d' doc' attempted spares ⟨wellFormed, created, upheld, same⟩
      obtain ⟨later, declared⟩ := upheld.attempt rooted wellFormed
        (fun el entry found => attached el entry ((same el).symm.trans found)) attempted known
        spares
      refine ⟨wellFormed.attempt (created id List.mem_cons_self) attempted, ?_, later, ?_⟩
      · intro other mem
        rw [attempted.nextObserver wellFormed]
        exact created other (List.mem_cons_of_mem _ mem)
      · intro el
        exact (declared el).trans (same el)
  exact last.2.2

end

section
variable {given doc : Document} {e₀ e : Engine ν} {els visited : List ElementId}

/-- The state of a pass over `given` that started from `e₀`, when some elements have been
initialised. -/
structure Advances (given : Document) (e₀ : Engine ν) (els visited : List ElementId) (e : Engine ν)
    (doc : Document) : Prop where
  setup : SameSetup e₀ e
  settling : Settling e.bindings []
  upheld : Upheld given e₀.config els e₀.bindings e.bindings doc
  attached : ∀ el entry, e.bindings.declared? el = some entry → given.isAttached el
  answered : ∃ reported, e.errors = e₀.errors ++ reported ∧
    ∀ el ∈ visited, e.bindings.Answered given e₀.actions e₀.config reported el

theorem Advances.mono (h : Advances given e₀ els visited e doc) {fewer : List ElementId}
    (subset : fewer ⊆ visited) : Advances given e₀ els fewer e doc where
  setup := h.setup
  settling := h.settling
  upheld := h.upheld
  attached := h.attached
  answered := by
    obtain ⟨reported, errors, answered⟩ := h.answered
    exact ⟨reported, errors, fun el mem => answered el (subset mem)⟩

/-- Observers that have been created are owed an evaluation each. -/
theorem Settling.init (h : Settling e.bindings []) (doc : Document) (el : ElementId)
    {ids : List ObserverId}
    (made : (e.bindings.init doc el e.actions e.config).2 = .ok ids) :
    Settling (e.bindings.init doc el e.actions e.config).1 ids := by
  have create := (carried_settling e.environment e.actions).create e.bindings doc el
  have cases := e.bindings.init_cases doc el e.actions e.config
  generalize e.bindings.init doc el e.actions e.config = r at made cases
  rcases cases with ⟨-, rfl⟩ | ⟨-, ⟨error, rfl, -⟩ | ⟨target, prepared, targeted, read, rfl⟩⟩
  · obtain rfl : [] = ids := Except.ok.inj made
    exact h
  · cases made
  · obtain rfl := Except.ok.inj made
    exact create _ _ target prepared targeted read rfl h

/-- Once the flaw of a new element has been reported, if there is one, the element is answered for,
and those before it still are. -/
theorem Advances.answers (h : Advances given e₀ els visited e doc) {el : ElementId}
    (mem : el ∈ els) (there : given.isAttached el) {reported more : List DependencyError}
    (answered : ∀ el ∈ visited, e.bindings.Answered given e₀.actions e₀.config reported el)
    (subset : reported ⊆ more)
    (told : ∀ error, (e.bindings.init doc el e.actions e.config).2 = .error error → error ∈ more) :
    let b := (e.bindings.init doc el e.actions e.config).1
    (∀ other ∈ el :: visited, b.Answered given e₀.actions e₀.config more other) ∧
      ∀ other entry, b.declared? other = some entry → given.isAttached other := by
  obtain ⟨own, others⟩ := e.bindings.answered_init doc el e.actions e.config more told
  generalize (e.bindings.init doc el e.actions e.config).1 = b at own others ⊢
  rw [h.setup.actions, h.setup.config] at own
  constructor
  · intro other listed
    by_cases same : other = el
    · exact same ▸ own.alike h.upheld.alike mem
    · have before := answered other ((List.mem_cons.mp listed).resolve_left same)
      exact before.same (others other same) subset
  · intro other entry found
    by_cases same : other = el
    · exact same ▸ there
    · exact h.attached other entry ((others other same).symm.trans found)

theorem Advances.initElement (h : Advances given e₀ els visited e doc) (rooted : given.Rooted)
    {el : ElementId} (mem : el ∈ els) (there : given.isAttached el)
    (spares : ∀ v ∈ e.initElementEvaluations doc el, v.Spares els) :
    Advances given e₀ els (el :: visited) (e.initElement doc el).1 (e.initElement doc el).2.1 := by
  obtain ⟨steady, settling⟩ :=
    initElement_keeps (carried_settling e.environment e.actions) rfl rfl el h.settling
  obtain ⟨reported, errors, answered⟩ := h.answered
  have made : ∀ ids, (e.bindings.init doc el e.actions e.config).2 = .ok ids →
      Settling (e.bindings.init doc el e.actions e.config).1 ids := fun _ =>
    h.settling.init doc el
  have sources := Bindings.SameSources.init e.bindings doc el e.actions e.config
  have answers := fun more (subset : reported ⊆ more) => h.answers mem there answered subset
  have setup := h.setup.trans steady.toSameSetup
  unfold initElementEvaluations at spares
  unfold Engine.initElement at settling setup ⊢
  generalize e.bindings.init doc el e.actions e.config = r at *
  obtain ⟨b, result⟩ := r
  have upheld := h.upheld.same sources
  cases result with
  | error error =>
    obtain ⟨answered, attached⟩ := answers (reported ++ [error]) (List.subset_append_left ..)
      fun other same => Except.error.inj same ▸ List.mem_append_right _ List.mem_cons_self
    have notes := notes_recordError { e with bindings := b } error
    refine ⟨setup, settling, upheld.same (.notes notes.bindings), attached, _, ?_, answered⟩
    rw [errors_recordError, ← List.append_assoc]
    exact congrArg (· ++ [error]) errors
  | ok ids =>
    obtain ⟨answered, attached⟩ := answers reported (List.Subset.refl _) fun _ none => nomatch none
    have begun := made ids rfl
    have attempts := attempts_evaluateEach ids { e with bindings := b } doc
    obtain ⟨evaluated, declared⟩ := upheld.attempts rooted begun.wellFormed begun.created attached
      attempts h.setup.config spares
    have failures := errors_evaluateEach doc ids { e with bindings := b }
    dsimp only at settling setup ⊢
    generalize Engine.evaluateEach { e with bindings := b } doc ids = last at *
    have notes := (notes_recordErrors last.1 last.2.2).bindings
    have same : ∀ other,
        (last.1.recordErrors last.2.2).bindings.declared? other = b.declared? other := by
      intro other
      have noted := Bindings.declared?_congr (Bindings.Announces.notes notes).declared other
      exact noted.trans (declared other)
    refine ⟨setup, settling, evaluated.same (.notes notes), ?_, reported ++ last.2.2, ?_, ?_⟩
    · intro other entry found
      exact attached other entry ((same other).symm.trans found)
    · rw [errors_recordErrors, failures, ← List.append_assoc]
      exact congrArg (· ++ last.2.2) errors
    · intro other listed
      exact (answered other listed).same (same other) (List.subset_append_left ..)

theorem Advances.initEach (todo : List ElementId) {e : Engine ν} {doc : Document}
    {visited : List ElementId} (h : Advances given e₀ els visited e doc) (rooted : given.Rooted)
    (listed : ∀ el ∈ todo, el ∈ els ∧ given.isAttached el)
    (spares : ∀ v ∈ e.initEachEvaluations doc todo, v.Spares els) :
    Advances given e₀ els (todo ++ visited) (e.initEach doc todo).1 (e.initEach doc todo).2.1 := by
  induction todo generalizing e doc visited with
  | nil => exact h
  | cons el rest ih =>
    obtain ⟨⟨mem, there⟩, others⟩ := List.forall_mem_cons.mp listed
    obtain ⟨own, later⟩ := List.forall_mem_append.mp spares
    have first := h.initElement rooted mem there own
    have whole := ih first others later
    apply whole.mono
    intro other mem
    simp only [List.cons_append, List.mem_cons, List.mem_append] at mem ⊢
    tauto

theorem Advances.flush (h : Advances given e₀ els visited e doc) (rooted : given.Rooted)
    (spares : ∀ v ∈ e.bindings.flushEvaluations doc e.environment, v.Spares els) :
    Advances given e₀ els visited (e.flush doc).1 (e.flush doc).2 := by
  obtain ⟨steady, flushes⟩ := e.flushes_flush doc
  obtain ⟨reported, errors, answered⟩ := h.answered
  obtain ⟨failures, more⟩ := e.errors_flush doc
  have settled := h.settling.flush flushes
  have idle := h.upheld.same (c := { e.bindings with pending := [] }) (.of_slots rfl rfl rfl)
  obtain ⟨evaluated, declared⟩ := idle.attempts rooted h.settling.wellFormed.idle
    h.settling.wellFormed.waiting h.attached (e.bindings.attempts_flush doc e.environment)
    h.setup.config spares
  have same : ∀ other, (e.flush doc).1.bindings.declared? other = e.bindings.declared? other := by
    intro other
    have noted := (Bindings.Announces.notes flushes.bindings).declared
    exact (Bindings.declared?_congr noted other).trans (declared other)
  have upheld := evaluated.same (.notes flushes.bindings)
  rw [← flushes.document] at upheld
  refine ⟨h.setup.trans steady.toSameSetup, settled.settling, upheld, ?_, reported ++ failures,
    ?_, ?_⟩
  · intro other entry found
    exact h.attached other entry ((same other).symm.trans found)
  · rw [← more, errors, List.append_assoc]
  · intro other listed
    exact (answered other listed).same (same other) (List.subset_append_left ..)

end

section
variable {doc : Document} {e : Engine ν} {container : ElementId}

theorem isAttached_of_mem_carriers (rooted : doc.Rooted) (attached : doc.isAttached container)
    {name : String} {el : ElementId} (mem : el ∈ doc.carriers container name) :
    doc.isAttached el :=
  rooted.isAttached_of_mem_descendants attached (List.mem_filter.mp mem).1

/-- Registration makes the references of all its elements stand. -/
theorem bears_registerEach (els : List ElementId) {e : Engine ν} (h : e.bindings.Allotted)
    {el : ElementId} (either : el ∈ els ∨ e.bindings.Bears doc e.accessors e.config el) :
    (e.registerEach doc els).1.bindings.Bears doc e.accessors e.config el := by
  induction els generalizing e with
  | nil => exact either.resolve_left List.not_mem_nil
  | cons first rest ih =>
    have allotted := h.register doc e.accessors e.config first
    have borne : el = first ∨ e.bindings.Bears doc e.accessors e.config el →
        (e.bindings.register doc e.accessors e.config first).1.Bears doc e.accessors e.config el :=
      Bindings.bears_register h
    rw [registerEach]
    generalize e.bindings.register doc e.accessors e.config first = r at allotted borne
    apply ih (e := { e with bindings := r.1 }) allotted
    rcases either with mem | before
    · rcases List.mem_cons.mp mem with own | later
      · exact .inr (borne (.inl own))
      · exact .inl later
    · exact .inr (borne (.inr before))

/-- What a pass begins with makes the references of its container and all groups stand. -/
theorem grounded_announced (h : e.bindings.Allotted) (rooted : doc.Rooted)
    (attached : doc.isAttached container) :
    (e.announced doc container).bindings.Grounded doc ∧
      ∀ el ∈ doc.carriers container e.config.referenceAttribute,
        (e.announced doc container).bindings.Bears doc e.accessors e.config el := by
  let start := { e with bindings := (e.bindings.actualizeReferences doc).1 }
  let els := doc.carriers container e.config.referenceAttribute
  have reclaimed : start.bindings.Allotted := h.actualizeReferences doc
  have allotted := allotted_registerEach doc els reclaimed
  have live : ∀ r ∈ (start.registerEach doc els).1.bindings.references,
      doc.isAttached r.element := by
    intro r mem
    have named := (Bindings.mem_namings_iff allotted.placed).mp (List.mem_map_of_mem mem)
    have owner : r.naming.element = r.element := rfl
    rw [owner, naming?_registerEach] at named
    split at named
    · next visited => exact isAttached_of_mem_carriers rooted attached visited.1
    · have before := e.bindings.naming?_actualizeReferences doc r.element
      by_contra detached
      rw [if_neg detached] at before
      exact nomatch before.symm.trans named
  obtain ⟨grounded, same⟩ := Bindings.grounded_actualizeGroups allotted live
  refine ⟨grounded, fun el mem => ?_⟩
  exact (bears_registerEach els reclaimed (.inl mem)).same same

/-- A pass advances from where the observers of detached elements are gone. -/
theorem Advances.start {els : List ElementId} (settling : Settling e.bindings [])
    (allotted : e.bindings.Allotted) (grounded : e.bindings.Grounded doc) :
    let e' := { e with bindings := (e.bindings.actualizeObservers doc).1 }
    Advances doc e' els [] e' doc := by
  intro e'
  have sources := Bindings.SameSources.actualizeObservers e.bindings doc
  have destroyed : Settling e'.bindings [] := by
    apply Bindings.actualizeObservers_keeps (P := fun b => Settling b [])
    · exact fun b el _ h => h.destroyElement el
    · exact fun b count live h => h.announce (.log rfl)
    · exact settling
  have upheld : Upheld doc e'.config els e'.bindings e'.bindings doc :=
    ⟨.refl _ _ doc, allotted.same sources, grounded.same sources, ⟨rfl, fun _ _ => rfl⟩⟩
  refine ⟨.refl e', destroyed, upheld, ?_, [], (List.append_nil _).symm, ?_⟩
  · exact fun el entry found => Bindings.attached_actualizeObservers found
  · exact fun el none => absurd none List.not_mem_nil

/-- A pass whose actions spare the tree and the declarations in its container leaves all that is in
the container standing. What it reports tells of all flaws. -/
theorem Settled.standing_scan (settled : e.Settled) (allotted : e.bindings.Allotted)
    (rooted : doc.Rooted) (attached : doc.isAttached container)
    (spares : ∀ v ∈ e.scanEvaluations doc container,
      v.Spares (doc.carriers container e.config.queryAttribute)) :
    ∃ reported, (e.scan doc container).1.errors = e.errors ++ reported ∧
      (e.scan doc container).1.Standing doc container reported := by
  have idle := (settled.scan doc container).idle
  obtain ⟨steady, announces⟩ := e.announces_announced doc container
  have errors := e.errors_announced doc container
  have announced := allotted_announced allotted doc container
  have settling := settled.settling.announce announces
  obtain ⟨grounded, borne⟩ := grounded_announced allotted rooted attached
  obtain ⟨event, plain, same⟩ := e.scan_shape doc container
  rw [← steady.config, ← steady.accessors] at borne
  rw [← steady.config] at same spares
  unfold scanEvaluations at spares
  rw [same] at idle ⊢
  generalize e.announced doc container = e₁ at *
  have sources := Bindings.SameSources.actualizeObservers e₁.bindings doc
  let e₂ := { e₁ with bindings := (e₁.bindings.actualizeObservers doc).1 }
  let els := doc.carriers container e₁.config.queryAttribute
  have started : Advances doc e₂ els [] e₂ doc := .start settling announced grounded
  obtain ⟨created, later⟩ := List.forall_mem_append.mp spares
  have listed : ∀ el ∈ els, el ∈ els ∧ doc.isAttached el := fun el mem =>
    ⟨mem, isAttached_of_mem_carriers rooted attached mem⟩
  have last := (started.initEach els rooted listed created).flush rooted later
  obtain ⟨reported, told, answered⟩ := last.answered
  dsimp only
  generalize ((e₂.initEach doc els).1.flush (e₂.initEach doc els).2.1) = r at *
  have noted := (r.1.notes_log plain).bindings
  have config : r.1.config = e₁.config := last.setup.config
  have accessors : r.1.accessors = e₁.accessors := last.setup.accessors
  have actions : r.1.actions = e₁.actions := last.setup.actions
  have whole : SameReferences e₁.bindings (r.1.log event).bindings :=
    ((SameReferences.of_sources sources).trans last.upheld.references).trans
      (.of_sources (.notes noted))
  refine ⟨reported, told.trans (congrArg (· ++ reported) errors), ?_⟩
  constructor
  · exact last.upheld.grounded.same (.notes noted)
  · intro el mem
    simp only [Engine.log, config, accessors] at mem ⊢
    exact (borne el mem).same whole
  · exact last.attached
  · intro el mem
    simp only [Engine.log, config, actions] at mem ⊢
    exact answered el (List.mem_append_left _ mem)
  · exact idle

end

end Engine

end FormDependencies
