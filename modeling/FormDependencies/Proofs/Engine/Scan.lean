import FormDependencies.Proofs.Binding.Naming
import FormDependencies.Proofs.Binding.Origin
import FormDependencies.Proofs.Document.Forest
import FormDependencies.Proofs.Engine.Effect

/-!
What a pass over the whole document leaves of every single element: the reference that it declares,
and the observers of its declarations. An element of which the pass finds nothing new keeps what it
had.
-/

namespace FormDependencies.Engine
variable {ν : Type}

open Bindings (Announces Attempted)
open Document (SameDeclarations)

/-! ## Errors -/

theorem errors_recordError (e : Engine ν) (error : DependencyError) :
    (e.recordError error).errors = e.errors ++ [error] := rfl

theorem errors_recordErrors (e : Engine ν) (errors : List DependencyError) :
    (e.recordErrors errors).errors = e.errors ++ errors := by
  unfold recordErrors
  induction errors generalizing e with
  | nil => exact (List.append_nil _).symm
  | cons error rest ih =>
    rw [List.foldl_cons, ih]
    exact List.append_assoc e.errors [error] rest

theorem errors_evaluateEach (doc : Document) (ids : List ObserverId) (e : Engine ν) :
    (e.evaluateEach doc ids).1.errors = e.errors := by
  induction ids generalizing e doc with
  | nil => rfl
  | cons id rest ih => exact ih _ _

theorem errors_registerEach (doc : Document) (els : List ElementId) (e : Engine ν) :
    (e.registerEach doc els).1.errors = e.errors := by
  induction els generalizing e with
  | nil => rfl
  | cons el rest ih =>
    rw [registerEach]
    generalize e.bindings.register doc e.accessors e.config el = r
    exact ih { e with bindings := r.1 }

theorem errors_announced (e : Engine ν) (doc : Document) (container : ElementId) :
    (e.announced doc container).errors = e.errors :=
  errors_registerEach doc _ _

theorem errors_flush (e : Engine ν) (doc : Document) : e.errors <+: (e.flush doc).1.errors := by
  have same : (e.flush doc).1.errors =
      e.errors ++ (e.bindings.flush doc e.environment).2.2.errors := errors_recordErrors _ _
  rw [same]
  exact List.prefix_append ..

/-! ## One element -/

section
variable {given doc : Document} {e e' : Engine ν} {el : ElementId}

structure Untouched (given : Document) (el : ElementId) (b c : Bindings ν) : Prop where
  origins : c.origins el = b.origins el
  declared : given.isAttached el → c.declared? el = b.declared? el

theorem Untouched.refl (b : Bindings ν) : Untouched given el b b := ⟨rfl, fun _ => rfl⟩

theorem Untouched.trans {b c d : Bindings ν} (first : Untouched given el b c)
    (second : Untouched given el c d) : Untouched given el b d :=
  ⟨second.origins.trans first.origins,
    fun attached => (second.declared attached).trans (first.declared attached)⟩

theorem Untouched.renews {b c : Bindings ν} (h : Untouched given el b c)
    (attached : given.isAttached el) : c.Renews given el ↔ b.Renews given el := by
  have declared := h.declared attached
  refine ⟨fun renews => ⟨renews.carries, renews.prepared, ?_⟩,
    fun renews => ⟨renews.carries, renews.prepared, ?_⟩⟩
  · exact declared ▸ renews.changed
  · exact declared ▸ renews.changed

theorem Untouched.notes {b c : Bindings ν} (notes : Bindings.Notes b c) :
    Untouched given el b c := by
  have announces := Announces.notes notes
  exact ⟨Bindings.origins_congr announces.observers el,
    fun _ => Bindings.declared?_congr announces.declared el⟩

/-- An attempt to evaluate an observer changes nothing for an attached element, nor for one without
observers. -/
theorem Untouched.attempt {b c d : Bindings ν} {env : Environment} {id : ObserverId}
    {doc' : Document} (h : Untouched given el b c) (wellFormed : c.WellFormed)
    (attempted : Attempted c doc env id d doc') (same : SameDeclarations given doc)
    (alone : given.isAttached el ∨ b.origins el = []) : Untouched given el b d := by
  have attached := same.isAttached el
  refine h.trans ⟨attempted.origins wellFormed ?_, fun there => ?_⟩
  · rw [attached, h.origins]
    exact alone
  · exact attempted.declared? wellFormed (attached.trans there)

/-- The state of a pass over `given` between two elements. -/
structure Passing (given : Document) (e : Engine ν) (doc : Document) : Prop where
  settling : Settling e.bindings []
  keeps : e.Keeps SameDeclarations (· = .standard)
  builtin : e.actions = .builtin
  same : SameDeclarations given doc

theorem Passing.carried (h : Passing given e doc) :
    Carried e.environment e.actions fun b doc' owed =>
      Settling b owed ∧ b.Keeps SameDeclarations (· = .standard) ∧ SameDeclarations given doc' :=
  carried_keeps SameDeclarations.permits h.keeps.environment h.keeps.actions given

theorem Passing.initElement (h : Passing given e doc) (el : ElementId) :
    Passing given (e.initElement doc el).1 (e.initElement doc el).2.1 := by
  obtain ⟨steady, settling, keeps, same⟩ := initElement_keeps h.carried rfl rfl el
    ⟨h.settling, h.keeps.observers, h.same⟩
  exact ⟨settling, h.keeps.next steady.toSameSetup keeps, steady.actions.trans h.builtin, same⟩

theorem Passing.evaluateEach (h : Passing given e doc) {b : Bindings ν} {ids : List ObserverId}
    (settling : Settling b ids) (keeps : b.Keeps SameDeclarations (· = .standard))
    (alone : given.isAttached el ∨ b.origins el = []) :
    let r := { e with bindings := b }.evaluateEach doc ids
    let c := r.1.recordErrors r.2.2
    Untouched given el b c.bindings ∧ e.errors.length ≤ c.errors.length := by
  let P := fun (c : Bindings ν) (doc' : Document) (owed : List ObserverId) =>
    (Settling c owed ∧ c.Keeps SameDeclarations (· = .standard) ∧ SameDeclarations given doc') ∧
      Untouched given el b c
  have attempt : ∀ c doc₁ id owed d doc₂, Attempted c doc₁ e.environment id d doc₂ →
      P c doc₁ (id :: owed) → P d doc₂ owed := by
    rintro c doc₁ id owed d doc₂ attempted ⟨rest, untouched⟩
    exact ⟨h.carried.attempt c doc₁ id owed d doc₂ attempted rest,
      untouched.attempt rest.1.wellFormed attempted rest.2.2 alone⟩
  intro r c
  have start : P b doc ids := ⟨⟨settling, keeps, h.same⟩, .refl b⟩
  obtain ⟨-, last⟩ : Steady { e with bindings := b } r.1 ∧ P r.1.bindings r.2.1 [] :=
    evaluateEach_keeps P attempt ids rfl start
  refine ⟨last.2.trans (.notes (notes_recordErrors r.1 r.2.2).bindings), ?_⟩
  rw [errors_recordErrors, errors_evaluateEach]
  exact (List.prefix_append e.errors r.2.2).length_le

/-- When the observers that an element declares have been created in place of those that it had,
they come from its declarations, and those of the others stay. -/
theorem Passing.create (h : Passing given e doc) (owner : ElementId) {target : Option Selector}
    {read : List (Declaration × Query × Action ν)}
    (targeted : Bindings.targetOf doc owner .standard = .ok target)
    (ready : Bindings.prepareEach .builtin (doc.declarations owner .standard) = .ok read)
    (alone : given.isAttached el ∨ e.bindings.origins el = [] ∧ owner ≠ el) :
    let b := (e.bindings.destroyElement owner).1
    let added := Bindings.observersFrom doc owner .standard target b.nextObserver read
    let b₁ := b.addObservers owner (doc.declarationSignature owner .standard)
      (e.bindings.destroyElement owner).2 added
    let ids := added.map (·.id)
    let r := { e with bindings := b₁ }.evaluateEach doc ids
    let c := r.1.recordErrors r.2.2
    (owner = el → c.bindings.origins el = read.map fun p => ⟨el, p.2.1.text, p.1.action,
        p.1.parameters, given.hasAttribute el Config.standard.negateAttribute⟩) ∧
      (owner ≠ el → Untouched given el e.bindings c.bindings) ∧
      e.errors.length ≤ c.errors.length := by
  intro b added b₁ ids r c
  have created := h.carried.create e.bindings doc owner (doc.declarationSignature owner .standard)
    (e.bindings.destroyElement owner).2 target read
  rw [show e.environment.config = .standard from h.keeps.suited, h.builtin] at created
  obtain ⟨settling, keeps, -⟩ := created targeted ready rfl ⟨h.settling, h.keeps.observers, h.same⟩
  have own : ∀ o ∈ added, o.element = owner := by
    intro o mem
    obtain ⟨p, -, same⟩ := Bindings.eq_observerOf_of_mem doc owner .standard target mem
    exact same ▸ rfl
  have origins := Bindings.origins_addObservers b owner (doc.declarationSignature owner .standard)
    (e.bindings.destroyElement owner).2 own el
  rw [Bindings.origins_destroyElement h.settling.wellFormed] at origins
  have others : owner ≠ el → Untouched given el e.bindings b₁ := by
    intro different
    refine ⟨?_, fun _ => ?_⟩
    · rwa [if_neg different, if_neg different, List.append_nil] at origins
    · have kept := Bindings.declared?_destroyElement e.bindings owner el
      rw [if_neg (Ne.symm different)] at kept
      exact (Bindings.declared?_addObservers ..).trans ((if_neg different).trans kept)
  have alone : given.isAttached el ∨ b₁.origins el = [] :=
    alone.imp_right fun ⟨empty, different⟩ => (others different).origins.trans empty
  obtain ⟨evaluated, more⟩ := h.evaluateEach settling keeps alone
  refine ⟨fun same => evaluated.origins.trans ?_,
    fun different => (others different).trans evaluated, more⟩
  subst same
  rw [if_pos rfl, if_pos rfl, List.nil_append, Bindings.map_origin_observersFrom,
    h.same.hasAttribute owner (by decide)] at origins
  exact origins

/-- An element keeps its observers, or one of its declarations is wrong and they are destroyed, or
it gets those of its declarations. -/
theorem Passing.initElement_cases (h : Passing given e doc) (owner : ElementId) :
    let c := (e.initElement doc owner).1
    (∃ entry, e.bindings.declared? owner = some entry ∧
        entry.signature = doc.declarationSignature owner .standard) ∧ c = e ∨
      (∀ entry, e.bindings.declared? owner = some entry →
        entry.signature ≠ doc.declarationSignature owner .standard) ∧
      (given.prepared? (.builtin : ActionTable ν) .standard owner = none ∧
          (∃ error, c =
            { e with bindings := (e.bindings.destroyElement owner).1 }.recordError error) ∨
        ∃ read, given.prepared? (.builtin : ActionTable ν) .standard owner = some read ∧
          ∀ el, given.isAttached el ∨ e.bindings.origins el = [] ∧ owner ≠ el →
            (owner = el → c.bindings.origins el = read.map fun p => ⟨el, p.2.1.text, p.1.action,
              p.1.parameters, given.hasAttribute el Config.standard.negateAttribute⟩) ∧
            (owner ≠ el → Untouched given el e.bindings c.bindings) ∧
            e.errors.length ≤ c.errors.length) := by
  intro c
  have cases := Bindings.init_cases e.bindings doc owner e.actions e.config
  have whole : e.bindings.init doc owner e.actions e.config =
      e.bindings.init doc owner .builtin .standard := by rw [h.keeps.suited, h.builtin]
  rw [h.keeps.suited, h.builtin] at cases
  rcases cases with ⟨known, kept⟩ |
    ⟨changed, ⟨error, failed, wrong⟩ | ⟨target, read, targeted, ready, made⟩⟩
  · refine .inl ⟨known, ?_⟩
    simp only [c, Engine.initElement, whole, kept]
    rfl
  · refine .inr ⟨changed, .inl ⟨?_, error, ?_⟩⟩
    · rw [← h.same.prepared?, Option.eq_none_iff_forall_ne_some]
      intro read found
      obtain ⟨⟨target, targeted⟩, ready⟩ := Document.prepared?_eq_some.mp found
      exact wrong target read targeted ready
    · simp only [c, Engine.initElement, whole, failed]
  · refine .inr ⟨changed, .inr ⟨read, ?_, fun el alone => ?_⟩⟩
    · rw [← h.same.prepared?]
      exact Document.prepared?_eq_some.mpr ⟨⟨target, targeted⟩, ready⟩
    · simp only [c, Engine.initElement, whole, made]
      exact h.create owner targeted ready alone

/-! ## All elements -/

/-- What initialisation leaves of one element, which may be among those `visited`. -/
structure Initialized (given : Document) (el : ElementId) (visited : Prop) (e e' : Engine ν) :
    Prop where
  renewed : visited → e.bindings.Renews given el →
    e'.bindings.origins el = given.origins (.builtin : ActionTable ν) .standard el
  kept : ¬(visited ∧ e.bindings.Renews given el) → e'.errors.length ≤ e.errors.length →
    Untouched given el e.bindings e'.bindings
  stable : e.bindings.origins el = given.origins (.builtin : ActionTable ν) .standard el →
    e'.bindings.origins el = given.origins (.builtin : ActionTable ν) .standard el
  passed : ¬visited → Untouched given el e.bindings e'.bindings
  errors : e.errors.length ≤ e'.errors.length

/-- Visits follow each other. An element that is visited later must be attached. -/
theorem Initialized.trans {first later : Prop} {e e' e'' : Engine ν}
    (h : Initialized given el first e e') (h' : Initialized given el later e' e'')
    (attached : later → given.isAttached el) : Initialized given el (first ∨ later) e e'' where
  renewed visited renews := by
    by_cases before : first
    · exact h'.stable (h.renewed before renews)
    · have after := visited.resolve_left before
      exact h'.renewed after (((h.passed before).renews (attached after)).mpr renews)
  kept otherwise clean := by
    have untouched := h.kept (fun both => otherwise ⟨.inl both.1, both.2⟩)
      (Nat.le_trans h'.errors clean)
    refine untouched.trans (h'.kept (fun both => otherwise ⟨.inr both.1, ?_⟩)
      (Nat.le_trans clean h.errors))
    exact (untouched.renews (attached both.1)).mp both.2
  stable same := h'.stable (h.stable same)
  passed neither := (h.passed fun visited => neither (.inl visited)).trans
    (h'.passed fun visited => neither (.inr visited))
  errors := Nat.le_trans h.errors h'.errors

theorem Untouched.initialized (h : Untouched given el e.bindings e'.bindings)
    (errors : e.errors.length ≤ e'.errors.length) : Initialized given el False e e' where
  renewed visited := visited.elim
  kept _ _ := h
  stable := h.origins.trans
  passed _ := h
  errors := errors

/-- The initialisation of an element that carries queries. -/
theorem Passing.initialized_own (h : Passing given e doc) (attached : given.isAttached el)
    (carries : given.hasAttribute el Config.standard.queryAttribute) :
    Initialized given el True e (e.initElement doc el).1 := by
  have signature : (given.prepared? (.builtin : ActionTable ν) .standard el).isSome →
      doc.declarationSignature el .standard = given.declarationSignature el .standard := by
    intro found
    obtain ⟨read, found⟩ := Option.isSome_iff_exists.mp found
    exact h.same.declarationSignature (Document.prepared?_eq_some.mp found).2
  have visited : ∀ {p : Prop}, ¬True → p := fun none => absurd trivial none
  have cases := h.initElement_cases el
  generalize (e.initElement doc el).1 = c at cases
  rcases cases with ⟨⟨entry, there, same⟩, rfl⟩ |
    ⟨changed, ⟨wrong, error, rfl⟩ | ⟨read, found, made⟩⟩
  · refine ⟨fun _ renews => ?_, fun _ _ => .refl _, id, visited, Nat.le_refl _⟩
    exact absurd (same.trans (signature renews.prepared)) (renews.changed entry there)
  · have stays : ¬e.bindings.Renews given el := by
      intro renews
      have found := renews.prepared
      rw [wrong] at found
      cases found
    have destroyed := Bindings.origins_destroyElement h.settling.wellFormed el el
    rw [if_pos rfl] at destroyed
    refine ⟨fun _ renews => absurd renews stays, fun _ clean => ?_, fun _ => destroyed.trans ?_,
      visited, ?_⟩
    · rw [errors_recordError, List.length_append] at clean
      exact absurd clean (Nat.not_le.mpr (Nat.lt_succ_self _))
    · rw [Document.origins, if_pos carries, wrong]
      rfl
    · exact (List.prefix_append e.errors [error]).length_le
  · obtain ⟨origins, -, more⟩ := made el (.inl attached)
    have some : (given.prepared? (.builtin : ActionTable ν) .standard el).isSome := by
      rw [found]
      rfl
    have renews : e.bindings.Renews given el := ⟨carries, some, signature some ▸ changed⟩
    have declared : c.bindings.origins el =
        given.origins (.builtin : ActionTable ν) .standard el := by
      rw [Document.origins, if_pos carries, found]
      exact origins rfl
    exact ⟨fun _ _ => declared, fun otherwise => absurd ⟨trivial, renews⟩ otherwise,
      fun _ => declared, visited, more⟩

/-- The initialisation of one element changes nothing for the others. -/
theorem Passing.initialized_other (h : Passing given e doc) {owner : ElementId}
    (different : owner ≠ el) (alone : given.isAttached el ∨ e.bindings.origins el = []) :
    Initialized given el False e (e.initElement doc owner).1 := by
  have cases := h.initElement_cases owner
  generalize (e.initElement doc owner).1 = c at cases
  rcases cases with ⟨-, rfl⟩ | ⟨-, ⟨-, error, rfl⟩ | ⟨read, -, made⟩⟩
  · exact (Untouched.refl _).initialized (Nat.le_refl _)
  · have origins := Bindings.origins_destroyElement h.settling.wellFormed owner el
    have declared := Bindings.declared?_destroyElement e.bindings owner el
    rw [if_neg different] at origins
    rw [if_neg (Ne.symm different)] at declared
    exact Untouched.initialized ⟨origins, fun _ => declared⟩
      (List.prefix_append e.errors [error]).length_le
  · obtain ⟨-, others, more⟩ := made el (alone.imp_right fun empty => ⟨empty, different⟩)
    exact (others different).initialized more

theorem Passing.initialized_initElement (h : Passing given e doc) (owner : ElementId)
    (carries : owner = el →
      given.isAttached el ∧ given.hasAttribute el Config.standard.queryAttribute)
    (alone : given.isAttached el ∨ e.bindings.origins el = []) :
    Initialized given el (owner = el) e (e.initElement doc owner).1 := by
  by_cases own : owner = el
  · subst own
    rw [eq_self]
    exact h.initialized_own (carries rfl).1 (carries rfl).2
  · rw [eq_false own]
    exact h.initialized_other own alone

theorem Passing.initEach (els : List ElementId) {e : Engine ν} {doc : Document}
    (h : Passing given e doc)
    (carries : el ∈ els →
      given.isAttached el ∧ given.hasAttribute el Config.standard.queryAttribute)
    (alone : given.isAttached el ∨ e.bindings.origins el = []) :
    Passing given (e.initEach doc els).1 (e.initEach doc els).2.1 ∧
      Initialized given el (el ∈ els) e (e.initEach doc els).1 := by
  induction els generalizing e doc with
  | nil =>
    rw [show (el ∈ ([] : List ElementId)) = False from eq_false List.not_mem_nil]
    exact ⟨h, (Untouched.refl e.bindings).initialized (Nat.le_refl _)⟩
  | cons owner rest ih =>
    have visits : (el ∈ owner :: rest) = (owner = el ∨ el ∈ rest) :=
      propext (List.mem_cons.trans (or_congr_left eq_comm))
    rw [Engine.initEach, visits]
    have passing := h.initElement owner
    have initialized := h.initialized_initElement owner (fun same => carries (visits ▸ .inl same))
      alone
    generalize e.initElement doc owner = r at passing initialized
    have later := fun mem : el ∈ rest => carries (visits ▸ .inr mem)
    have alone : given.isAttached el ∨ r.1.bindings.origins el = [] := by
      by_cases own : owner = el
      · exact .inl (carries (visits ▸ .inl own)).1
      · exact alone.imp_right (initialized.passed own).origins.trans
    obtain ⟨last, rest⟩ := ih passing later alone
    exact ⟨last, initialized.trans rest fun mem => (later mem).1⟩

end

/-! ## A pass over the whole document -/

section
variable {e : Engine ν} {doc : Document} {el : ElementId}

/-- To empty the queue changes nothing for an attached element, nor for one without observers. -/
theorem Passing.flush {given : Document} (h : Passing given e doc)
    (alone : given.isAttached el ∨ e.bindings.origins el = []) :
    Untouched given el e.bindings (e.flush doc).1.bindings := by
  let Q := fun (c : Bindings ν) (doc' : Document) =>
    (c.Keeps SameDeclarations (· = .standard) ∧ SameDeclarations given doc') ∧
      Untouched given el e.bindings c
  have last : Q (e.bindings.flush doc e.environment).1
      (e.bindings.flush doc e.environment).2.1 := by
    refine Bindings.flush_keeps ?_ h.settling.wellFormed
      ⟨⟨h.keeps.observers, h.same⟩, rfl, fun _ => rfl⟩
    rintro c doc₁ id d doc₂ wellFormed attempted ⟨⟨keeps, same⟩, untouched⟩
    have later := attempted.document SameDeclarations.permits h.keeps.environment keeps
    exact ⟨⟨attempted.keeps keeps wellFormed, same.trans later⟩,
      untouched.attempt wellFormed attempted same alone⟩
  exact last.2.trans (.notes (e.flushes_flush doc).2.bindings)

/-- When changes have been announced, the observers of detached elements are destroyed, and nothing
changes for the others. -/
theorem Settled.started {e₁ : Engine ν} (settled : e.Settled)
    (keeps : e.Keeps SameDeclarations (· = .standard)) (builtin : e.actions = .builtin)
    (steady : Steady e e₁) (announces : Announces e.bindings e₁.bindings) (doc : Document)
    (el : ElementId) :
    let b := (e₁.bindings.actualizeObservers doc).1
    Passing doc { e₁ with bindings := b } doc ∧
      (doc.isAttached el → Untouched doc el e.bindings b) ∧
      (doc.isAttached el = false → b.origins el = []) := by
  intro b
  have settling := settled.settling.announce announces
  have destroyed : Settling b [] ∧ b.Keeps SameDeclarations (· = .standard) := by
    refine Bindings.actualizeObservers_keeps (P := fun b =>
      Settling b [] ∧ b.Keeps SameDeclarations (· = .standard)) ?_ ?_
      ⟨settling, keeps.announce announces⟩
    · rintro b owner - ⟨settling, keeps⟩
      have destroys := b.destroys_destroyElement owner
      exact ⟨settling.destroyElement owner,
        Bindings.keeps_of_subset keeps fun o mem => (destroys.mem_observers.mp mem).1⟩
    · rintro b count live ⟨settling, keeps⟩
      exact ⟨settling.announce (.notes (.record b rfl)), keeps⟩
  have origins := Bindings.origins_actualizeObservers settling.wellFormed doc el
  have declared := e₁.bindings.declared?_actualizeObservers doc el
  have setup : SameSetup e { e₁ with bindings := b } :=
    steady.toSameSetup.trans (.update ..)
  refine ⟨⟨destroyed.1, keeps.next setup destroyed.2, setup.actions.trans builtin, .refl doc⟩,
    fun attached => ⟨?_, fun _ => ?_⟩, fun detached => ?_⟩
  · rw [if_pos attached] at origins
    exact origins.trans (Bindings.origins_congr announces.observers el)
  · rw [if_pos attached] at declared
    exact declared.trans (Bindings.declared?_congr announces.declared el)
  · rw [if_neg (Bool.eq_false_iff.mp detached)] at origins
    exact origins

/-- A pass over the root initialises every attached element that carries queries, and leaves the
others without observers. -/
theorem Settled.initialized_scan (settled : e.Settled)
    (keeps : e.Keeps SameDeclarations (· = .standard)) (builtin : e.actions = .builtin)
    (formed : doc.WellFormed) (el : ElementId) :
    (doc.isAttached el → Initialized doc el
        (doc.hasAttribute el Config.standard.queryAttribute) e (e.scan doc .root).1) ∧
      (doc.isAttached el = false → (e.scan doc .root).1.bindings.origins el = []) := by
  obtain ⟨steady, announces⟩ := e.announces_announced doc .root
  have errors := e.errors_announced doc .root
  obtain ⟨event, -, same⟩ := e.scan_shape doc .root
  rw [same]
  generalize e.announced doc .root = e₁ at steady announces errors
  obtain ⟨passing, attached, detached⟩ := settled.started keeps builtin steady announces doc el
  generalize (e₁.bindings.actualizeObservers doc).1 = b at passing attached detached
  have config : e.config = .standard := keeps.suited
  let els := doc.carriers .root e.config.queryAttribute
  have visits : el ∈ els ↔
      doc.isAttached el ∧ doc.hasAttribute el Config.standard.queryAttribute := by
    simp only [els, config]
    exact List.mem_filter.trans (and_congr_left' (formed.isAttached_iff el).symm)
  have alone : doc.isAttached el ∨ b.origins el = [] := by
    cases there : doc.isAttached el with
    | true => exact .inl rfl
    | false => exact .inr (detached there)
  obtain ⟨created, initialized⟩ := passing.initEach els visits.mp alone
  dsimp only
  generalize Engine.initEach { e₁ with bindings := b } doc els = r at created initialized ⊢
  have alone' : doc.isAttached el ∨ r.1.bindings.origins el = [] := by
    cases there : doc.isAttached el with
    | true => exact .inl rfl
    | false =>
      refine .inr ((initialized.passed fun visited => ?_).origins.trans (detached there))
      exact absurd (visits.mp visited).1 (Bool.eq_false_iff.mp there)
  have flushed := created.flush alone'
  have more := (r.1.errors_flush r.2.1).length_le
  generalize r.1.flush r.2.1 = last at flushed more
  constructor
  · intro there
    have started : Initialized doc el False e { e₁ with bindings := b } :=
      (attached there).initialized (Nat.le_of_eq (congrArg List.length errors).symm)
    have ended : Initialized doc el False r.1 (last.1.log event) :=
      Untouched.initialized ⟨flushed.origins, flushed.declared⟩ more
    have whole := (started.trans initialized fun _ => there).trans ended False.elim
    have carried : ((False ∨ el ∈ els) ∨ False) =
        (doc.hasAttribute el Config.standard.queryAttribute : Prop) := by
      simp [visits, there]
    rwa [carried] at whole
  · intro there
    have passed := initialized.passed fun visited =>
      absurd (visits.mp visited).1 (Bool.eq_false_iff.mp there)
    exact flushed.origins.trans (passed.origins.trans (detached there))

end

end FormDependencies.Engine
