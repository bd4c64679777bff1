import FormDependencies.Proofs.Binding.Evaluation

/-!
Attempts to evaluate observers, one after the other. Each attempt settles what is owed to one
observer, so that at the end nobody is owed anything.
-/

namespace FormDependencies.Bindings
variable {ν : Type}

/-- What can come of an attempt to evaluate an observer. -/
inductive Attempted (b : Bindings ν) (doc : Document) (env : Environment) (id : ObserverId) :
    Bindings ν → Document → Prop
  | refused (limited : b.isLimited env.config id) :
    Attempted b doc env id ((b.enterTurn id).log (.cascadeLimit id env.config.cascadeLimit.toNat)) doc
  | missing (free : b.isLimited env.config id = false) (absent : b.observer? id = none) :
    Attempted b doc env id (b.countTurn id) doc
  | detached (free : b.isLimited env.config id = false) (o : Observer ν)
    (found : b.observer? id = some o) (loose : doc.isAttached o.element = false) :
    Attempted b doc env id ((b.countTurn id).destroyElement o.element).1 doc
  | evaluated (free : b.isLimited env.config id = false) (o : Observer ν)
    (found : b.observer? id = some o) (attached : doc.isAttached o.element) :
    Attempted b doc env id ((b.countTurn id).evaluateObserver doc env o).1
      ((b.countTurn id).evaluateObserver doc env o).2.1

theorem attempted_evaluateNow (b : Bindings ν) (doc : Document) (env : Environment)
    (id : ObserverId) :
    Attempted b doc env id (b.evaluateNow doc env id).1 (b.evaluateNow doc env id).2.1 := by
  unfold evaluateNow
  by_cases limited : b.isLimited env.config id
  · rw [if_pos limited]
    exact .refused limited
  · have free : b.isLimited env.config id = false := by simpa using limited
    rw [if_neg limited]
    unfold evaluate
    cases found : (b.countTurn id).observer? id with
    | none => exact .missing free found
    | some o =>
      by_cases attached : doc.isAttached o.element
      · simp only [attached, if_true]
        exact .evaluated free o found attached
      · simp only [attached]
        exact .detached free o found (by simpa using attached)

/-! ## Turns -/

section
variable {b : Bindings ν}

/-- The counts of a turn do not matter to the rest. -/
theorem WellFormed.turn (h : b.WellFormed) (turn : List (ObserverId × Nat)) :
    { b with turn }.WellFormed :=
  h.of_fields rfl rfl rfl rfl rfl rfl rfl rfl h.nodup h.waiting (fun _ _ attempt => attempt)
    h.unattempted

theorem WellFormed.countTurn (h : b.WellFormed) (id : ObserverId) : (b.countTurn id).WellFormed :=
  h.turn _

/-- An attempt evaluates the observer that it found, after it has counted it. -/
theorem WellFormed.evaluates (h : b.WellFormed) (doc : Document) (env : Environment)
    {id : ObserverId} {o : Observer ν} (found : b.observer? id = some o) :
    let l := (b.countTurn id).lookUp doc env.accessors o
    Evaluates (b.countTurn id) o ((b.countTurn id).evaluateObserver doc env o).1 l.subscriptions
      l.readings :=
  evaluates_evaluateObserver (h.countTurn id) doc env (mem_of_observer? found).1

theorem UpToDate.turn {owed : List ObserverId} (upToDate : b.UpToDate owed)
    (turn : List (ObserverId × Nat)) : { b with turn }.UpToDate owed :=
  fun o mem => (upToDate o mem).imp_right fun rest => rest.imp_right fun current =>
    current.mono rfl fun _ _ r _ => version_congr rfl rfl r.source

end

/-! ## One attempt -/

section
variable {b c : Bindings ν} {doc doc' : Document} {env : Environment} {id : ObserverId}

/-- What an attempt leaves alone, however it comes out. -/
theorem Attempted.frame (h : b.WellFormed) (attempted : Attempted b doc env id c doc') :
    c.pending = b.pending ∧ c.nextObserver = b.nextObserver ∧ c.references = b.references := by
  cases attempted with
  | refused => exact ⟨rfl, rfl, rfl⟩
  | missing => exact ⟨rfl, rfl, rfl⟩
  | detached _ o =>
    have destroys := (b.countTurn id).destroys_destroyElement o.element
    exact ⟨destroys.pending, destroys.nextObserver, destroys.references⟩
  | evaluated _ o found =>
    have evaluates := h.evaluates doc env found
    exact ⟨evaluates.pending, evaluates.nextObserver, evaluates.references⟩

theorem Attempted.pending (h : b.WellFormed) (attempted : Attempted b doc env id c doc') :
    c.pending = b.pending :=
  (attempted.frame h).1

theorem Attempted.nextObserver (h : b.WellFormed) (attempted : Attempted b doc env id c doc') :
    c.nextObserver = b.nextObserver :=
  (attempted.frame h).2.1

theorem Attempted.references (h : b.WellFormed) (attempted : Attempted b doc env id c doc') :
    c.references = b.references :=
  (attempted.frame h).2.2

theorem lastAttempt?_refuse (b : Bindings ν) (id other : ObserverId) (limit : Nat) :
    (b.log (.cascadeLimit id limit)).lastAttempt? other =
      if id = other then some .refused else b.lastAttempt? other := by
  rw [log, lastAttempt?_record, Entry.attempt?]
  split <;> rfl

theorem WellFormed.refuse (h : b.WellFormed) (created : id.number < b.nextObserver) (limit : Nat) :
    (b.log (.cascadeLimit id limit)).WellFormed := by
  refine h.of_fields rfl rfl rfl rfl rfl rfl rfl rfl h.nodup h.waiting
    (fun other readings attempt => ?_) fun other new => ?_
  · rw [lastAttempt?_refuse] at attempt
    split at attempt
    · cases attempt
    · exact attempt
  · have different : id ≠ other := fun same => Nat.not_lt.mpr new (same ▸ created)
    rw [lastAttempt?_refuse, if_neg different]
    exact h.unattempted other new

theorem UpToDate.refuse {owed : List ObserverId} (upToDate : b.UpToDate (id :: owed))
    (limit : Nat) : (b.log (.cascadeLimit id limit)).UpToDate owed := by
  intro o mem
  have attempt := b.lastAttempt?_refuse id o.id limit
  by_cases own : id = o.id
  · exact .inr (.inr (.inl (attempt.trans (if_pos own))))
  · refine (upToDate o mem).imp_right fun rest => rest.imp (fun owed => ?_) fun current => ?_
    · exact (List.mem_cons.mp owed).resolve_left (Ne.symm own)
    · exact current.mono (attempt.trans (if_neg own)) fun _ _ r _ => version_congr rfl rfl r.source

theorem WellFormed.attempt (h : b.WellFormed) (created : id.number < b.nextObserver)
    (attempted : Attempted b doc env id c doc') : c.WellFormed := by
  cases attempted with
  | refused => exact (h.turn (b.enterTurn id).turn).refuse created _
  | missing => exact h.turn _
  | detached _ o => exact (h.countTurn id).destroyElement o.element
  | evaluated _ o found =>
    exact (h.countTurn id).evaluate (mem_of_observer? found).1 (h.evaluates doc env found)

/-- After an attempt its observer is owed nothing any more: it is current, or it is gone. -/
theorem UpToDate.attempt {owed : List ObserverId} (upToDate : b.UpToDate (id :: owed))
    (h : b.WellFormed) (attempted : Attempted b doc env id c doc') : c.UpToDate owed := by
  cases attempted with
  | refused => exact (upToDate.turn (b.enterTurn id).turn).refuse _
  | missing _ absent =>
    intro o mem
    have other : o.id ≠ id := observer?_eq_none.mp absent o mem
    refine (upToDate.turn _ o mem).imp_right fun rest => rest.imp_left fun owed => ?_
    exact (List.mem_cons.mp owed).resolve_left other
  | detached _ o found =>
    obtain ⟨there, rfl⟩ := mem_of_observer? found
    intro p mem
    have destroys := (b.countTurn o.id).destroys_destroyElement o.element
    have other : p.id ≠ o.id := fun same =>
      (destroys.mem_observers.mp mem).2 (same ▸ h.listed o there)
    have rest := (upToDate.turn (b.countTurn o.id).turn).destroy destroys p mem
    refine rest.imp_right fun rest => rest.imp_left fun owed => ?_
    exact (List.mem_cons.mp owed).resolve_left other
  | evaluated _ o found =>
    obtain ⟨-, rfl⟩ := mem_of_observer? found
    have evaluates := h.evaluates doc env found
    exact (upToDate.turn (b.countTurn o.id).turn).evaluate (h.countTurn o.id) evaluates

end

/-! ## The queue -/

/-- An observer of the queue is attempted, if it is there. -/
theorem flushOne_cases (b : Bindings ν) (doc : Document) (env : Environment) (report : FlushReport)
    (id : ObserverId) :
    (b.observer? id = none ∧ (b.flushOne doc env report id).1 = b ∧
        (b.flushOne doc env report id).2.1 = doc) ∨
      (b.observer? id).isSome ∧
        (b.flushOne doc env report id).1 = (b.evaluateNow doc env id).1 ∧
        (b.flushOne doc env report id).2.1 = (b.evaluateNow doc env id).2.1 := by
  unfold flushOne
  by_cases absent : (b.observer? id).isNone
  · rw [if_pos absent]
    exact .inl ⟨Option.isNone_iff_eq_none.mp absent, rfl, rfl⟩
  · rw [if_neg absent]
    refine .inr ⟨by simpa [Option.isSome_iff_ne_none] using absent, ?_⟩
    dsimp only
    split
    · next same => simp [same]
    · next same => simp [same]

/-- A relation between what is there and what is owed that each attempt carries on holds at the end
of the queue. -/
theorem flushEach_keeps {env : Environment} (P : Bindings ν → Document → List ObserverId → Prop)
    (absent : ∀ b doc id owed, b.observer? id = none → P b doc (id :: owed) → P b doc owed)
    (attempt : ∀ b doc id owed c doc', (b.observer? id).isSome → Attempted b doc env id c doc' →
      P b doc (id :: owed) → P c doc' owed)
    (ids : List ObserverId) {b : Bindings ν} {doc : Document} (report : FlushReport)
    (h : P b doc ids) :
    P (b.flushEach doc env report ids).1 (b.flushEach doc env report ids).2.1 [] := by
  induction ids generalizing b doc report with
  | nil => exact h
  | cons id rest ih =>
    have next : P (b.flushOne doc env report id).1 (b.flushOne doc env report id).2.1 rest := by
      rcases b.flushOne_cases doc env report id with ⟨missing, same, same'⟩ | ⟨there, same, same'⟩
      · rw [same, same']
        exact absent b doc id rest missing h
      · rw [same, same']
        exact attempt b doc id rest _ _ there (b.attempted_evaluateNow doc env id) h
    exact ih _ next

theorem WellFormed.idle {b : Bindings ν} (h : b.WellFormed) : { b with pending := [] }.WellFormed :=
  h.of_fields rfl rfl rfl rfl rfl rfl rfl rfl List.nodup_nil
    (fun _ none => absurd none List.not_mem_nil) (fun _ _ attempt => attempt) h.unattempted

/-- What each attempt keeps holds when the queue has been emptied. -/
theorem flush_keeps {env : Environment} {Q : Bindings ν → Document → Prop}
    (attempt : ∀ b doc id c doc', b.WellFormed → Attempted b doc env id c doc' → Q b doc →
      Q c doc')
    {b : Bindings ν} (h : b.WellFormed) {doc : Document} (start : Q { b with pending := [] } doc) :
    Q (b.flush doc env).1 (b.flush doc env).2.1 := by
  let P := fun (c : Bindings ν) (doc' : Document) (_ : List ObserverId) => c.WellFormed ∧ Q c doc'
  have last : P (b.flush doc env).1 (b.flush doc env).2.1 [] := by
    refine flushEach_keeps P (fun _ _ _ _ _ h => h) ?_ b.pending {} ⟨h.idle, start⟩
    rintro c doc₁ id owed d doc₂ there attempted ⟨wellFormed, kept⟩
    obtain ⟨o, found⟩ := Option.isSome_iff_exists.mp there
    obtain ⟨mem, rfl⟩ := mem_of_observer? found
    exact ⟨wellFormed.attempt (wellFormed.created o mem) attempted,
      attempt c doc₁ o.id d doc₂ wellFormed attempted kept⟩
  exact last.2

/-- When the queue has been emptied everybody is current. -/
theorem upToDate_flush {b : Bindings ν} (h : b.WellFormed) (upToDate : b.UpToDate [])
    (doc : Document) (env : Environment) :
    (b.flush doc env).1.WellFormed ∧ (b.flush doc env).1.pending = [] ∧
      (b.flush doc env).1.UpToDate [] := by
  let P := fun (c : Bindings ν) (_ : Document) owed =>
    c.WellFormed ∧ c.pending = [] ∧ c.UpToDate owed
  refine flushEach_keeps P ?_ ?_ b.pending {} ⟨h.idle, rfl, ?_⟩
  · rintro c doc id owed absent ⟨wellFormed, empty, current⟩
    refine ⟨wellFormed, empty, fun o mem => (current o mem).imp_right fun rest => ?_⟩
    exact rest.imp_left fun owed =>
      (List.mem_cons.mp owed).resolve_left (observer?_eq_none.mp absent o mem)
  · rintro c doc id owed d doc' there attempted ⟨wellFormed, empty, current⟩
    obtain ⟨o, found⟩ := Option.isSome_iff_exists.mp there
    obtain ⟨mem, rfl⟩ := mem_of_observer? found
    exact ⟨wellFormed.attempt (wellFormed.created o mem) attempted,
      (attempted.pending wellFormed).trans empty, current.attempt wellFormed attempted⟩
  · intro o mem
    rcases upToDate o mem with waits | owed | current
    · exact .inr (.inl waits)
    · exact absurd owed List.not_mem_nil
    · exact .inr (.inr (current.mono rfl fun _ _ r _ => version_congr rfl rfl r.source))

end FormDependencies.Bindings
