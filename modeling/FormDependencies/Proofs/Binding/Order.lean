import FormDependencies.Proofs.Binding.Settlement

/-!
The order of the queue. Observers wait in the order in which they joined first, and emptying the
queue evaluates exactly those that are there, attached and below the limit when their turn comes, in
that order.
-/

namespace FormDependencies.Bindings
variable {ν : Type}

theorem eraseDups_eq_self {ids : List ObserverId} (distinct : ids.Nodup) : ids.eraseDups = ids := by
  induction ids with
  | nil => rfl
  | cons id rest ih =>
    obtain ⟨absent, distinct⟩ := List.nodup_cons.mp distinct
    have kept : (rest.filter fun other => !other == id) = rest :=
      List.filter_eq_self.mpr fun other mem => by
        simp [show other ≠ id from fun same => absent (same ▸ mem)]
    rw [List.eraseDups_cons, kept, ih distinct]

/-- Whoever joins again keeps the place that it has. -/
theorem pending_foldl_push (ids : List ObserverId) (b : Bindings ν) (distinct : b.pending.Nodup) :
    (ids.foldl push b).pending = (b.pending ++ ids).eraseDups := by
  induction ids generalizing b with
  | nil => rw [List.append_nil, eraseDups_eq_self distinct, List.foldl_nil]
  | cons id rest ih =>
    rw [List.foldl_cons]
    by_cases waits : id ∈ b.pending
    · have same : b.push id = b := if_pos (List.contains_iff_mem.mpr waits)
      rw [same, ih b distinct, List.eraseDups_append, List.eraseDups_append]
      simp [List.removeAll, waits]
    · have joined : (b.push id).pending = b.pending ++ [id] := by
        simp [push, waits]
      have distinct' : (b.push id).pending.Nodup := by
        rw [joined]
        refine List.nodup_append.mpr ⟨distinct, List.pairwise_singleton .., ?_⟩
        rintro other mem last mem' rfl
        exact waits (List.mem_singleton.mp mem' ▸ mem)
      rw [ih (b.push id) distinct', joined, List.append_assoc]
      rfl

/-- Whether an attempt evaluates an observer: it is there, its element is attached, and the limit of
the turn is not reached. -/
def isDue (b : Bindings ν) (doc : Document) (env : Environment) (id : ObserverId) : Bool :=
  !b.isLimited env.config id && (b.observer? id).any fun o => doc.isAttached o.element

section
variable {b c : Bindings ν} {doc doc' : Document} {env : Environment} {id : ObserverId}

theorem Attempted.evaluated_eq (h : b.WellFormed) (attempted : Attempted b doc env id c doc') :
    c.evaluated = b.evaluated ++ if b.isDue doc env id then [id] else [] := by
  cases attempted with
  | refused limited =>
    have same : (b.enterTurn id).evaluated = b.evaluated := rfl
    simp [isDue, limited, log, evaluated_record, Entry.evaluated?, same]
  | missing free absent =>
    have same : (b.countTurn id).evaluated = b.evaluated := rfl
    simp [isDue, free, absent, same]
  | detached free o found loose =>
    have same := (sameHistory_destroyElement (b.countTurn id) o.element).evaluated
    simp only [isDue, free, found, Option.any_some, loose, Bool.and_false, Bool.false_eq_true,
      if_false, List.append_nil]
    exact same
  | evaluated free o found attached =>
    obtain ⟨-, rfl⟩ := mem_of_observer? found
    simp only [isDue, free, found, Option.any_some, attached, Bool.not_false, Bool.and_self,
      if_true]
    exact (h.evaluates doc env found).evaluated

/-- What one observer of the queue comes to. -/
theorem flushOne_eq (h : b.WellFormed) (doc : Document) (env : Environment) (report : FlushReport)
    (id : ObserverId) :
    (b.flushOne doc env report id).1.WellFormed ∧
      (b.flushOne doc env report id).1.pending = b.pending ∧
      (b.flushOne doc env report id).1.evaluated =
        b.evaluated ++ if b.isDue doc env id then [id] else [] := by
  rcases b.flushOne_cases doc env report id with ⟨absent, same, -⟩ | ⟨there, same, -⟩
  · rw [same]
    exact ⟨h, rfl, by simp [isDue, absent]⟩
  · obtain ⟨o, found⟩ := Option.isSome_iff_exists.mp there
    obtain ⟨mem, rfl⟩ := mem_of_observer? found
    have attempted := b.attempted_evaluateNow doc env o.id
    rw [same]
    exact ⟨h.attempt (h.created o mem) attempted, attempted.pending h, attempted.evaluated_eq h⟩

end

/-- Emptying the queue evaluates `done` in order: of those that waited the ones that are due when
everybody before them has had a turn. Meanwhile nobody is queued. -/
structure FlushesInOrder (b : Bindings ν) (doc : Document) (env : Environment)
    (done : List ObserverId) : Prop where
  evaluated : (b.flush doc env).1.evaluated = b.evaluated ++ done
  ordered : done.Sublist b.pending
  exact : ∀ before id after, b.pending = before ++ id :: after →
    let reached := flushEach { b with pending := [] } doc env {} before
    id ∈ done ↔ reached.1.isDue reached.2.1 env id
  quiet : ∀ before after, b.pending = before ++ after →
    (flushEach { b with pending := [] } doc env {} before).1.pending = []

theorem flushEach_inOrder (env : Environment) (ids : List ObserverId) (distinct : ids.Nodup)
    {b : Bindings ν} (h : b.WellFormed) (doc : Document) (report : FlushReport) :
    ∃ done, (b.flushEach doc env report ids).1.evaluated = b.evaluated ++ done ∧
      done.Sublist ids ∧
      (∀ before id after, ids = before ++ id :: after →
        (id ∈ done ↔ (b.flushEach doc env report before).1.isDue
          (b.flushEach doc env report before).2.1 env id)) ∧
      ∀ before after, ids = before ++ after →
        (b.flushEach doc env report before).1.pending = b.pending := by
  induction ids generalizing b doc report with
  | nil =>
    refine ⟨[], (List.append_nil _).symm, List.Sublist.refl _, fun before id after none => ?_,
      fun before after none => ?_⟩
    · exact absurd none (by simp)
    · rw [(List.append_eq_nil_iff.mp none.symm).1]
      rfl
  | cons first rest ih =>
    obtain ⟨absent, distinct⟩ := List.nodup_cons.mp distinct
    obtain ⟨wellFormed, pending, evaluated⟩ := flushOne_eq h doc env report first
    obtain ⟨done, later, ordered, exact, quiet⟩ := ih distinct wellFormed
      (b.flushOne doc env report first).2.1 (b.flushOne doc env report first).2.2
    refine ⟨(if b.isDue doc env first then [first] else []) ++ done, ?_, ?_,
      fun before id after same => ?_, fun before after same => ?_⟩
    · rw [flushEach]
      exact later.trans (by rw [evaluated, List.append_assoc])
    · split
      · exact ordered.cons_cons first
      · exact ordered.cons first
    · cases before with
      | nil =>
        obtain ⟨rfl, rfl⟩ := List.cons.inj same
        have notLater : first ∉ done := fun mem => absent (ordered.subset mem)
        by_cases due : b.isDue doc env first <;> simp [due, notLater, flushEach]
      | cons head before =>
        obtain ⟨rfl, rfl⟩ := List.cons.inj same
        have other : id ≠ first := fun same => absent (same ▸ by simp)
        rw [flushEach, ← exact before id after rfl]
        by_cases due : b.isDue doc env first <;> simp [due, other]
    · cases before with
      | nil => rfl
      | cons head before =>
        obtain ⟨rfl, rfl⟩ := List.cons.inj same
        rw [flushEach]
        exact (quiet before after rfl).trans pending

theorem flushesInOrder {b : Bindings ν} (h : b.WellFormed) (doc : Document) (env : Environment) :
    ∃ done, FlushesInOrder b doc env done := by
  obtain ⟨done, evaluated, ordered, exact, quiet⟩ :=
    flushEach_inOrder env b.pending h.nodup h.idle doc {}
  exact ⟨done, evaluated, ordered, exact, quiet⟩

end FormDependencies.Bindings
