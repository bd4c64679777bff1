import FormDependencies.Proofs.Binding.Prospect

/-!
Emptying the queue in another order. After any part of the queue every observer stands as its
prospects were, so that the whole queue comes to the same in every order.
-/

namespace FormDependencies.Bindings
variable {ν : Type}

/-! ## Part of the queue -/

/-- How far emptying a queue has come from some bindings and a document, when some of the observers
have had their turns. -/
structure Reached (b : Bindings ν) (doc : Document) (env : Environment) (issued : List ObserverId)
    (done : List ObserverId) (c : Bindings ν) (doc' : Document) : Prop where
  alike : doc.SameStructure doc'
  extension : Extends doc .root b c
  founds : Founds b c fun name =>
    ∃ o ∈ b.observers, b.isEvaluated doc env done o ∧ o.query.AsksFor name
  registered : c.Registered issued
  orderly : c.Orderly
  standing : c.observers.map c.standing =
    (b.observers.filter (b.outlives doc env done)).map (b.prospect doc env done)
  turn : ∀ o ∈ c.observers, o.id ∉ done → c.turnCount o.id = b.turnCount o.id

namespace Reached
variable {b c : Bindings ν} {doc doc' : Document} {env : Environment}
  {issued done : List ObserverId} {id : ObserverId}

theorem start (allotted : b.Allotted) (registered : b.Registered issued) (orderly : b.Orderly)
    (doc : Document) (env : Environment) :
    Reached b doc env issued [] { b with pending := [] } doc := by
  have same : SameSources b { b with pending := [] } := .of_slots rfl rfl rfl
  have all : b.observers.filter (b.outlives doc env []) = b.observers :=
    List.filter_eq_self.mpr fun o _ => by simp [outlives, isTried]
  exact
  { alike := .refl doc
    extension := .of_same allotted same
    founds := (Founds.of_same same).congr fun name => by simp [isEvaluated, isTried]
    registered := registered.retain (.idle b)
    orderly := carried_orderly.idle orderly
    standing := by
      rw [all]
      refine List.map_congr_left fun o _ => ?_
      rw [standing_congr same.groups]
      simp [prospect, isEvaluated, isTried]
    turn := fun _ _ _ => rfl }

/-- Whoever is there was there, and is as it is to be. -/
theorem origin (h : Reached b doc env issued done c doc') {p : Observer ν}
    (mem : p ∈ c.observers) : ∃ o ∈ b.observers, b.outlives doc env done o ∧ o.id = p.id ∧
      b.prospect doc env done o = c.standing p := by
  have listed : c.standing p ∈ c.observers.map c.standing := List.mem_map_of_mem mem
  rw [h.standing] at listed
  obtain ⟨o, kept, same⟩ := List.mem_map.mp listed
  obtain ⟨there, outlives⟩ := List.mem_filter.mp kept
  refine ⟨o, there, outlives, ?_, same⟩
  rw [← (b.prospect_fst doc env done o).1, same]
  rfl

theorem remains (h : Reached b doc env issued done c doc') {o : Observer ν}
    (mem : o ∈ b.observers) (outlives : b.outlives doc env done o) :
    ∃ p ∈ c.observers, p.id = o.id := by
  have listed : b.prospect doc env done o ∈ c.observers.map c.standing :=
    h.standing ▸ List.mem_map_of_mem (List.mem_filter.mpr ⟨mem, outlives⟩)
  obtain ⟨p, there, same⟩ := List.mem_map.mp listed
  refine ⟨p, there, ?_⟩
  rw [← (b.prospect_fst doc env done o).1, ← same]
  rfl

/-- Before its turn an observer is as it was, apart from the numbers of its subscriptions. -/
theorem untouched (h : Reached b doc env issued done c doc') {p : Observer ν}
    (mem : p ∈ c.observers) (waits : p.id ∉ done) :
    ∃ o ∈ b.observers, b.outlives doc env done o ∧
      ∃ subscriptions, p = { o with subscriptions } := by
  obtain ⟨o, there, outlives, own, same⟩ := h.origin mem
  have still : b.prospect doc env done o = b.standing o := by
    simp [prospect, b.isEvaluated_of_not_mem doc env (own ▸ waits)]
  have bare : { o with subscriptions := [] } = { p with subscriptions := [] } :=
    congrArg Prod.fst (still.symm.trans same)
  exact ⟨o, there, outlives, p.subscriptions,
    (congrArg (fun q : Observer ν => { q with subscriptions := p.subscriptions }) bare).symm⟩

/-- A turn that comes to nothing, since the observer is gone or limited. -/
theorem idle (h : Reached b doc env issued done c doc')
    (nothing : ∀ o ∈ b.observers, b.outlives doc env done o → o.id = id →
      b.isLimited env.config o.id) : Reached b doc env issued (done ++ [id]) c doc' := by
  have evaluated : ∀ o ∈ b.observers,
      b.isEvaluated doc env (done ++ [id]) o = b.isEvaluated doc env done o :=
    fun o mem => isEvaluated_of_nothing nothing mem
  exact
  { h with
    founds := h.founds.congr fun name => exists_congr fun o => and_congr_right fun mem => by
      rw [evaluated o mem]
    standing := by
      rw [h.standing, outlives_of_nothing nothing]
      exact List.map_congr_left fun o kept =>
        prospect_congr (evaluated o (List.mem_filter.mp kept).1).symm
    turn := fun o mem waits => h.turn o mem fun before => waits (List.mem_append_left _ before) }

/-- A refusal is only noted. -/
theorem refuse (h : Reached b doc env issued done c doc') (id : ObserverId) (entry : Entry ν) :
    Reached b doc env issued done ((c.enterTurn id).record entry) doc' := by
  have same : SameSources c ((c.enterTurn id).record entry) := .of_slots rfl rfl rfl
  exact
  { alike := h.alike
    extension := h.extension.then_same same
    founds := h.founds.then_same same
    registered := (h.registered.retain (.turn c _)).retain (.record _ entry)
    orderly := carried_orderly.record (carried_orderly.setTurn h.orderly id _) entry
    standing := by
      rw [standing_congr same.groups]
      exact h.standing
    turn := fun o mem waits => (c.turnCount_enterTurn id o.id).trans (h.turn o mem waits) }

/-- Whether an observer is limited when its turn comes has been settled before. -/
theorem isLimited (h : Reached b doc env issued done c doc') {p : Observer ν}
    (mem : p ∈ c.observers) (waits : p.id ∉ done) :
    b.isLimited env.config p.id = c.isLimited env.config p.id := by
  unfold Bindings.isLimited
  rw [h.turn p mem waits]

/-- An observer finds its element detached, so that all observers of the element go. -/
theorem detach (h : Reached b doc env issued done c doc') (start : b.Registered issued)
    {p : Observer ν} (mem : p ∈ c.observers) (waits : p.id ∉ done)
    (free : c.isLimited env.config p.id = false) (loose : doc'.isAttached p.element = false) :
    Reached b doc env issued (done ++ [p.id])
      ((c.countTurn p.id).destroyElement p.element).1 doc' := by
  have free : b.isLimited env.config p.id = false := (h.isLimited mem waits).trans free
  obtain ⟨o, there, -, subscriptions, rfl⟩ := h.untouched mem waits
  dsimp only at waits free loose ⊢
  have loose : doc.isAttached o.element = false := (h.alike.isAttached o.element).symm.trans loose
  have registered : (c.countTurn o.id).Registered issued := h.registered.retain (.turn c _)
  have observers := registered.observers_destroyElement o.element
  have destroys := (c.countTurn o.id).destroys_destroyElement o.element
  have counted : SameSources c (c.countTurn o.id) := .of_slots rfl rfl rfl
  have same := counted.trans (.destroyElement (c.countTurn o.id) o.element)
  have evaluated : ∀ q ∈ b.observers,
      b.isEvaluated doc env (done ++ [o.id]) q = b.isEvaluated doc env done q := by
    intro q listed
    rw [Bool.eq_iff_iff, isEvaluated_append start there free listed]
    simp [loose]
  exact
  { alike := h.alike
    extension := h.extension.then_same same
    founds := (h.founds.then_same same).congr fun name =>
      exists_congr fun q => and_congr_right fun listed => by rw [evaluated q listed]
    registered := registered.destroyElement o.element
    orderly := (carried_orderly.setTurn h.orderly o.id _).narrow (.destroyElement _ o.element)
    standing := by
      have remaining : ∀ q ∈ b.observers, b.outlives doc env (done ++ [o.id]) q =
          (q.element != o.element && b.outlives doc env done q) := by
        intro q _
        rw [Bool.eq_iff_iff, outlives_append start there free]
        simp [loose, and_comm]
      calc _ = (c.observers.filter fun q => q.element != o.element).map c.standing := by
            rw [observers, standing_congr same.groups]
            rfl
        _ = (c.observers.map c.standing).filter fun v => v.1.element != o.element := by
            rw [List.filter_map]
            rfl
        _ = ((b.observers.filter (b.outlives doc env done)).filter fun q =>
              q.element != o.element).map (b.prospect doc env done) := by
            rw [h.standing, List.filter_map]
            simp only [Function.comp_def, (prospect_fst b doc env done _).2]
        _ = _ := by
            rw [List.filter_filter, ← List.filter_congr remaining]
            exact List.map_congr_left fun q kept =>
              prospect_congr (evaluated q (List.mem_filter.mp kept).1).symm
    turn := by
      intro q listed waits
      obtain ⟨was, remains⟩ := destroys.mem_observers.mp listed
      rw [destroys.turnCount remains, turnCount_countTurn,
        if_neg fun same => waits (by simp [same])]
      exact h.turn q was fun before => waits (List.mem_append_left _ before) }

/-- An observer is evaluated, with the result that it would have had at once. -/
theorem evaluate (h : Reached b doc env issued done c doc') (allotted : b.Allotted)
    (start : b.Registered issued) {p : Observer ν} (mem : p ∈ c.observers) (waits : p.id ∉ done)
    (free : c.isLimited env.config p.id = false) (attached : doc'.isAttached p.element)
    (independent : ∀ o ∈ b.observers, o.id = p.id → o.Independent env) :
    Reached b doc env issued (done ++ [p.id])
      ((c.countTurn p.id).evaluateObserver doc' env p).1
      ((c.countTurn p.id).evaluateObserver doc' env p).2.1 := by
  have free : b.isLimited env.config p.id = false := (h.isLimited mem waits).trans free
  obtain ⟨o, there, -, subscriptions, rfl⟩ := h.untouched mem waits
  -- the observer differs from the one before all turns by its subscriptions only
  dsimp only at waits free attached ⊢
  have attached : doc.isAttached o.element := h.alike.isAttached o.element ▸ attached
  have independent := independent o there rfl
  let p : Observer ν := { o with subscriptions }
  let counted := c.countTurn o.id
  have same : SameSources c counted := .of_slots rfl rfl rfl
  have extension := h.extension.then_same same
  have placed := extension.allotted.placed
  have ordered : counted.Orderly := carried_orderly.setTurn h.orderly o.id _
  have independent : p.Independent env := ⟨independent.plain, independent.action⟩
  have stands := standing_evaluateObserver h.alike extension allotted ordered independent
  have found := Founds.evaluateObserver extension.allotted doc' env independent.plain
  have extended := extends_evaluateObserver extension.allotted doc' env p
  have retains := (retains_evaluateObserver placed doc' env p).1
  have turn := turn_evaluateObserver placed doc' env p
  have evaluated : ∀ q ∈ b.observers, b.isEvaluated doc env (done ++ [o.id]) q ↔
      b.isEvaluated doc env done q ∨ q = o ∧ doc.isAttached o.element :=
    fun q listed => isEvaluated_append start there free listed
  exact
  { alike := h.alike.trans (structure_evaluateObserver counted doc' independent)
    extension := extension.trans (extended.of_structure h.alike found)
    founds := by
      refine ((h.founds.then_same same).trans found).congr fun name => ?_
      constructor
      · rintro (⟨q, listed, before, asks⟩ | asks)
        · exact ⟨q, listed, (evaluated q listed).mpr (.inl before), asks⟩
        · exact ⟨o, there, (evaluated o there).mpr (.inr ⟨rfl, attached⟩), asks⟩
      · rintro ⟨q, listed, now, asks⟩
        rcases (evaluated q listed).mp now with before | ⟨rfl, -⟩
        · exact .inl ⟨q, listed, before, asks⟩
        · exact .inr asks
    registered := (h.registered.retain (.turn c _)).retain retains
    orderly := ordered.evaluateObserver doc' env p
    standing := by
      have remaining : b.outlives doc env (done ++ [o.id]) = b.outlives doc env done := by
        funext q
        rw [Bool.eq_iff_iff, outlives_append start there free]
        simp [attached]
      calc _ = (c.observers.map c.standing).map (b.advanced doc env o) := stands
        _ = (b.observers.filter (b.outlives doc env done)).map
              (b.prospect doc env (done ++ [o.id])) := by
            rw [h.standing, List.map_map]
            exact List.map_congr_left fun q kept =>
              advanced_prospect start there waits free attached (List.mem_filter.mp kept).1
        _ = _ := by rw [remaining]
    turn := by
      intro q listed waits
      obtain ⟨before, was, same⟩ := retains.before listed
      have same : before.id = q.id := congrArg (·.id) same
      have fresh : q.id ∉ done := fun had => waits (List.mem_append_left _ had)
      have other : q.id ≠ o.id := fun own => waits (by simp [own])
      rw [turnCount_congr turn, turnCount_countTurn, if_neg other, ← same]
      exact h.turn before was (same ▸ fresh) }

/-- What one observer of the queue comes to. -/
theorem flushOne (h : Reached b doc env issued done c doc') (allotted : b.Allotted)
    (start : b.Registered issued) (waits : id ∉ done)
    (independent : ∀ o ∈ b.observers, o.id = id → o.Independent env) (report : FlushReport) :
    Reached b doc env issued (done ++ [id]) (c.flushOne doc' env report id).1
      (c.flushOne doc' env report id).2.1 := by
  rcases c.flushOne_cases doc' env report id with ⟨absent, same, same'⟩ | ⟨there, same, same'⟩
  · rw [same, same']
    refine h.idle fun o mem outlives own => ?_
    obtain ⟨p, there, same⟩ := h.remains mem outlives
    exact absurd (same.trans own) (observer?_eq_none.mp absent p there)
  · obtain ⟨p, found⟩ := Option.isSome_iff_exists.mp there
    obtain ⟨mem, rfl⟩ := mem_of_observer? found
    have attempted := c.attempted_evaluateNow doc' env p.id
    rw [same, same']
    generalize (c.evaluateNow doc' env p.id).1 = d at attempted
    generalize (c.evaluateNow doc' env p.id).2.1 = doc'' at attempted
    cases attempted with
    | refused limited =>
      refine (h.idle fun o _ _ own => ?_).refuse p.id _
      rw [own, h.isLimited mem waits]
      exact limited
    | missing free absent => exact absurd rfl (observer?_eq_none.mp absent p mem)
    | detached free q found' loose =>
      obtain rfl : p = q := Option.some.inj (found.symm.trans found')
      exact h.detach start mem waits free loose
    | evaluated free q found' attached =>
      obtain rfl : p = q := Option.some.inj (found.symm.trans found')
      exact h.evaluate allotted start mem waits free attached independent

theorem flushEach (allotted : b.Allotted) (start : b.Registered issued) (order : List ObserverId)
    (report : FlushReport) (h : Reached b doc env issued done c doc')
    (distinct : (done ++ order).Nodup)
    (independent : ∀ o ∈ b.observers, o.id ∈ order → o.Independent env) :
    Reached b doc env issued (done ++ order) (c.flushEach doc' env report order).1
      (c.flushEach doc' env report order).2.1 := by
  -- whoever has its turn goes over from the queue to those that have had theirs
  induction order generalizing done c doc' report with
  | nil => simpa [Bindings.flushEach] using h
  | cons id rest ih =>
    have waits : id ∉ done := fun mem =>
      (List.nodup_append.mp distinct).2.2 id mem id List.mem_cons_self rfl
    have next := h.flushOne allotted start waits
      (fun o mem own => independent o mem (own ▸ List.mem_cons_self)) report
    rw [List.append_cons] at distinct
    rw [Bindings.flushEach, List.append_cons]
    exact ih _ next distinct fun o mem later => independent o mem (List.mem_cons_of_mem _ later)

end Reached

/-! ## Groups -/

def content (b : Bindings ν) (g : Group) : (String × ElementId) × List ElementId × Value :=
  ((g.name, g.scope), g.members, b.read g.slot)

/-- What the group of a key is, or would be if it came about in a document. -/
def contentAt (b : Bindings ν) (doc : Document) (key : String × ElementId) :
    (String × ElementId) × List ElementId × Value :=
  match b.group? key.1 key.2 with
  | some g => b.content g
  | none =>
    let members := b.namedWithin doc key.2 key.1
    (key, members.map (·.element), b.memberValues members)

theorem group?_isSome_iff (b : Bindings ν) (key : String × ElementId) :
    (b.group? key.1 key.2).isSome ↔ key ∈ b.groups.map fun g => (g.name, g.scope) := by
  simp [group?, Prod.ext_iff]

theorem Allotted.group?_of_mem {b : Bindings ν} (h : b.Allotted) {g : Group}
    (mem : g ∈ b.groups) : b.group? g.name g.scope = some g := by
  obtain ⟨other, found⟩ := Option.isSome_iff_exists.mp
    ((b.group?_isSome_iff (g.name, g.scope)).mpr (List.mem_map_of_mem mem))
  obtain ⟨there, name, scope⟩ := mem_of_group? found
  rw [found, List.inj_on_of_nodup_map h.keys there mem (Prod.ext name scope)]

theorem Extends.content {doc : Document} {el : ElementId} {b c : Bindings ν}
    (h : Extends doc el b c) (allotted : b.Allotted) {g : Group} (mem : g ∈ c.groups) :
    c.content g = b.contentAt doc (g.name, g.scope) := by
  have own := h.allotted.group?_of_mem mem
  unfold Bindings.contentAt Bindings.content
  dsimp only
  cases found : b.group? g.name g.scope with
  | some g' =>
    obtain rfl : g' = g := Option.some.inj ((h.group?_eq_some found).symm.trans own)
    dsimp only
    rw [h.reads g'.slot (allotted.placed.groups g' (mem_of_group? found).1)]
  | none =>
    obtain ⟨members, values⟩ := h.fresh_of_new found own
    rw [groupValues_congr h.references (h.reads_references allotted.placed)] at values
    rw [recomputed_congr h.references] at members
    dsimp only
    rw [values, ← congrArg Group.members members]
    rfl

/-- Groups that have been brought about for the same names are the same, up to their order. -/
theorem Founds.content_perm {doc : Document} {el : ElementId} {b c d : Bindings ν}
    {asked : String → Prop} (first : Founds b c asked) (second : Founds b d asked)
    (extension : Extends doc el b c) (extension' : Extends doc el b d) (allotted : b.Allotted) :
    (c.groups.map c.content).Perm (d.groups.map d.content) := by
  have keyed : ∀ {e : Bindings ν}, Extends doc el b e → e.groups.map e.content =
      (e.groups.map fun g => (g.name, g.scope)).map (b.contentAt doc) := by
    intro e extension
    rw [List.map_map]
    exact List.map_congr_left fun g mem => extension.content allotted mem
  rw [keyed extension, keyed extension']
  refine List.Perm.map _ ((List.perm_ext_iff_of_nodup extension.allotted.keys
    extension'.allotted.keys).mpr fun key => ?_)
  rw [← group?_isSome_iff, ← group?_isSome_iff, first.keys, second.keys]

/-! ## The whole queue -/

/-- All observers stand the same, and references and groups hold the same. The numbers of
subscriptions may differ, and so may the slots and the order of groups. -/
structure SameOutcome (c d : Bindings ν) : Prop where
  observers : c.observers.map c.standing = d.observers.map d.standing
  references : c.references = d.references
  values : ∀ r ∈ c.references, c.read r.slot = d.read r.slot
  groups : (c.groups.map c.content).Perm (d.groups.map d.content)

namespace Reached
variable {b c d : Bindings ν} {doc doc' doc'' : Document} {env : Environment}
  {issued done done' : List ObserverId}

theorem congr (h : Reached b doc env issued done c doc') (same : ∀ id, id ∈ done ↔ id ∈ done') :
    Reached b doc env issued done' c doc' := by
  have tried : b.isTried env done = b.isTried env done' := by
    funext o
    simp [isTried, same]
  have evaluated : b.isEvaluated doc env done = b.isEvaluated doc env done' := by
    funext o
    rw [isEvaluated, isEvaluated, tried]
  have outlives : b.outlives doc env done = b.outlives doc env done' := by
    funext o
    rw [Bindings.outlives, Bindings.outlives, tried]
  have prospect : b.prospect doc env done = b.prospect doc env done' := by
    funext o
    exact prospect_congr (congrFun evaluated o)
  exact
  { h with
    founds := evaluated ▸ h.founds
    standing := prospect ▸ outlives ▸ h.standing
    turn := fun o mem waits => h.turn o mem fun had => waits ((same o.id).mp had) }

theorem flush (allotted : b.Allotted) (registered : b.Registered issued) (orderly : b.Orderly)
    (doc : Document) {order : List ObserverId} (distinct : order.Nodup)
    (independent : ∀ o ∈ b.observers, o.id ∈ order → o.Independent env) :
    Reached b doc env issued order (Bindings.flush { b with pending := order } doc env).1
      (Bindings.flush { b with pending := order } doc env).2.1 :=
  flushEach allotted registered order {} (.start allotted registered orderly doc env) distinct
    independent

theorem sameOutcome (first : Reached b doc env issued done c doc')
    (second : Reached b doc env issued done d doc'') (allotted : b.Allotted) :
    SameOutcome c d where
  observers := first.standing.trans second.standing.symm
  references := first.extension.references.trans second.extension.references.symm
  values r mem := by
    have mem := first.extension.references ▸ mem
    exact (first.extension.reads_references allotted.placed r mem).trans
      (second.extension.reads_references allotted.placed r mem).symm
  groups := first.founds.content_perm second.founds first.extension second.extension allotted

end Reached

/-- In whatever order the waiting observers are evaluated, they come to the same. -/
theorem flush_rearranged (uses : List (Use ν)) (doc : Document) (env : Environment)
    {order : List ObserverId} (rearranged : order.Perm (run uses).pending)
    (independent : ∀ o ∈ (run uses).observers, o.id ∈ (run uses).pending → o.Independent env) :
    SameOutcome (Bindings.flush { run uses with pending := order } doc env).1
      ((run uses).flush doc env).1 := by
  have allotted := allotted_run uses
  have registered := registered_run uses
  have orderly := orderly_run uses
  have distinct := rearranged.nodup_iff.mpr orderly.nodup
  have first := Reached.flush allotted registered orderly doc distinct
    fun o mem waits => independent o mem (rearranged.mem_iff.mp waits)
  have second := Reached.flush allotted registered orderly doc orderly.nodup independent
  exact (first.congr fun _ => rearranged.mem_iff).sameOutcome second allotted

def threefold : Document :=
  Document.new.editAll [.create "input", .append .root ⟨1⟩, .create "input", .append .root ⟨2⟩,
    .setAttribute ⟨1⟩ Config.standard.referenceAttribute "amount",
    .setAttribute ⟨2⟩ Config.standard.queryAttribute "@@amount;@@total;@amount",
    .setAttribute ⟨2⟩ Config.standard.actionAttribute "set;set;set"]

def threefoldUses : List (Use Unit) :=
  [.references threefold (.register .builtin .standard ⟨1⟩),
    .observers (.init threefold ⟨2⟩ .builtin .standard) trivial,
    .observers (.queueWithin threefold .root) trivial]

def countsAmounts : Environment where
  accessors := .builtin
  config := .standard
  evaluator := .groupCountAtLeast "amount" 1

/-- The groups come about the other way round, and another value is written last. -/
theorem flush_rearranged_threefold :
    let b := run threefoldUses
    let forwards := b.flush threefold countsAmounts
    let backwards := Bindings.flush { b with pending := [⟨2⟩, ⟨1⟩, ⟨0⟩] } threefold countsAmounts
    b.pending = [⟨0⟩, ⟨1⟩, ⟨2⟩] ∧
      (∀ o ∈ b.observers, o.id ∈ b.pending → o.Independent countsAmounts) ∧
      SameOutcome backwards.1 forwards.1 ∧
      forwards.1.groups.map (·.name) = ["amount", "total"] ∧
      backwards.1.groups.map (·.name) = ["total", "amount"] ∧
      forwards.2.1.value ⟨2⟩ = "false" ∧ backwards.2.1.value ⟨2⟩ = "true" := by
  intro b forwards backwards
  have pending : b.pending = [⟨0⟩, ⟨1⟩, ⟨2⟩] := by decide +kernel
  have plain : ∀ o ∈ b.observers, ∀ token ∈ o.query.references,
      token.kind ≠ .this ∧ token.scope.isNone := by decide +kernel
  have permits := Document.SameTree.permits
  have keeps : b.Keeps Document.SameTree fun _ => True := by
    have start : (empty : Bindings Unit).Keeps Document.SameTree fun _ => True :=
      fun _ none => absurd none List.not_mem_nil
    exact ((start.announce (.register empty threefold .builtin .standard ⟨1⟩)).init
      permits.builtinActions threefold ⟨2⟩ .standard).announce (.queueWithin _ threefold .root)
  have independent : ∀ o ∈ b.observers, o.id ∈ b.pending → o.Independent countsAmounts := by
    intro o mem _
    refine o.independent (fun token listed => ?_) ⟨permits.builtinAccessors, trivial⟩ (keeps o mem)
    obtain ⟨kind, scope⟩ := plain o mem token listed
    exact ⟨kind, Option.isNone_iff_eq_none.mp scope⟩
  have rearranged : [⟨2⟩, ⟨1⟩, ⟨0⟩].Perm b.pending := by
    rw [pending]
    decide
  exact ⟨pending, independent,
    flush_rearranged threefoldUses threefold countsAmounts rearranged independent,
    by decide +kernel, by decide +kernel, by decide +kernel, by decide +kernel⟩

end FormDependencies.Bindings
