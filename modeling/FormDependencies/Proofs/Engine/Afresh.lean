import FormDependencies.Proofs.Engine.Hosted
import FormDependencies.Proofs.Engine.Registration
import FormDependencies.Proofs.Engine.Scan

/-!
When a pass is as good as to start afresh. A pass over the root leaves the references and observers
that a new engine would have, unless the engine holds something that the document does not declare
any more and the pass does not notice: a reference whose element declares none now, observers of an
element without queries, or observers that are taken for those of other declarations.
-/

namespace FormDependencies
variable {ν : Type}

open Document (SameDeclarations)

theorem Document.SameDeclarations.naming? {doc doc' : Document} (h : SameDeclarations doc doc')
    (el : ElementId) : doc'.naming? .standard el = doc.naming? .standard el := by
  have name : doc'.referenceName el .standard = doc.referenceName el .standard := by
    unfold Document.referenceName
    rw [h.attribute? el (by decide), h.attribute? el (by decide)]
  have type : doc'.referenceType el .standard = doc.referenceType el .standard := by
    unfold Document.referenceType
    rw [h.attribute? el (by decide)]
  unfold Document.naming?
  rw [h.hasAttribute el (by decide), name, type]

structure Bindings.SameRegistries (b c : Bindings ν) : Prop where
  references : ∀ n, n ∈ b.namings ↔ n ∈ c.namings
  observers : ∀ o, o ∈ b.observers.map Observer.origin ↔ o ∈ c.observers.map Observer.origin

theorem Bindings.sameRegistries_iff {b c : Bindings ν} (placed : b.Placed) (placed' : c.Placed) :
    SameRegistries b c ↔
      (∀ el, b.naming? el = c.naming? el) ∧ ∀ el o, o ∈ b.origins el ↔ o ∈ c.origins el := by
  have listed : ∀ {b : Bindings ν} {el : ElementId} {n : Naming}, b.Placed →
      (b.naming? el = some n ↔ n ∈ b.namings ∧ n.element = el) := by
    intro b el n placed
    constructor
    · intro found
      have same := element_of_naming? found
      exact ⟨(mem_namings_iff placed).mpr (same.symm ▸ found), same⟩
    · rintro ⟨mem, rfl⟩
      exact (mem_namings_iff placed).mp mem
  have own : ∀ {b : Bindings ν} {o : Origin},
      o ∈ b.observers.map Observer.origin ↔ o ∈ b.origins o.element := by
    intro b o
    simp [mem_origins]
  constructor
  · rintro ⟨references, observers⟩
    constructor
    · intro el
      apply Option.ext
      intro n
      rw [listed placed, listed placed', references n]
    · intro el o
      rw [mem_origins, mem_origins, observers o]
  · rintro ⟨references, observers⟩
    constructor
    · intro n
      rw [mem_namings_iff placed, mem_namings_iff placed', references]
    · intro o
      rw [own, own, observers]

theorem Bindings.sameRegistries_congr {b b' c c' : Bindings ν} (notes : Notes b b')
    (notes' : Notes c c') : SameRegistries b' c' ↔ SameRegistries b c := by
  obtain ⟨added, rfl, -⟩ := notes
  obtain ⟨added', rfl, -⟩ := notes'
  constructor
  · rintro ⟨references, observers⟩
    exact ⟨references, observers⟩
  · rintro ⟨references, observers⟩
    exact ⟨references, observers⟩

/-- What is held of attached elements is what they declare, but for what the next pass over the root
makes anew. -/
structure Bindings.Reflects (b : Bindings ν) (doc : Document) : Prop where
  /-- The elements of references declare one. -/
  references : ∀ r ∈ b.references, doc.isAttached r.element →
    (doc.naming? .standard r.element).isSome
  /-- The elements of observers carry queries. -/
  queries : ∀ o ∈ b.observers, doc.isAttached o.element →
    doc.hasAttribute o.element Config.standard.queryAttribute
  /-- Observers that are kept come from the declarations that are there. -/
  kept : ∀ el, doc.isAttached el → doc.hasAttribute el Config.standard.queryAttribute →
    ¬b.Renews doc el →
    ∀ o, o ∈ b.origins el ↔ o ∈ doc.origins (.builtin : ActionTable ν) .standard el

namespace Engine

section
variable {e : Engine ν} {doc : Document} {el : ElementId}

/-- A pass over an attached container is a scan, which the host does not interfere with. -/
theorem runPass_attached (e : Engine ν) {doc : Document} {pass : Pass ν}
    (attached : doc.isAttached pass.container) :
    Bindings.Notes (e.scan doc pass.container).1.bindings (e.runPass doc pass).1.bindings ∧
      (e.runPass doc pass).1.errors = (e.scan doc pass.container).1.errors ∧
      (pass.callback = none → (e.runPass doc pass).2 = (e.scan doc pass.container).2) := by
  unfold runPass
  rw [if_pos attached]
  cases pass.callback with
  | none => exact ⟨.refl _, rfl, fun _ => rfl⟩
  | some callback =>
    refine ⟨.recordNotes _ _, rfl, fun none => ?_⟩
    cases none

/-- What a pass over the root leaves of the observers of an element. -/
theorem Standard.origins_scan (h : e.Standard doc) (el : ElementId)
    (clean : (e.scan doc .root).1.errors = e.errors) :
    (doc.isAttached el = false → (e.scan doc .root).1.bindings.origins el = []) ∧
      (doc.isAttached el → e.bindings.Renews doc el → (e.scan doc .root).1.bindings.origins el =
        doc.origins (.builtin : ActionTable ν) .standard el) ∧
      (doc.isAttached el → ¬e.bindings.Renews doc el →
        (e.scan doc .root).1.bindings.origins el = e.bindings.origins el) := by
  obtain ⟨attached, detached⟩ := h.settled.initialized_scan h.keeps h.builtin h.formed el
  refine ⟨detached, fun there renews => ?_, fun there stays => ?_⟩
  · exact (attached there).renewed renews.carries renews
  · exact ((attached there).kept (fun both => stays both.2)
      (Nat.le_of_eq (congrArg List.length clean))).origins

/-- A new engine gets just what the document declares. -/
theorem origins_create {evaluator : Evaluator} {fresh : Engine ν}
    (created : create .standard evaluator = .ok fresh) (formed : doc.WellFormed) (el : ElementId) :
    (fresh.scan doc .root).1.bindings.origins el =
      if doc.isAttached el then doc.origins (.builtin : ActionTable ν) .standard el else [] := by
  have standard := Standard.create created formed
  have announces := Bindings.Announces.notes (notes_create created)
  obtain ⟨attached, detached⟩ :=
    standard.settled.initialized_scan standard.keeps standard.builtin formed el
  cases there : doc.isAttached el with
  | false => exact detached there
  | true =>
    rw [if_pos rfl]
    have initialized := attached there
    by_cases renews : fresh.bindings.Renews doc el
    · exact initialized.renewed renews.carries renews
    · -- the element declares nothing, or nothing right
      apply initialized.stable
      have none : fresh.bindings.origins el = [] := by
        apply Bindings.origins_eq_nil.mpr
        intro o mem
        rw [announces.observers] at mem
        exact absurd mem List.not_mem_nil
      rw [none, Document.origins]
      by_cases carries : doc.hasAttribute el Config.standard.queryAttribute
      · rw [if_pos carries]
        cases prepared : doc.prepared? (.builtin : ActionTable ν) .standard el with
        | none => rfl
        | some read =>
          refine absurd ⟨carries, by rw [prepared]; rfl, fun entry found => ?_⟩ renews
          rw [Bindings.declared?_congr announces.declared] at found
          cases found
      · rw [if_neg carries]

theorem naming?_create {evaluator : Evaluator} {fresh : Engine ν}
    (created : create .standard evaluator = .ok fresh) (formed : doc.WellFormed) (el : ElementId) :
    (fresh.scan doc .root).1.bindings.naming? el =
      if doc.isAttached el then doc.naming? .standard el else none := by
  have standard := Standard.create created formed
  have none : fresh.bindings.naming? el = none := by
    have same := (notes_create created).references
    rw [Bindings.naming?_congr same]
    rfl
  have config : fresh.config = .standard := standard.keeps.suited
  rw [standard.settled.naming?_scan formed, none, config, Option.or_none]

/-- References differ from those of a new engine where one stays that its element does not declare.
-/
theorem Standard.namings_afresh {evaluator : Evaluator} {fresh : Engine ν} (h : e.Standard doc)
    (created : Engine.create .standard evaluator = .ok fresh) {given : Document}
    (same : SameDeclarations doc given) :
    (∀ el, (e.scan doc .root).1.bindings.naming? el =
        (fresh.scan given .root).1.bindings.naming? el) ↔
      ∀ r ∈ e.bindings.references, doc.isAttached r.element →
        (doc.naming? .standard r.element).isSome := by
  have config : e.config = .standard := h.keeps.suited
  have named := fun el => h.settled.naming?_scan h.formed el
  have named' := fun el => naming?_create created (same.wellFormed h.formed) el
  simp only [config] at named
  simp only [same.isAttached, same.naming?] at named'
  simp only [named, named']
  constructor
  · intro references r mem attached
    have held : e.bindings.naming? r.element = some r.naming :=
      (Bindings.mem_namings_iff h.settled.wellFormed.placed).mp (List.mem_map_of_mem mem)
    have same := references r.element
    rw [if_pos attached, if_pos attached, held] at same
    cases declared : doc.naming? .standard r.element with
    | some n => rfl
    | none =>
      rw [declared] at same
      cases same
  · intro references el
    by_cases attached : doc.isAttached el
    · rw [if_pos attached, if_pos attached]
      cases declared : doc.naming? .standard el with
      | some n => rfl
      | none =>
        apply Option.eq_none_iff_forall_ne_some.mpr
        intro n held
        obtain ⟨r, found, -⟩ := Option.map_eq_some_iff.mp held
        have own : r.element = el := by simpa using List.find?_some found
        have declares := references r (List.mem_of_find?_eq_some found) (own ▸ attached)
        rw [own, declared] at declares
        cases declares
    · rw [if_neg attached, if_neg attached]

/-- Observers differ from those of a new engine where some stay on an element without queries, or
are kept that do not come from its declarations. -/
theorem Standard.origins_afresh {evaluator : Evaluator} {fresh : Engine ν} (h : e.Standard doc)
    (created : Engine.create .standard evaluator = .ok fresh) {given : Document}
    (same : SameDeclarations doc given) (clean : (e.scan doc .root).1.errors = e.errors) :
    (∀ el o, o ∈ (e.scan doc .root).1.bindings.origins el ↔
        o ∈ (fresh.scan given .root).1.bindings.origins el) ↔
      (∀ o ∈ e.bindings.observers, doc.isAttached o.element →
          doc.hasAttribute o.element Config.standard.queryAttribute) ∧
        ∀ el, doc.isAttached el → doc.hasAttribute el Config.standard.queryAttribute →
          ¬e.bindings.Renews doc el →
          ∀ o, o ∈ e.bindings.origins el ↔
            o ∈ doc.origins (.builtin : ActionTable ν) .standard el := by
  have origins := fun el => h.origins_scan el clean
  have origins' := fun el => origins_create created (same.wellFormed h.formed) el
  simp only [same.isAttached, same.origins] at origins'
  constructor
  · intro observers
    constructor
    · intro o mem attached
      by_contra bare
      have stays : ¬e.bindings.Renews doc o.element := fun renews => bare renews.carries
      have kept := (origins o.element).2.2 attached stays
      have fresh := origins' o.element
      rw [if_pos attached, Document.origins, if_neg bare] at fresh
      have held : o.origin ∈ e.bindings.origins o.element :=
        Bindings.mem_origins.mpr ⟨List.mem_map_of_mem mem, rfl⟩
      rw [← kept, observers, fresh] at held
      exact absurd held List.not_mem_nil
    · intro el attached carries stays o
      have fresh := origins' el
      rw [if_pos attached] at fresh
      rw [← (origins el).2.2 attached stays, ← fresh]
      exact observers el o
  · rintro ⟨queries, kept⟩ el o
    have fresh := origins' el
    cases attached : doc.isAttached el with
    | false =>
      rw [attached] at fresh
      rw [(origins el).1 attached, fresh]
      rfl
    | true =>
      rw [if_pos attached] at fresh
      rw [fresh]
      by_cases renews : e.bindings.Renews doc el
      · rw [(origins el).2.1 attached renews]
      · rw [(origins el).2.2 attached renews]
        by_cases carries : doc.hasAttribute el Config.standard.queryAttribute
        · exact kept el attached carries renews o
        · rw [Document.origins, if_neg carries]
          apply iff_of_false _ List.not_mem_nil
          intro held
          obtain ⟨there, own⟩ := Bindings.mem_origins.mp held
          obtain ⟨p, mem, rfl⟩ := List.mem_map.mp there
          have own : p.element = el := own
          exact carries (own ▸ queries p mem (own.symm ▸ attached))

theorem Standard.scan_afresh {evaluator : Evaluator} {fresh : Engine ν} (h : e.Standard doc)
    (created : Engine.create .standard evaluator = .ok fresh) {given : Document}
    (same : SameDeclarations doc given) (clean : (e.scan doc .root).1.errors = e.errors) :
    Bindings.SameRegistries (e.scan doc .root).1.bindings (fresh.scan given .root).1.bindings ↔
      e.bindings.Reflects doc := by
  have formed := same.wellFormed h.formed
  have placed := (h.settled.scan doc .root).wellFormed.placed
  have placed' := ((Standard.create created formed).settled.scan given .root).wellFormed.placed
  rw [Bindings.sameRegistries_iff placed placed', h.namings_afresh created same,
    h.origins_afresh created same clean]
  constructor
  · rintro ⟨references, queries, kept⟩
    exact ⟨references, queries, kept⟩
  · intro reflects
    exact ⟨reflects.references, reflects.queries, reflects.kept⟩

/-- After a pass over the root without errors an engine has the references and observers that a new
engine gets from its first pass over the same document, before or after the pass, exactly when what
it held before reflects the document. -/
theorem pass_afresh_iff {e e' fresh : Engine ν} {doc doc' given : Document} {evaluator : Evaluator}
    {pass : Pass ν} {rest : List (Pass ν)} (h : e.Hosted doc) (empty : doc.outbox = [])
    (oldest : e.ready = pass :: rest) (root : pass.container = .root)
    (next : e.step? doc = some (e', doc')) (clean : e'.errors = e.errors)
    (created : create .standard evaluator = .ok fresh)
    (same : given = doc ∨ pass.callback = none ∧ given = doc') :
    Bindings.SameRegistries e'.bindings
        (fresh.runPass given { container := .root, callback := none }).1.bindings ↔
      e.bindings.Reflects doc := by
  have standard := standard_of_hosted h
  let e₁ := { e with ready := rest }
  have started : e₁.Standard doc := by
    refine standard.notes (.update ..) (.refl e.bindings) fun p mem => ?_
    apply standard.hosted p
    rw [oldest]
    exact List.mem_cons_of_mem _ mem
  have ran : (e', doc') = e₁.runPass doc pass := by
    rcases step?_eq_some next with ⟨event, later, waiting, -⟩ | ⟨-, p, later, ready, same⟩
    · rw [empty] at waiting
      cases waiting
    · rw [oldest] at ready
      obtain ⟨rfl, rfl⟩ := List.cons.inj ready
      exact same
  have attached : ∀ {doc : Document}, doc.WellFormed → doc.isAttached .root := fun formed =>
    (formed.isAttached_iff .root).mpr List.mem_cons_self
  have whole := e₁.runPass_attached (root ▸ attached standard.formed)
  rw [← ran, root] at whole
  obtain ⟨notes, errors, document⟩ := whole
  have related : SameDeclarations doc given := by
    rcases same with rfl | ⟨none, rfl⟩
    · exact .refl given
    · rw [show given = _ from document none]
      exact (started.keeps.scan SameDeclarations.permits started.settled doc .root).2.2
  let first : Pass ν := { container := .root, callback := none }
  have there : given.isAttached first.container := attached (related.wellFormed standard.formed)
  obtain ⟨notes', -, -⟩ := fresh.runPass_attached there
  apply (Bindings.sameRegistries_congr notes notes').trans
  exact started.scan_afresh created related (errors.symm.trans clean)

end

/-- A field depends on a query when the first pass runs. Then the query is withdrawn, and another
pass is about to run. -/
def queryWithdrawn : List (Move Unit) :=
  [.edit (·.editAll [.create "input", .append .root ⟨1⟩,
      .setAttribute ⟨1⟩ Config.standard.queryAttribute "@amount"]),
    .request .root none, .round,
    .edit (·.editAll [.removeAttribute ⟨1⟩ Config.standard.queryAttribute]), .request .root none]

/-- The observer of the query outlives both. -/
theorem pass_afresh_iff_queryWithdrawn :
    ∃ (e e' fresh : Engine Unit) (doc doc' : Document), e.Hosted doc ∧
      e.ready.map (·.container) = [.root] ∧ e.step? doc = some (e', doc') ∧ e'.errors = e.errors ∧
      create .standard (.reference "amount") = .ok fresh ∧
      ¬e'.bindings.SameRegistries
        (fresh.runPass doc { container := .root, callback := none }).1.bindings := by
  let run := runNew? .standard (.reference "amount") .new queryWithdrawn
  obtain ⟨⟨e, doc⟩, ran⟩ := Option.isSome_iff_exists.mp (show run.isSome by decide +kernel)
  have facts : (run.map fun r => (r.2.outbox, r.1.ready.map (·.container), r.1.errors.isEmpty,
      r.1.bindings.observers.any (fun o => r.2.isAttached o.element &&
        !r.2.hasAttribute o.element Config.standard.queryAttribute),
      (r.1.step? r.2).map (·.1.errors.isEmpty))) =
        some ([], [.root], true, true, some true) := by decide +kernel
  rw [ran] at facts
  simp only [Option.map_some, Option.some.injEq, Prod.mk.injEq, List.any_eq_true, Bool.and_eq_true,
    Bool.not_eq_true', List.isEmpty_iff, Option.map_eq_some_iff] at facts
  obtain ⟨empty, oldest, none, ⟨o, mem, attached, bare⟩, ⟨e', doc'⟩, next, none'⟩ := facts
  obtain ⟨pass, rest, ready, root, -⟩ := List.map_eq_cons_iff.mp oldest
  obtain ⟨fresh, created, -⟩ := runNew?_eq_some.mp ran
  have hosted : e.Hosted doc := by
    refine ⟨.reference "amount", queryWithdrawn, fun move mem => ?_, ran⟩
    simp only [queryWithdrawn, List.mem_cons, List.not_mem_nil, or_false] at mem
    rcases mem with rfl | rfl | rfl | rfl | rfl
    · exact fun doc => ⟨_, rfl⟩
    · exact fun callback given => absurd given.symm (Option.some_ne_none callback)
    · trivial
    · exact fun doc => ⟨_, rfl⟩
    · exact fun callback given => absurd given.symm (Option.some_ne_none callback)
  have clean := none'.trans none.symm
  refine ⟨e, e', fresh, doc, doc', hosted, oldest, next, clean, created, fun same => ?_⟩
  have reflects := (pass_afresh_iff hosted empty ready root next clean created (.inl rfl)).mp same
  have carries := reflects.queries o mem attached
  rw [bare] at carries
  cases carries

end Engine

end FormDependencies
