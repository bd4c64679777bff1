import FormDependencies.Evaluator.Script
import FormDependencies.Proofs.Document.Forest
import FormDependencies.Proofs.Engine.Conduct

/-!
Passes and the readiness of their containers. A pass enters the queue when its container is ready,
and waits as long as no event says that something has become ready. Both are looked at only then:
what becomes pending later is scanned all the same, and what becomes ready without an event goes on
waiting.
-/

namespace FormDependencies

namespace Document

def hasReadyEvent (doc : Document) : Bool :=
  doc.outbox.any (·.kind == .componentReady)

theorem isReady_congr {doc doc' : Document} (forest : doc'.forest = doc.forest)
    (pending : ∀ el, doc'.isPending el = doc.isPending el) (el : ElementId) :
    doc'.isReady el = doc.isReady el := by
  have same : doc'.isPending = doc.isPending := funext pending
  unfold isReady descendants below
  rw [same, forest]

theorem isReady_modify (doc : Document) (el c : ElementId) (change : Element → Element)
    (same : ∀ e, (change e).pending = e.pending) :
    (doc.modify el change).isReady c = doc.isReady c := by
  have forest : (doc.modify el change).forest = doc.forest := rfl
  refine isReady_congr forest (fun other => ?_) c
  unfold isPending
  rw [element?_modify]
  split
  · rw [Option.map_map, Function.comp_def]
    simp only [same]
  · rfl

theorem isReady_trigger (doc : Document) (el c : ElementId) (kind : EventKind) :
    (doc.trigger el kind).isReady c = doc.isReady c := by
  unfold trigger
  split
  · rfl
  · rfl

theorem contains_of_isPending (doc : Document) {el : ElementId} (pending : doc.isPending el) :
    doc.contains el := by
  unfold isPending element? at pending
  cases found : doc.elements[el.number]? with
  | none =>
    rw [found] at pending
    cases pending
  | some e => exact decide_eq_true (Array.getElem?_eq_some_iff.mp found).1

def StaysReady (c : ElementId) (doc doc' : Document) : Prop :=
  doc.isReady c → doc'.isReady c

theorem permits_staysReady (c : ElementId) :
    Permits (StaysReady c) (fun _ => True) fun _ => True where
  refl _ := id
  trans first second := second ∘ first
  setAttribute doc el name value _ ready :=
    (doc.isReady_modify el c (·.setAttribute name value) fun _ => rfl).trans ready
  removeAttribute doc el name _ ready :=
    (doc.isReady_modify el c (·.removeAttribute name) fun _ => rfl).trans ready
  setChecked doc el on ready :=
    (doc.isReady_modify el c ({ · with checked := on }) fun _ => rfl).trans ready
  setValue doc el value ready :=
    (doc.isReady_modify el c ({ · with written := some value }) fun _ => rfl).trans ready
  trigger doc el kind _ ready := (doc.isReady_trigger el c kind).trans ready
  field _ _ := trivial
  named _ _ := ⟨trivial, trivial⟩

/-- Whatever becomes ready is announced, and announcements are not taken back. -/
structure Announced (doc doc' : Document) : Prop where
  waits : doc.hasReadyEvent → doc'.hasReadyEvent
  told : ∀ c, doc.isReady c = false → doc'.isReady c → doc'.hasReadyEvent

namespace Announced
variable {doc doc' doc'' : Document}

theorem refl (doc : Document) : Announced doc doc :=
  ⟨id, fun _ busy ready => absurd ready (Bool.eq_false_iff.mp busy)⟩

theorem modify (doc : Document) (el : ElementId) (change : Element → Element)
    (same : ∀ e, (change e).pending = e.pending) : Announced doc (doc.modify el change) := by
  refine ⟨id, fun c busy ready => ?_⟩
  rw [doc.isReady_modify el c change same, busy] at ready
  cases ready

theorem trans (first : Announced doc doc') (second : Announced doc' doc'') :
    Announced doc doc'' := by
  refine ⟨second.waits ∘ first.waits, fun c busy ready => ?_⟩
  cases now : doc'.isReady c with
  | true => exact second.waits (first.told c busy now)
  | false => exact second.told c now ready

theorem trigger (doc : Document) (el : ElementId) (kind : EventKind) :
    Announced doc (doc.trigger el kind) := by
  refine ⟨fun waits => ?_, fun c busy ready => ?_⟩
  · unfold Document.trigger
    split
    · unfold hasReadyEvent at waits ⊢
      rw [List.any_append, waits, Bool.true_or]
    · exact waits
  · rw [doc.isReady_trigger, busy] at ready
    cases ready

/-- An element that says itself that it is ready. -/
theorem markReady (doc : Document) (el : ElementId) : Announced doc (doc.markReady el) := by
  unfold Document.markReady
  split
  · next pending =>
    have there : doc.contains el := doc.contains_of_isPending pending
    have size : (doc.setPending el false).size = doc.size := doc.size_modify el _
    have told : ((doc.setPending el false).trigger el .componentReady).hasReadyEvent := by
      unfold Document.trigger contains at *
      rw [size, if_pos there, hasReadyEvent, List.any_append]
      exact Bool.or_true _
    exact ⟨fun _ => told, fun _ _ _ => told⟩
  · exact refl doc

theorem permits : Permits Announced (fun _ => True) fun _ => True where
  refl := refl
  trans := trans
  setAttribute doc el name value _ := modify doc el (·.setAttribute name value) fun _ => rfl
  removeAttribute doc el name _ := modify doc el (·.removeAttribute name) fun _ => rfl
  setChecked doc el on := modify doc el ({ · with checked := on }) fun _ => rfl
  setValue doc el value := modify doc el ({ · with written := some value }) fun _ => rfl
  trigger doc el kind _ := trigger doc el kind
  field _ _ := trivial
  named _ _ := ⟨trivial, trivial⟩

end Announced

end Document

namespace Ledger
variable {ν : Type}

/-! ## What is ready when it enters the queue -/

/-- Passes over the container wait in the queue only while it is ready, and have found it ready if
they have run since the ledger was `l₀`. -/
structure Prompt (c : ElementId) (l₀ : Ledger ν) (now : Document × Ledger ν) : Prop where
  waiting : ∀ t ∈ now.2.ready, t.pass.container = c → now.1.isReady c
  found : ∀ r ∈ now.2.ran, r ∈ l₀.ran ∨ (r.pass.container = c → r.found.isReady c)

theorem Prompt.unpark {c : ElementId} {l₀ l : Ledger ν} {doc : Document}
    (h : Prompt c l₀ (doc, l)) : Prompt c l₀ (doc, l.unpark doc) := by
  refine ⟨fun t mem own => ?_, h.found⟩
  rcases List.mem_append.mp mem with mem | mem
  · exact h.waiting t mem own
  · obtain ⟨-, ready⟩ := List.mem_filter.mp mem
    exact own ▸ ready

theorem Prompt.step {c : ElementId} {l₀ : Ledger ν} {now next : Document × Ledger ν}
    (h : Prompt c l₀ now) (step : Step (Document.StaysReady c) now next) : Prompt c l₀ next := by
  cases step with
  | change l related => exact ⟨fun t mem own => related (h.waiting t mem own), h.found⟩
  | take => exact ⟨h.waiting, h.found⟩
  | takeReady => exact unpark ⟨h.waiting, h.found⟩
  | unpark => exact h.unpark
  | dropDetached => exact ⟨h.waiting, h.found⟩
  | schedule doc l pass =>
    unfold Ledger.schedule
    dsimp only
    split
    · next ready =>
      refine ⟨fun t mem own => ?_, h.found⟩
      rcases List.mem_append.mp mem with mem | mem
      · exact h.waiting t mem own
      · obtain rfl := List.mem_singleton.mp mem
        exact own ▸ ready
    · exact ⟨h.waiting, h.found⟩
  | runOldest e idle oldest =>
    unfold Ledger.runOldest
    rw [oldest]
    refine ⟨fun t mem own => ?_, fun r mem => ?_⟩
    · exact h.waiting t (oldest ▸ List.mem_cons_of_mem _ mem) own
    · rcases List.mem_append.mp mem with mem | mem
      · exact h.found r mem
      · obtain rfl := List.mem_singleton.mp mem
        exact .inr fun own => h.waiting _ (oldest ▸ List.mem_cons_self) own

theorem Prompt.path {c : ElementId} {l₀ : Ledger ν} {now last : Document × Ledger ν}
    (h : Prompt c l₀ now) (path : Path (Document.StaysReady c) now last) : Prompt c l₀ last := by
  induction path with
  | refl => exact h
  | tail _ step ih => exact ih.step step

/-! ## What waits for an event -/

/-- What is parked is not ready, unless an event waits that will move it. -/
def Expectant (now : Document × Ledger ν) : Prop :=
  ∀ t ∈ now.2.parked, now.1.isReady t.pass.container = false ∨ now.1.hasReadyEvent

theorem expectant_unpark (doc : Document) (l : Ledger ν) : Expectant (doc, l.unpark doc) := by
  intro t mem
  obtain ⟨-, waiting⟩ := List.mem_filter.mp mem
  exact .inl (by simpa using waiting)

theorem Expectant.step {now next : Document × Ledger ν} (h : Expectant now)
    (step : Step Document.Announced now next) : Expectant next := by
  cases step with
  | @change doc doc' l related =>
    intro t mem
    rcases h t mem with busy | waits
    · by_cases ready : doc'.isReady t.pass.container
      · exact .inr (related.told _ busy ready)
      · exact .inl (Bool.eq_false_iff.mpr ready)
    · exact .inr (related.waits waits)
  | take l oldest other =>
    intro t mem
    refine (h t mem).imp_right fun waits => ?_
    unfold Document.hasReadyEvent at waits ⊢
    simpa [oldest, other] using waits
  | takeReady => exact expectant_unpark _ _
  | unpark => exact expectant_unpark _ _
  | dropDetached doc l => exact fun t mem => h t (List.mem_filter.mp mem).1
  | schedule doc l pass =>
    unfold Ledger.schedule
    dsimp only
    split
    · exact h
    · next busy =>
      intro t mem
      rcases List.mem_append.mp mem with mem | mem
      · exact h t mem
      · obtain rfl := List.mem_singleton.mp mem
        exact .inl (Bool.eq_false_iff.mpr busy)
  | runOldest e idle oldest =>
    unfold Ledger.runOldest
    rw [oldest]
    exact h

theorem Expectant.path {now last : Document × Ledger ν} (h : Expectant now)
    (path : Path Document.Announced now last) : Expectant last := by
  induction path with
  | refl => exact h
  | tail _ step ih => exact ih.step step

end Ledger

namespace Engine
variable {ν : Type} {config : Config} {evaluator : Evaluator} {given : Document}
  {moves : List (Move ν)} {e : Engine ν} {doc : Document}

/-- Every pass that has run entered the queue when its container was ready. It may find it pending
nevertheless, but not if it runs in a part of the run in which each change, by the host or by what
it has registered, lets the container stay ready, unless the container had become pending before
with a pass over it in the queue. -/
theorem scanned_ready (ran : runNew? config evaluator given moves = some (e, doc)) :
    let l := runNewLedger config evaluator given moves
    (∀ r ∈ l.ran, r.seen.isReady r.pass.container) ∧
      ∀ (c : ElementId) (more : List (Move ν)) (e' : Engine ν) (doc' : Document),
        e.run? doc more = some (e', doc') →
        (∀ t ∈ l.ready, t.pass.container = c → doc.isReady c) →
        e.Conducted (Document.StaysReady c) (fun _ => True) →
        e.Conducts (Document.StaysReady c) (fun _ => True) doc more →
        ∀ r ∈ (runNewLedger config evaluator given (moves ++ more)).ran,
          r ∈ l.ran ∨ (r.pass.container = c → r.found.isReady c) := by
  intro l
  have accounted := accounted_runNew ran
  refine ⟨fun r mem => ?_, fun c more e' doc' goesOn waiting conducted conducts => ?_⟩
  · refine accounted.readySeen r.toTicket ?_
    rw [accounted.inOrder]
    exact List.mem_append_left _ (List.mem_map_of_mem mem)
  · have tracks := (Tracks.refl (follows_runNew ran).holds conducted).run
      (Document.permits_staysReady c) conducts goesOn
    have start : Ledger.Prompt c l (doc, l) := ⟨waiting, fun r mem => .inl mem⟩
    rw [runNewLedger_append ran]
    exact (start.path tracks.path).found

/-- Three sections with pickers, of which the last two are pending. -/
def pickers : Document :=
  Document.new.editAll [.create "section", .append .root ⟨1⟩, .create "picker", .append ⟨1⟩ ⟨2⟩,
    .create "section", .append .root ⟨3⟩, .create "picker", .append ⟨3⟩ ⟨4⟩, .setPending ⟨4⟩ true,
    .create "section", .append .root ⟨5⟩, .create "picker", .append ⟨5⟩ ⟨6⟩, .setPending ⟨6⟩ true]

/-- Passes over the first two sections. Before the turn the first picker becomes pending, and the
second one says that it is ready. -/
def pickerPending : List (Move Unit) :=
  [.request ⟨1⟩ none, .request ⟨3⟩ none,
    .edit (·.editAll [.setPending ⟨2⟩ true, .markReady ⟨4⟩]), .pump 3]

/-- The pass over the first section finds it pending, but the second section stays ready. -/
theorem scanned_ready_pickerPending :
    let l := runNewLedger .standard (.script .any) pickers pickerPending
    (∃ r ∈ l.ran, r.pass.container = ⟨1⟩ ∧ r.found.isAttached ⟨1⟩ ∧ r.seen.isReady ⟨1⟩ ∧
        r.found.isReady ⟨1⟩ = false) ∧
      (l.ran.map (·.pass.container)) = [⟨1⟩, ⟨3⟩] ∧
      ∀ r ∈ l.ran, r.pass.container = ⟨3⟩ → r.found.isReady ⟨3⟩ := by
  intro l
  let run := runNew? .standard (.script .any) pickers pickerPending
  obtain ⟨⟨e, doc⟩, ran⟩ := Option.isSome_iff_exists.mp (show run.isSome by decide +kernel)
  have checked : (∃ r ∈ l.ran, r.pass.container = ⟨1⟩ ∧ r.found.isAttached ⟨1⟩ ∧
      r.found.isReady ⟨1⟩ = false) ∧ l.ran.map (·.pass.container) = [⟨1⟩, ⟨3⟩] := by
    decide +kernel
  obtain ⟨⟨r, mem, own, attached, found⟩, order⟩ := checked
  refine ⟨⟨r, mem, own, attached, own ▸ (scanned_ready ran).1 r mem, found⟩, order, ?_⟩
  intro r mem own
  obtain ⟨start, created, goesOn⟩ := runNew?_eq_some.mp ran
  have begun : runNew? .standard (.script .any) pickers [] = some (start, pickers) :=
    runNew?_eq_some.mpr ⟨start, created, rfl⟩
  have conducts : start.Conducts (Document.StaysReady ⟨3⟩) (fun _ => True) pickers
      pickerPending := by
    refine ⟨nofun, fun _ _ performed => ?_⟩
    obtain ⟨rfl, rfl⟩ := Prod.mk.inj (Option.some.inj performed)
    refine ⟨nofun, fun _ _ performed => ?_⟩
    obtain ⟨rfl, rfl⟩ := Prod.mk.inj (Option.some.inj performed)
    exact ⟨fun _ => by decide +kernel, fun _ _ _ => ⟨trivial, fun _ _ _ => trivial⟩⟩
  have conducted := (conducted_create (Document.permits_staysReady ⟨3⟩) created trivial).1
  have later := (scanned_ready begun).2 ⟨3⟩ pickerPending e doc goesOn
  rw [show runNewLedger .standard (.script .any) pickers [] = ({} : Ledger Unit) by
    rw [runNewLedger, created]; rfl] at later
  rcases later nofun conducted conducts r mem with none | found
  · exact absurd none List.not_mem_nil
  · exact found own

theorem run?_append (e : Engine ν) (doc : Document) (moves more : List (Move ν)) :
    e.run? doc (moves ++ more) = (e.run? doc moves).bind fun r => r.1.run? r.2 more := by
  induction moves generalizing e doc with
  | nil => rfl
  | cons first rest ih =>
    simp only [List.cons_append, run?, Option.bind_assoc, ih]

/-- A turn that is over leaves no event. -/
theorem outbox_run {e e' : Engine ν} {doc doc' : Document} {moves : List (Move ν)} {fuel : Nat}
    (ran : e.run? doc (moves ++ [.pump fuel]) = some (e', doc')) : doc'.outbox = [] := by
  rw [run?_append] at ran
  obtain ⟨⟨e₁, doc₁⟩, -, last⟩ := Option.bind_eq_some_iff.mp ran
  obtain ⟨⟨e₂, doc₂⟩, performed, same⟩ := Option.bind_eq_some_iff.mp last
  obtain ⟨-, rfl⟩ := Prod.mk.inj (Option.some.inj same)
  obtain ⟨⟨e₃, doc₃, count⟩, pumped, same⟩ := Option.map_eq_some_iff.mp performed
  obtain ⟨-, rfl⟩ := Prod.mk.inj same
  obtain ⟨e₄, settled, -⟩ := pump?_eq_some pumped
  have done := (settle?_keeps (P := fun _ _ => True) (fun _ _ _ _ _ _ => trivial) settled trivial).2
  exact (step?_eq_none.mp done).1

/-- Every pass that is parked was put there, or left there by the last event that announced an
element as ready, when its container was pending. It may be ready by now, but not after a turn that
ends a part of the run in which each change announces what becomes ready, unless it had been passed
over before. -/
theorem parked_pending (ran : runNew? config evaluator given moves = some (e, doc)) :
    let l := runNewLedger config evaluator given moves
    e.parked = l.parked.map (·.pass) ∧
      (∀ t ∈ l.parked, t.seen.isReady t.pass.container = false) ∧
      ∀ (more : List (Move ν)) (fuel : Nat) (e' : Engine ν) (doc' : Document),
        e.run? doc (more ++ [.pump fuel]) = some (e', doc') →
        (∀ pass ∈ e.parked, doc.isReady pass.container = false ∨ doc.hasReadyEvent) →
        e.Conducted Document.Announced (fun _ => True) →
        e.Conducts Document.Announced (fun _ => True) doc (more ++ [.pump fuel]) →
        ∀ pass ∈ e'.parked, doc'.isReady pass.container = false := by
  intro l
  have holds := (follows_runNew ran).holds
  refine ⟨holds.parked, (accounted_runNew ran).waitingSeen, ?_⟩
  intro more fuel e' doc' goesOn expected conducted conducts pass mem
  have tracks := (Tracks.refl holds conducted).run Document.Announced.permits conducts goesOn
  have start : Ledger.Expectant (doc, l) := fun t parked =>
    expected t.pass (holds.parked ▸ List.mem_map_of_mem parked)
  rw [tracks.holds.parked] at mem
  obtain ⟨t, parked, rfl⟩ := List.mem_map.mp mem
  rcases start.path tracks.path t parked with busy | waits
  · exact busy
  · rw [Document.hasReadyEvent, outbox_run goesOn] at waits
    cases waits

def pickerSettled (change : Edit) : List (Move Unit) :=
  [.request ⟨3⟩ none, .request ⟨5⟩ none, .edit (·.edit change), .pump 2]

/-- When the picker of a section is removed, the pass over the section stays parked. When it says
that it is ready, the pass runs, and the one over the other section is all that stays. -/
theorem parked_pending_pickerSettled :
    (∃ (e : Engine Unit) (doc : Document), runNew? .standard (.script .any) pickers
        (pickerSettled (.remove ⟨4⟩)) = some (e, doc) ∧
      e.parked.map (·.container) = [⟨3⟩, ⟨5⟩] ∧ doc.isAttached ⟨3⟩ ∧ doc.isReady ⟨3⟩ ∧
      ∀ t ∈ (runNewLedger .standard (.script .any) pickers (pickerSettled (.remove ⟨4⟩))).parked,
        t.seen.isReady t.pass.container = false) ∧
    ∃ (e : Engine Unit) (doc : Document), runNew? .standard (.script .any) pickers
        (pickerSettled (.markReady ⟨4⟩)) = some (e, doc) ∧
      e.parked.map (·.container) = [⟨5⟩] ∧
      ∀ pass ∈ e.parked, doc.isReady pass.container = false := by
  constructor
  · let run := runNew? .standard (.script .any) pickers (pickerSettled (.remove ⟨4⟩))
    obtain ⟨⟨e, doc⟩, ran⟩ := Option.isSome_iff_exists.mp (show run.isSome by decide +kernel)
    have checked : (run.any fun r => r.1.parked.map (·.container) == [⟨3⟩, ⟨5⟩] &&
        r.2.isAttached ⟨3⟩ && r.2.isReady ⟨3⟩) = true := by decide +kernel
    simp only [show run = some (e, doc) from ran, Option.any_some, Bool.and_eq_true,
      beq_iff_eq] at checked
    obtain ⟨⟨parked, attached⟩, ready⟩ := checked
    exact ⟨e, doc, ran, parked, attached, ready, (parked_pending ran).2.1⟩
  · let run := runNew? .standard (.script .any) pickers (pickerSettled (.markReady ⟨4⟩))
    obtain ⟨⟨e, doc⟩, ran⟩ := Option.isSome_iff_exists.mp (show run.isSome by decide +kernel)
    have checked : (run.any fun r => r.1.parked.map (·.container) == [⟨5⟩]) = true := by
      decide +kernel
    simp only [show run = some (e, doc) from ran, Option.any_some, beq_iff_eq] at checked
    refine ⟨e, doc, ran, checked, ?_⟩
    obtain ⟨start, created, goesOn⟩ := runNew?_eq_some.mp ran
    have begun : runNew? .standard (.script .any) pickers [] = some (start, pickers) :=
      runNew?_eq_some.mpr ⟨start, created, rfl⟩
    have conducts : start.Conducts Document.Announced (fun _ => True) pickers
        (pickerSettled (.markReady ⟨4⟩)) := by
      refine ⟨nofun, fun _ _ performed => ?_⟩
      obtain ⟨rfl, rfl⟩ := Prod.mk.inj (Option.some.inj performed)
      refine ⟨nofun, fun _ _ performed => ?_⟩
      obtain ⟨rfl, rfl⟩ := Prod.mk.inj (Option.some.inj performed)
      exact ⟨.markReady pickers ⟨4⟩, fun _ _ _ => ⟨trivial, fun _ _ _ => trivial⟩⟩
    have conducted := (conducted_create Document.Announced.permits created trivial).1
    have empty : start.parked = [] := (conducted_create permits_any created trivial).2.parked
    have expected : ∀ pass ∈ start.parked,
        pickers.isReady pass.container = false ∨ pickers.hasReadyEvent := by
      rw [empty]
      exact nofun
    let more : List (Move Unit) :=
      [.request ⟨3⟩ none, .request ⟨5⟩ none, .edit (·.edit (.markReady ⟨4⟩))]
    exact (parked_pending begun).2.2 more 2 e doc goesOn expected conducted conducts

end Engine

end FormDependencies
