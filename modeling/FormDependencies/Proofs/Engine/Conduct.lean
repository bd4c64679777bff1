import FormDependencies.Proofs.Engine.Effect
import FormDependencies.Proofs.Engine.Ledger
import FormDependencies.Proofs.Engine.Schedule

/-!
Runs in which all that changes the document changes it as some relation says: what the host does, at
once or at the end of passes, and the accessors and actions that it registers. The document and the
ledger of such a run go a path on which the document only changes in that way.
-/

namespace FormDependencies
variable {ν : Type} {R : Document → Document → Prop} {suits : Config → Prop}
  {writable : String → Prop}

def Pass.Keeps (R : Document → Document → Prop) (pass : Pass ν) : Prop :=
  ∀ callback, pass.callback = some callback → ∀ doc, R doc (callback doc).1

def Move.Keeps (R : Document → Document → Prop) (suits : Config → Prop) (doc : Document) :
    Move ν → Prop
  | .request container callback => Pass.Keeps R { container, callback }
  | .registerAccessor _ accessor => accessor.Keeps R
  | .registerAction _ action => action.Keeps R suits
  | .edit change => R doc (change doc)
  | .dispatch _ | .pump _ | .beginTurn | .round | .takeErrors => True

theorem AccessorTable.Keeps.register {table : AccessorTable} (h : table.Keeps R)
    (selector : Selector) {accessor : Accessor} (keeps : accessor.Keeps R) :
    (table.register selector accessor).Keeps R := by
  intro entry mem
  rcases List.mem_append.mp mem with mem | mem
  · exact h entry mem
  · exact List.mem_singleton.mp mem ▸ keeps

theorem ActionTable.eq_or_mem_of_mem_putEntry {name : String} {action : Action ν}
    {entries : List (String × Action ν)} {entry : String × Action ν}
    (mem : entry ∈ putEntry name action entries) : entry = (name, action) ∨ entry ∈ entries := by
  induction entries with
  | nil => exact .inl (List.mem_singleton.mp mem)
  | cons first rest ih =>
    unfold putEntry at mem
    split at mem
    · rcases List.mem_cons.mp mem with same | later
      · exact .inl same
      · exact .inr (List.mem_cons_of_mem _ later)
    · rcases List.mem_cons.mp mem with same | later
      · exact .inr (same ▸ List.mem_cons_self)
      · exact (ih later).imp_right (List.mem_cons_of_mem _)

theorem ActionTable.Keeps.register {table registered : ActionTable ν} (h : table.Keeps R suits)
    {raw name : String} {action : Action ν} (keeps : action.Keeps R suits)
    (same : table.register raw action = .ok (registered, name)) : registered.Keeps R suits := by
  unfold ActionTable.register at same
  dsimp only at same
  split at same
  · cases same
  · obtain ⟨rfl, -⟩ := Prod.mk.inj (Except.ok.inj same)
    intro entry mem
    rcases eq_or_mem_of_mem_putEntry mem with rfl | there
    · exact keeps
    · exact h entry there

namespace Engine

def Conducts (R : Document → Document → Prop) (suits : Config → Prop) :
    Engine ν → Document → List (Move ν) → Prop
  | _, _, [] => True
  | e, doc, move :: rest => move.Keeps R suits doc ∧
    ∀ e' doc', move.perform? e doc = some (e', doc') → Conducts R suits e' doc' rest

structure Conducted (R : Document → Document → Prop) (suits : Config → Prop) (e : Engine ν) :
    Prop where
  settled : e.Settled
  keeps : e.Keeps R suits
  passes : ∀ pass ∈ e.ready ++ e.parked, pass.Keeps R

section
variable {e e' : Engine ν} {doc doc' : Document} {l : Ledger ν}

theorem Conducted.notes (h : e.Conducted R suits) (setup : SameSetup e e')
    (notes : Bindings.Notes e.bindings e'.bindings)
    (passes : ∀ pass ∈ e'.ready ++ e'.parked, pass.Keeps R) : e'.Conducted R suits :=
  ⟨h.settled.notes notes, h.keeps.next setup (h.keeps.announce (.notes notes)), passes⟩

theorem Conducted.schedules (h : e.Conducted R suits) (schedules : Schedules e e') :
    ∀ pass ∈ e'.ready ++ e'.parked, pass.Keeps R := by
  intro pass mem
  rcases schedules.known pass mem with there | none
  · exact h.passes pass there
  · intro callback some
    rw [none] at some
    cases some

theorem Conducted.schedule (h : e.Conducted R suits) (doc : Document) {pass : Pass ν}
    (keeps : pass.Keeps R) : (e.schedule doc pass).Conducted R suits := by
  have notes := e.notes_schedule doc pass
  refine h.notes notes.setup notes.bindings fun other mem => ?_
  rcases (e.passes_request doc pass.container pass.callback).2 other mem with there | same
  · exact h.passes other there
  · exact fun callback given => keeps callback (same ▸ given)

theorem Conducted.dispatch (permits : Permits R suits writable) (h : e.Conducted R suits)
    (doc : Document) (event : Event) :
    (e.dispatch doc event).1.Conducted R suits ∧ R doc (e.dispatch doc event).2 := by
  obtain ⟨keeps, related⟩ := h.keeps.dispatch permits h.settled doc event
  exact ⟨⟨h.settled.dispatch doc event, keeps, h.schedules (e.schedules_dispatch doc event)⟩,
    related⟩

theorem Conducted.runPass (permits : Permits R suits writable) {pass : Pass ν}
    {rest : List (Pass ν)} (h : e.Conducted R suits) (oldest : e.ready = pass :: rest)
    (doc : Document) :
    Steady { e with ready := rest } ({ e with ready := rest }.runPass doc pass).1 ∧
      ({ e with ready := rest }.runPass doc pass).1.Conducted R suits ∧
      R doc ({ e with ready := rest }.runPass doc pass).2 := by
  have listed : ∀ p ∈ pass :: (rest ++ e.parked), p.Keeps R := fun p mem =>
    h.passes p (by rwa [oldest])
  have started : Conducted R suits { e with ready := rest } :=
    h.notes (.update ..) (.refl e.bindings) fun p mem => listed p (List.mem_cons_of_mem _ mem)
  obtain ⟨steady, keeps, related⟩ :=
    started.keeps.runPass permits started.settled doc (listed pass List.mem_cons_self)
  exact ⟨steady, ⟨started.settled.runPass doc pass, keeps, started.schedules steady.schedules⟩,
    related⟩

theorem Conducted.beginTurn (h : e.Conducted R suits) (doc : Document) :
    (e.beginTurn doc).Conducted R suits := by
  have notes := notes_dropDetached { e with bindings := e.bindings.beginTurn } doc
  have started : Engine.Keeps R suits { e with bindings := e.bindings.beginTurn } :=
    ⟨h.keeps.suited, h.keeps.accessors, h.keeps.actions, h.keeps.observers⟩
  have observers := started.announce (.notes notes.bindings)
  exact ⟨h.settled.beginTurn doc, started.next notes.setup observers,
    fun pass mem => h.passes pass ((e.sublist_beginTurn doc).subset mem)⟩

theorem registerAccessor_eq {selector : String} {accessor : Accessor}
    (h : e.registerAccessor selector accessor = .ok e') :
    ∃ parsed bindings, e' = { e with
      bindings, accessors := e.accessors.register parsed accessor } := by
  unfold registerAccessor at h
  cases read : Selector.parse selector with
  | error cause =>
    rw [read] at h
    cases h
  | ok parsed =>
    rw [read] at h
    exact ⟨parsed, _, (Except.ok.inj h).symm⟩

theorem registerAction_eq {raw name : String} {action : Action ν}
    (h : e.registerAction raw action = .ok (e', name)) :
    ∃ actions given bindings, e.actions.register raw action = .ok (actions, given) ∧
      e' = { e with bindings, actions } := by
  unfold registerAction at h
  cases registered : e.actions.register raw action with
  | error cause =>
    rw [registered] at h
    cases h
  | ok r =>
    simp only [registered, bind, Except.bind, pure, Except.pure, Except.ok.injEq,
      Prod.mk.injEq] at h
    exact ⟨r.1, r.2, _, rfl, h.1.symm⟩

theorem Conducted.registerAccessor (h : e.Conducted R suits) {selector : String}
    {accessor : Accessor} (keeps : accessor.Keeps R)
    (registered : e.registerAccessor selector accessor = .ok e') :
    e'.Conducted R suits ∧ e'.ready = e.ready ∧ e'.parked = e.parked := by
  obtain ⟨notes, -⟩ := notes_registerAccessor registered
  obtain ⟨parsed, bindings, rfl⟩ := registerAccessor_eq registered
  have observers := h.keeps.announce (.notes notes)
  exact ⟨⟨h.settled.notes notes, ⟨h.keeps.suited, h.keeps.accessors.register parsed keeps,
    h.keeps.actions, observers⟩, h.passes⟩, rfl, rfl⟩

theorem Conducted.registerAction (h : e.Conducted R suits) {raw name : String} {action : Action ν}
    (keeps : action.Keeps R suits) (registered : e.registerAction raw action = .ok (e', name)) :
    e'.Conducted R suits ∧ e'.ready = e.ready ∧ e'.parked = e.parked := by
  obtain ⟨notes, -⟩ := notes_registerAction registered
  obtain ⟨actions, given, bindings, put, rfl⟩ := registerAction_eq registered
  have observers := h.keeps.announce (.notes notes)
  exact ⟨⟨h.settled.notes notes, ⟨h.keeps.suited, h.keeps.accessors,
    h.keeps.actions.register keeps put, observers⟩, h.passes⟩, rfl, rfl⟩

/-! ## The path of a run -/

/-- What an event does to the ledger it does when the document has been changed. -/
theorem path_dispatch (e : Engine ν) (l : Ledger ν) {doc : Document} {event : Event}
    (related : R doc (e.dispatch doc event).2) :
    Ledger.Path R (doc, l) ((e.dispatch doc event).2, e.dispatchLedger doc event l) := by
  refine (Relation.ReflTransGen.single (.change l related)).trans ?_
  obtain ⟨target, kind⟩ := event
  have collection : Ledger.Path R ((e.dispatch doc ⟨target, kind⟩).2, l)
      ((e.dispatch doc ⟨target, kind⟩).2, if e.collection.holds doc target then
        l.schedule (e.dispatch doc ⟨target, kind⟩).2 { container := target } else l) := by
    split
    · exact .single (.schedule _ l _)
    · exact .refl
  cases kind with
  | contentLoaded => exact .single (.schedule doc l _)
  | componentReady => exact .single (.unpark doc l)
  | change => exact .refl
  | selected => exact .refl
  | collectionAdd => exact collection
  | collectionRemove => exact collection

/-- The ledger has been kept on the way: it holds the passes of the engine, and all that the engine
calls changes documents as the relation says. -/
structure Tracks (R : Document → Document → Prop) (suits : Config → Prop)
    (start : Document × Ledger ν) (e : Engine ν) (doc : Document) (l : Ledger ν) : Prop where
  holds : e.Holds l
  conducted : e.Conducted R suits
  path : Ledger.Path R start (doc, l)

section
variable {start : Document × Ledger ν}

theorem Tracks.refl (holds : e.Holds l) (conducted : e.Conducted R suits) :
    Tracks R suits (doc, l) e doc l :=
  ⟨holds, conducted, .refl⟩

/-- The same from now on. -/
theorem Tracks.here (h : Tracks R suits start e doc l) : Tracks R suits (doc, l) e doc l :=
  .refl h.holds h.conducted

theorem Tracks.later (h : Tracks R suits start e doc l) : start.2.Later l := h.path.later

theorem Tracks.steady (h : Tracks R suits start e doc l) (steady : Steady e e')
    (notes : Bindings.Notes e.bindings e'.bindings) : Tracks R suits start e' doc l :=
  ⟨h.holds.steady steady, h.conducted.notes steady.toSameSetup notes
    (h.conducted.schedules steady.schedules), h.path⟩

theorem Tracks.change (h : Tracks R suits start e doc l) (related : R doc doc') :
    Tracks R suits start e doc' l :=
  ⟨h.holds, h.conducted, h.path.tail (.change l related)⟩

theorem Tracks.schedule (h : Tracks R suits start e doc l) {pass : Pass ν} (keeps : pass.Keeps R) :
    Tracks R suits start (e.schedule doc pass) doc (l.schedule doc pass) :=
  ⟨h.holds.schedule doc pass, h.conducted.schedule doc keeps, h.path.tail (.schedule doc l pass)⟩

theorem Tracks.beginTurn (h : Tracks R suits start e doc l) :
    Tracks R suits start (e.beginTurn doc) doc (l.dropDetached doc) :=
  ⟨h.holds.beginTurn doc, h.conducted.beginTurn doc, h.path.tail (.dropDetached doc l)⟩

theorem Tracks.dispatch (permits : Permits R suits writable) (h : Tracks R suits start e doc l)
    (event : Event) :
    Tracks R suits start (e.dispatch doc event).1 (e.dispatch doc event).2
      (e.dispatchLedger doc event l) := by
  obtain ⟨conducted, related⟩ := h.conducted.dispatch permits doc event
  exact ⟨h.holds.dispatch doc event, conducted, h.path.trans (e.path_dispatch l related)⟩

theorem Tracks.takeReady (permits : Permits R suits writable) (h : Tracks R suits start e doc l)
    {event : Event} {rest : List Event} (waiting : doc.outbox = event :: rest)
    (announced : event.kind = .componentReady) :
    Tracks R suits start (e.dispatch { doc with outbox := rest } event).1
      (e.dispatch { doc with outbox := rest } event).2
      (e.dispatchLedger { doc with outbox := rest } event l) := by
  let taken : Document := { doc with outbox := rest }
  have conducted := (h.conducted.dispatch permits taken event).1
  have holds := h.holds.dispatch taken event
  have path := h.path.tail (.takeReady l waiting)
  obtain ⟨target, kind⟩ := event
  obtain rfl : kind = .componentReady := announced
  exact ⟨holds, conducted, path⟩

theorem Tracks.runOldest (permits : Permits R suits writable) (h : Tracks R suits start e doc l)
    (idle : doc.outbox = []) {pass : Pass ν} {rest : List (Pass ν)}
    (oldest : e.ready = pass :: rest) :
    Tracks R suits start ({ e with ready := rest }.runPass doc pass).1
      ({ e with ready := rest }.runPass doc pass).2
      (l.runOldest e doc ({ e with ready := rest }.runPass doc pass)) := by
  obtain ⟨steady, conducted, related⟩ := h.conducted.runPass permits oldest doc
  have queue := h.holds.ready
  rw [oldest] at queue
  cases tickets : l.ready with
  | nil => simp [tickets] at queue
  | cons ticket ready =>
    rw [tickets] at queue
    obtain ⟨rfl, rfl⟩ := List.cons.inj queue
    have path := (h.path.tail (.runOldest e idle tickets)).tail (.change _ related)
    refine ⟨⟨?_, ?_⟩, conducted, path⟩
    · rw [steady.ready, Ledger.runOldest, tickets]
    · rw [steady.parked, Ledger.runOldest, tickets]
      exact h.holds.parked

theorem Tracks.step (permits : Permits R suits writable) (h : Tracks R suits start e doc l)
    (next : e.step? doc = some (e', doc')) :
    Tracks R suits start e' doc' (e.stepLedger doc l) := by
  unfold stepLedger Document.nextEvent
  rcases step?_eq_some next with ⟨event, rest, waiting, same⟩ | ⟨idle, pass, rest, oldest, same⟩
  · have tracks : Tracks R suits start (e.dispatch { doc with outbox := rest } event).1
        (e.dispatch { doc with outbox := rest } event).2
        (e.dispatchLedger { doc with outbox := rest } event l) := by
      by_cases announced : event.kind = .componentReady
      · exact h.takeReady permits waiting announced
      · have taken : Tracks R suits start e { doc with outbox := rest } l :=
          ⟨h.holds, h.conducted, h.path.tail (.take l waiting announced)⟩
        exact taken.dispatch permits event
    rw [← same] at tracks
    simpa only [waiting] using tracks
  · have tracks := h.runOldest permits idle oldest
    rw [← same] at tracks
    simpa only [idle, next] using tracks

theorem Tracks.settle (permits : Permits R suits writable) {fuel count : Nat}
    (h : Tracks R suits start e doc l) (settled : settle? fuel e doc = some (e', doc', count)) :
    Tracks R suits start e' doc' (settleLedger fuel e doc l) := by
  induction fuel generalizing e doc l count with
  | zero =>
    unfold settle? at settled
    split at settled
    · obtain ⟨rfl, rfl, -⟩ : e = e' ∧ doc = doc' ∧ 0 = count := by simpa using settled
      exact h
    · cases settled
  | succ fuel ih =>
    unfold settle? at settled
    unfold settleLedger
    cases next : e.step? doc with
    | none =>
      simp only [next] at settled
      obtain ⟨rfl, rfl, -⟩ : e = e' ∧ doc = doc' ∧ 0 = count := by simpa using settled
      exact h
    | some r =>
      simp only [next, Option.map_eq_some_iff] at settled
      obtain ⟨⟨last, lastDoc, n⟩, settled, same⟩ := settled
      obtain ⟨rfl, rfl, -⟩ : last = e' ∧ lastDoc = doc' ∧ n + 1 = count := by simpa using same
      exact ih (h.step permits next) settled

theorem pump?_eq_some {fuel count : Nat} (pumped : e.pump? fuel doc = some (e', doc', count)) :
    ∃ last, settle? fuel (e.beginTurn doc) doc = some (last, doc', count) ∧
      e' = if count = 0 then last else last.log (.pumped count) := by
  obtain ⟨⟨last, lastDoc, n⟩, settled, same⟩ := Option.map_eq_some_iff.mp pumped
  obtain ⟨rfl, rfl, rfl⟩ :
      (if n = 0 then last else last.log (.pumped n)) = e' ∧ lastDoc = doc' ∧ n = count := by
    simpa using same
  exact ⟨last, settled, rfl⟩

theorem Tracks.pump (permits : Permits R suits writable) {fuel count : Nat}
    (h : Tracks R suits start e doc l) (pumped : e.pump? fuel doc = some (e', doc', count)) :
    Tracks R suits start e' doc' (Move.ledger e doc l (.pump fuel)) := by
  obtain ⟨last, settled, rfl⟩ := pump?_eq_some pumped
  have done := h.beginTurn.settle permits settled
  split
  · exact done
  · exact done.steady (.log last _) (.record _ rfl)

theorem Tracks.perform (permits : Permits R suits writable) {move : Move ν}
    (h : Tracks R suits start e doc l) (keeps : move.Keeps R suits doc)
    (performed : move.perform? e doc = some (e', doc')) :
    Tracks R suits start e' doc' (move.ledger e doc l) := by
  cases move with
  | request container callback =>
    obtain ⟨rfl, rfl⟩ := Prod.mk.inj (Option.some.inj performed)
    exact h.schedule keeps
  | dispatch event =>
    have tracks := h.dispatch permits event
    rwa [Option.some.inj performed] at tracks
  | pump fuel =>
    obtain ⟨⟨last, lastDoc, count⟩, pumped, same⟩ := Option.map_eq_some_iff.mp performed
    obtain ⟨rfl, rfl⟩ : last = e' ∧ lastDoc = doc' := by simpa using same
    exact h.pump permits pumped
  | beginTurn =>
    obtain ⟨rfl, rfl⟩ := Prod.mk.inj (Option.some.inj performed)
    exact h.beginTurn
  | round => exact h.step permits performed
  | registerAccessor selector accessor =>
    unfold Move.perform? at performed
    dsimp only at performed
    cases registered : e.registerAccessor selector accessor with
    | error cause =>
      rw [registered] at performed
      obtain ⟨rfl, rfl⟩ := Prod.mk.inj (Option.some.inj performed)
      exact h
    | ok e₁ =>
      rw [registered] at performed
      obtain ⟨rfl, rfl⟩ := Prod.mk.inj (Option.some.inj performed)
      obtain ⟨conducted, same⟩ := h.conducted.registerAccessor keeps registered
      exact ⟨h.holds.same same, conducted, h.path⟩
  | registerAction raw action =>
    unfold Move.perform? at performed
    dsimp only at performed
    cases registered : e.registerAction raw action with
    | error cause =>
      rw [registered] at performed
      obtain ⟨rfl, rfl⟩ := Prod.mk.inj (Option.some.inj performed)
      exact h
    | ok r =>
      rw [registered] at performed
      obtain ⟨rfl, rfl⟩ := Prod.mk.inj (Option.some.inj performed)
      obtain ⟨conducted, same⟩ := h.conducted.registerAction keeps registered
      exact ⟨h.holds.same same, conducted, h.path⟩
  | takeErrors =>
    obtain ⟨rfl, rfl⟩ := Prod.mk.inj (Option.some.inj performed)
    have conducted : Conducted R suits e.takeErrors.1 :=
      h.conducted.notes (.update ..) (.refl e.bindings) h.conducted.passes
    exact ⟨h.holds.same ⟨rfl, rfl⟩, conducted, h.path⟩
  | edit change =>
    obtain ⟨rfl, rfl⟩ := Prod.mk.inj (Option.some.inj performed)
    exact h.change keeps

theorem Tracks.run (permits : Permits R suits writable) {moves : List (Move ν)}
    (h : Tracks R suits start e doc l) (conducts : e.Conducts R suits doc moves)
    (ran : e.run? doc moves = some (e', doc')) :
    Tracks R suits start e' doc' (e.runLedger doc l moves) := by
  induction moves generalizing e doc l with
  | nil =>
    obtain ⟨rfl, rfl⟩ : e = e' ∧ doc = doc' := by simpa [run?] using ran
    exact h
  | cons first rest ih =>
    obtain ⟨⟨e₁, doc₁⟩, performed, ran⟩ := Option.bind_eq_some_iff.mp ran
    unfold runLedger
    rw [performed]
    exact ih (h.perform permits conducts.1 performed) (conducts.2 _ _ performed) ran

end

end

/-! ## Runs of a new engine -/

theorem conducted_create (permits : Permits R suits writable) {config : Config}
    {evaluator : Evaluator} {e : Engine ν} (created : create config evaluator = .ok e)
    (suited : suits config) : e.Conducted R suits ∧ e.Holds {} := by
  have settled := settled_of_reachable
    ⟨config, evaluator, .new, [], runNew?_eq_some.mpr ⟨e, created, rfl⟩⟩
  have notes := notes_create created
  obtain ⟨collection, -, rfl⟩ := create_eq created
  refine ⟨⟨settled, ⟨suited, permits.builtinAccessors, permits.builtinActions, fun o mem => ?_⟩,
    fun pass mem => absurd mem List.not_mem_nil⟩, rfl, rfl⟩
  rw [(Bindings.Announces.notes notes).observers] at mem
  exact absurd mem List.not_mem_nil

/-! ## Runs with any changes -/

/-- The ledger has been kept on the way, whatever has changed the document. -/
abbrev Follows (start : Document × Ledger ν) (e : Engine ν) (doc : Document) (l : Ledger ν) :
    Prop :=
  Tracks (fun _ _ => True) (fun _ => True) start e doc l

theorem permits_any : Permits (fun _ _ => True) (fun _ => True) fun _ => True := by
  constructor <;> intros <;> trivial

theorem keeps_any (move : Move ν) (doc : Document) :
    move.Keeps (fun _ _ => True) (fun _ => True) doc := by
  cases move with
  | registerAccessor selector accessor => constructor <;> intros <;> trivial
  | registerAction raw action => exact fun _ _ _ _ _ => trivial
  | request container callback => exact fun _ _ _ => trivial
  | _ => trivial

theorem conducts_any (e : Engine ν) (doc : Document) (moves : List (Move ν)) :
    e.Conducts (fun _ _ => True) (fun _ => True) doc moves := by
  induction moves generalizing e doc with
  | nil => trivial
  | cons move rest ih => exact ⟨keeps_any move doc, fun e' doc' _ => ih e' doc'⟩

section
variable {config : Config} {evaluator : Evaluator} {given : Document} {moves : List (Move ν)}
  {e : Engine ν} {doc : Document}

theorem follows_runNew (ran : runNew? config evaluator given moves = some (e, doc)) :
    Follows (given, {}) e doc (runNewLedger config evaluator given moves) := by
  obtain ⟨start, created, ran⟩ := runNew?_eq_some.mp ran
  obtain ⟨conducted, holds⟩ := conducted_create permits_any created trivial
  unfold runNewLedger
  rw [created]
  exact (Tracks.refl holds conducted).run permits_any (conducts_any start given moves) ran

theorem accounted_runNew (ran : runNew? config evaluator given moves = some (e, doc)) :
    (runNewLedger config evaluator given moves).Accounted :=
  Ledger.Accounted.empty.path (follows_runNew ran).path

theorem runNewLedger_append (ran : runNew? config evaluator given moves = some (e, doc))
    (more : List (Move ν)) :
    runNewLedger config evaluator given (moves ++ more) =
      e.runLedger doc (runNewLedger config evaluator given moves) more := by
  obtain ⟨start, created, ran⟩ := runNew?_eq_some.mp ran
  unfold runNewLedger
  rw [created]
  exact runLedger_append ran more

end

end Engine

end FormDependencies
