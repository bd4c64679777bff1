import FormDependencies.Document.Edit
import FormDependencies.Proofs.Action.Inert
import FormDependencies.Proofs.Document.Forest
import FormDependencies.Proofs.Engine.Effect
import FormDependencies.Proofs.Engine.Schedule

/-!
Runs in which nothing but the host changes what elements declare: the configuration is the standard
one, only what is built in is called, and the host changes the document step by step.
-/

namespace FormDependencies
variable {ν : Type}

open Document (SameDeclarations)

/-- A change of the document that consists of steps of the host, which may depend on what the host
finds there. -/
def ByEdits (change : Document → Document) : Prop :=
  ∀ doc, ∃ edits, change doc = doc.editAll edits

theorem Document.SameDeclarations.wellFormed {doc doc' : Document}
    (same : SameDeclarations doc doc') (h : doc.WellFormed) : doc'.WellFormed :=
  h.of_eq same.forest same.size

theorem ByEdits.wellFormed {change : Document → Document} {doc : Document} (h : ByEdits change)
    (formed : doc.WellFormed) : (change doc).WellFormed := by
  obtain ⟨edits, same⟩ := h doc
  exact same ▸ formed.editAll edits

def Pass.IsHosted (pass : Pass ν) : Prop :=
  ∀ callback, pass.callback = some callback → ByEdits fun doc => (callback doc).1

def Move.IsHosted : Move ν → Prop
  | .request container callback => Pass.IsHosted { container, callback }
  | .registerAccessor _ _ | .registerAction _ _ => False
  | .edit change => ByEdits change
  | .dispatch _ | .pump _ | .beginTurn | .round | .takeErrors => True

namespace Engine

/-- Whether an engine can come from a new one with the standard configuration, by such moves beside
a document that the host has built from nothing. -/
def Hosted (e : Engine ν) (doc : Document) : Prop :=
  ∃ (evaluator : Evaluator) (moves : List (Move ν)),
    (∀ move ∈ moves, move.IsHosted) ∧ runNew? .standard evaluator .new moves = some (e, doc)

/-- What holds between two such moves. -/
structure Standard (e : Engine ν) (doc : Document) : Prop where
  settled : e.Settled
  keeps : e.Keeps SameDeclarations (· = .standard)
  builtin : e.actions = .builtin
  hosted : ∀ pass ∈ e.ready ++ e.parked, pass.IsHosted
  formed : doc.WellFormed

section
variable {e e' : Engine ν} {doc doc' : Document}

/-- Nothing has happened but what is noted, and the passes are those that there were. -/
theorem Standard.notes (h : e.Standard doc) (setup : SameSetup e e')
    (notes : Bindings.Notes e.bindings e'.bindings)
    (passes : ∀ pass ∈ e'.ready ++ e'.parked, pass.IsHosted) : e'.Standard doc :=
  ⟨h.settled.notes notes, h.keeps.next setup (h.keeps.announce (.notes notes)),
    setup.actions.trans h.builtin, passes, h.formed⟩

theorem Standard.schedules (h : e.Standard doc)
    (known : ∀ pass ∈ e'.ready ++ e'.parked, pass ∈ e.ready ++ e.parked ∨ pass.callback = none) :
    ∀ pass ∈ e'.ready ++ e'.parked, pass.IsHosted := by
  intro pass mem
  rcases known pass mem with there | none
  · exact h.hosted pass there
  · intro callback some
    rw [none] at some
    cases some

theorem Standard.dispatch (h : e.Standard doc) (event : Event) :
    (e.dispatch doc event).1.Standard (e.dispatch doc event).2 := by
  obtain ⟨keeps, same⟩ := h.keeps.dispatch SameDeclarations.permits h.settled doc event
  have setup : SameSetup e (e.dispatch doc event).1 := by
    rcases e.dispatch_shape doc event with ⟨notes, -⟩ | settles
    · exact notes.setup
    · exact settles.setup
  exact ⟨h.settled.dispatch doc event, keeps, setup.actions.trans h.builtin,
    h.schedules (e.schedules_dispatch doc event).known, same.wellFormed h.formed⟩

theorem Standard.runPass (h : e.Standard doc) {pass : Pass ν} (own : pass.IsHosted) :
    (e.runPass doc pass).1.Standard (e.runPass doc pass).2 := by
  obtain ⟨e₁, doc₁, before, steady', after, callback⟩ := e.runPass_shape doc pass
  have scanned : Steady e e₁ ∧ e₁.Settled ∧ e₁.Keeps SameDeclarations (· = .standard) ∧
      SameDeclarations doc doc₁ := by
    rcases before with same | ⟨steady, notes, rfl⟩
    · have scanned := h.keeps.scan SameDeclarations.permits h.settled doc pass.container
      have settled := h.settled.scan doc pass.container
      rw [← same] at scanned settled
      exact ⟨scanned.1, settled, scanned.2⟩
    · exact ⟨steady, h.settled.notes notes,
        h.keeps.next steady.toSameSetup (h.keeps.announce (.notes notes)), .refl doc₁⟩
  obtain ⟨steady, settled, keeps, same⟩ := scanned
  have formed := same.wellFormed h.formed
  have whole := steady.trans steady'
  have started : e₁.Standard doc₁ := ⟨settled, keeps, steady.actions.trans h.builtin,
    h.schedules steady.schedules.known, formed⟩
  have standard := started.notes steady'.toSameSetup after (h.schedules whole.schedules.known)
  refine ⟨standard.settled, standard.keeps, standard.builtin, standard.hosted, ?_⟩
  rcases callback with ⟨-, same⟩ | ⟨callback, given, same⟩
  · exact same ▸ formed
  · exact same ▸ (own callback given).wellFormed formed

theorem Standard.step (h : e.Standard doc) (next : e.step? doc = some (e', doc')) :
    e'.Standard doc' := by
  rcases step?_eq_some next with ⟨event, rest, -, same⟩ | ⟨-, pass, rest, oldest, same⟩
  · have taken : e.Standard { doc with outbox := rest } :=
      ⟨h.settled, h.keeps, h.builtin, h.hosted, h.formed.of_eq rfl rfl⟩
    have standard := taken.dispatch event
    rwa [← same] at standard
  · have listed : ∀ p ∈ pass :: (rest ++ e.parked), p.IsHosted := fun p mem =>
      h.hosted p (by rwa [oldest])
    have started : Standard { e with ready := rest } doc :=
      h.notes (.update ..) (.refl e.bindings) fun p mem =>
        listed p (List.mem_cons_of_mem _ mem)
    have standard := started.runPass (listed pass List.mem_cons_self)
    rwa [← same] at standard

theorem Standard.beginTurn (h : e.Standard doc) : (e.beginTurn doc).Standard doc := by
  have notes := notes_dropDetached { e with bindings := e.bindings.beginTurn } doc
  let e₁ := { e with bindings := e.bindings.beginTurn }
  have started : e₁.Keeps SameDeclarations (· = .standard) :=
    ⟨h.keeps.suited, h.keeps.accessors, h.keeps.actions, h.keeps.observers⟩
  exact ⟨h.settled.beginTurn doc,
    started.next notes.setup (started.announce (.notes notes.bindings)), h.builtin,
    fun pass mem => h.hosted pass ((e.sublist_beginTurn doc).subset mem), h.formed⟩

theorem Standard.perform {move : Move ν} (h : e.Standard doc) (hosted : move.IsHosted)
    (performed : move.perform? e doc = some (e', doc')) : e'.Standard doc' := by
  cases move with
  | request container callback =>
    obtain ⟨rfl, rfl⟩ := Prod.mk.inj (Option.some.inj performed)
    have notes := e.notes_request doc container callback
    apply h.notes notes.setup notes.bindings
    intro pass mem
    rcases (e.passes_request doc container callback).2 pass mem with there | same
    · exact h.hosted pass there
    · exact fun act given => hosted act (same ▸ given)
  | dispatch event =>
    have standard := h.dispatch event
    rwa [Option.some.inj performed] at standard
  | pump fuel =>
    obtain ⟨⟨last, lastDoc, count⟩, pumped, same⟩ := Option.map_eq_some_iff.mp performed
    obtain ⟨rfl, rfl⟩ : last = e' ∧ lastDoc = doc' := by simpa using same
    refine pump?_keeps (P := Standard) (fun _ _ _ _ next h => h.step next) ?_ pumped h.beginTurn
    intro e doc event plain h
    have notes := e.notes_log plain
    exact h.notes notes.setup notes.bindings h.hosted
  | beginTurn =>
    obtain ⟨rfl, rfl⟩ := Prod.mk.inj (Option.some.inj performed)
    exact h.beginTurn
  | round => exact h.step performed
  | registerAccessor => exact hosted.elim
  | registerAction => exact hosted.elim
  | takeErrors =>
    obtain ⟨rfl, rfl⟩ := Prod.mk.inj (Option.some.inj performed)
    exact h.notes (.update ..) (.refl e.bindings) h.hosted
  | edit change =>
    obtain ⟨rfl, rfl⟩ := Prod.mk.inj (Option.some.inj performed)
    exact ⟨h.settled, h.keeps, h.builtin, h.hosted,
      ByEdits.wellFormed hosted h.formed⟩

end

theorem Standard.create {evaluator : Evaluator} {e : Engine ν} {doc : Document}
    (created : create .standard evaluator = .ok e) (formed : doc.WellFormed) : e.Standard doc := by
  have settled := settled_of_reachable
    ⟨.standard, evaluator, doc, [], runNew?_eq_some.mpr ⟨e, created, rfl⟩⟩
  have notes := notes_create created
  obtain ⟨collection, -, rfl⟩ := create_eq created
  refine ⟨settled, ⟨rfl, SameDeclarations.permits.builtinAccessors,
    SameDeclarations.permits.builtinActions, fun o mem => ?_⟩, rfl,
    fun pass mem => absurd mem List.not_mem_nil, formed⟩
  rw [(Bindings.Announces.notes notes).observers] at mem
  exact absurd mem List.not_mem_nil

theorem standard_of_hosted {e : Engine ν} {doc : Document} (h : e.Hosted doc) :
    e.Standard doc := by
  obtain ⟨evaluator, moves, hosted, ran⟩ := h
  obtain ⟨start, created, ran⟩ := runNew?_eq_some.mp ran
  exact run?_keeps (P := Standard) moves
    (fun move mem _ _ _ _ performed h => h.perform (hosted move mem) performed) ran
    (.create created .new)

end Engine

end FormDependencies
