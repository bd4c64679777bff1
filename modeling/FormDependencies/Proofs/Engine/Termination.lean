import FormDependencies.Proofs.Engine.Effect
import FormDependencies.Proofs.Engine.Limit
import FormDependencies.Proofs.Engine.Schedule

/-!
Every turn ends. Three things bound it, the first above the second and the second above the third:
the passes that are scheduled or can still be, the evaluations that the limit leaves, and the events
that wait. A pass or an event of structure lowers the first; a change of a value leaves the first as
it is and lowers the second, or else the document gets no new event, and it lowers the third.
-/

namespace FormDependencies

open Document (OnlyChanges)

def Document.structuralEvents (doc : Document) : Nat :=
  doc.outbox.countP fun event => !event.kind.isValueChange

theorem Document.OnlyChanges.structuralEvents_le {doc doc' : Document} (h : OnlyChanges doc doc') :
    doc'.structuralEvents ≤ doc.structuralEvents := by
  obtain ⟨kept, added, outbox, older, quiet⟩ := h
  have none : added.countP (fun event => !event.kind.isValueChange) = 0 :=
    List.countP_eq_zero.mpr fun event mem => by simp [quiet event mem]
  unfold structuralEvents
  rw [outbox, List.countP_append, none, Nat.add_zero]
  exact older.countP_le

def Pass.Quiet {ν : Type} (pass : Pass ν) : Prop :=
  ∀ callback, pass.callback = some callback → ∀ doc, OnlyChanges doc (callback doc).1

namespace Engine
variable {ν : Type}

open Bindings (Announces Spends quiet_flush)

structure Quiet (e : Engine ν) : Prop where
  keeps : e.Keeps OnlyChanges fun _ => True
  passes : ∀ pass ∈ e.ready ++ e.parked, pass.Quiet

/-- The number of passes that are scheduled, or that events can still schedule. -/
def work (e : Engine ν) (doc : Document) : Nat :=
  2 * doc.structuralEvents + (e.ready.length + e.parked.length)

/-! ## What quiet engines do -/

section
variable {e e' : Engine ν} {doc doc' : Document}

theorem Quiet.next (h : e.Quiet) (keeps : e'.Keeps OnlyChanges fun _ => True)
    (schedules : ∀ pass ∈ e'.ready ++ e'.parked,
      pass ∈ e.ready ++ e.parked ∨ pass.callback = none) : e'.Quiet := by
  refine ⟨keeps, fun pass mem => ?_⟩
  rcases schedules pass mem with mem | none
  · exact h.passes pass mem
  · intro callback some
    rw [none] at some
    cases some

theorem Quiet.dispatch (h : e.Quiet) (settled : e.Settled) (doc : Document) (event : Event) :
    (e.dispatch doc event).1.Quiet ∧ OnlyChanges doc (e.dispatch doc event).2 := by
  obtain ⟨keeps, only⟩ := h.keeps.dispatch OnlyChanges.permits settled doc event
  exact ⟨h.next keeps (e.schedules_dispatch doc event).known, only⟩

/-- An event uses up some of the evaluations that are left, if the document changes. -/
theorem spends_dispatch (h : e.Quiet) (settled : e.Settled) (doc : Document) (event : Event) :
    Spends e.config.cascadeLimit.toNat e.bindings doc (e.dispatch doc event).1.bindings
      (e.dispatch doc event).2 := by
  have announced : ∀ {b c : Bindings ν} (doc : Document), Announces b c →
      Spends e.config.cascadeLimit.toNat b doc c doc := fun doc announces =>
    ⟨Nat.le_of_eq (Bindings.budget_congr announces.observers (Bindings.turnCount_congr announces.turn) _), .inl rfl⟩
  rcases e.dispatch_shape doc event with ⟨notes, same⟩ | ⟨setup, b, announces, flushes⟩
  · rw [same]
    exact announced doc (.notes notes.bindings)
  · have settling := settled.settling.announce announces
    obtain ⟨-, -, spends⟩ := quiet_flush settling.wellFormed (h.keeps.announce announces)
      h.keeps.environment doc
    rw [flushes.document]
    exact (announced doc announces).trans
      (spends.trans (announced _ (.notes flushes.bindings)))

theorem Quiet.runPass (h : e.Quiet) (settled : e.Settled) (doc : Document) {pass : Pass ν}
    (own : pass.Quiet) :
    (e.runPass doc pass).1.Quiet ∧ OnlyChanges doc (e.runPass doc pass).2 ∧
      Steady e (e.runPass doc pass).1 := by
  obtain ⟨steady, keeps, only⟩ := h.keeps.runPass OnlyChanges.permits settled doc own
  exact ⟨h.next keeps steady.schedules.known, only, steady⟩

/-! ## Termination -/

/-- What bounds the rounds of a turn that are still to come. -/
def rank (e : Engine ν) (doc : Document) : Nat × Nat × Nat :=
  (e.work doc, e.bindings.budget e.config.cascadeLimit.toNat, doc.outbox.length)

theorem rank_lt (config : e'.config = e.config) (work : e'.work doc' ≤ e.work doc)
    (spent : e'.work doc' < e.work doc ∨
      Bindings.budget e'.bindings e.config.cascadeLimit.toNat <
        e.bindings.budget e.config.cascadeLimit.toNat ∨
      Bindings.budget e'.bindings e.config.cascadeLimit.toNat ≤
        e.bindings.budget e.config.cascadeLimit.toNat ∧ doc'.outbox.length < doc.outbox.length) :
    Prod.Lex (· < ·) (Prod.Lex (· < ·) (· < ·)) (e'.rank doc') (e.rank doc) := by
  unfold rank
  rw [config]
  rcases Nat.lt_or_eq_of_le work with less | same
  · exact .left _ _ less
  · rw [same]
    refine .right _ ?_
    rcases spent with less | less | ⟨budget, less⟩
    · exact absurd same (Nat.ne_of_lt less)
    · exact .left _ _ less
    · rcases Nat.lt_or_eq_of_le budget with fewer | same
      · exact .left _ _ fewer
      · rw [same]
        exact .right _ less

theorem rank_dispatch (h : e.Quiet) (settled : e.Settled) {event : Event} {rest : List Event}
    (oldest : doc.outbox = event :: rest) :
    let r := e.dispatch { doc with outbox := rest } event
    Prod.Lex (· < ·) (Prod.Lex (· < ·) (· < ·)) (r.1.rank r.2) (e.rank doc) := by
  intro r
  let taken := { doc with outbox := rest }
  obtain ⟨-, only⟩ := h.dispatch settled taken event
  have spends := spends_dispatch h settled taken event
  have setup : r.1.config = e.config := by
    rcases e.dispatch_shape taken event with ⟨notes, -⟩ | settles
    · exact notes.setup.config
    · exact settles.setup.config
  have events := only.structuralEvents_le
  have counted : doc.structuralEvents =
      taken.structuralEvents + if event.kind.isValueChange then 0 else 1 := by
    simp only [Document.structuralEvents, oldest, List.countP_cons, taken]
    cases event.kind.isValueChange <;> rfl
  by_cases change : event.kind.isValueChange
  · have steady := e.steady_dispatch taken change
    rw [if_pos change, Nat.add_zero] at counted
    refine rank_lt setup ?_ (.inr ?_)
    · unfold work
      rw [steady.ready, steady.parked, counted]
      exact Nat.add_le_add_right (Nat.mul_le_mul_left 2 events) _
    · refine spends.spent.symm.imp_right fun same => ⟨spends.budget, ?_⟩
      rw [same, oldest]
      exact Nat.lt_succ_self _
  · have passes := (e.schedules_dispatch taken event).count
    rw [if_neg change] at counted
    have less : r.1.work r.2 < e.work doc := by
      unfold work
      change r.1.ready.length + r.1.parked.length ≤ _ at passes
      change r.2.structuralEvents ≤ _ at events
      omega
    exact rank_lt setup (Nat.le_of_lt less) (.inl less)

/-- Every round of a turn lowers the rank. -/
theorem rank_step (h : e.Quiet) (settled : e.Settled) (next : e.step? doc = some (e', doc')) :
    e'.Quiet ∧ Prod.Lex (· < ·) (Prod.Lex (· < ·) (· < ·)) (e'.rank doc') (e.rank doc) := by
  rcases step?_eq_some next with ⟨event, rest, oldest, same⟩ | ⟨-, pass, rest, oldest, same⟩
  · have quiet := h.dispatch settled { doc with outbox := rest } event
    have less := rank_dispatch h settled oldest
    rw [← same] at quiet less
    exact ⟨quiet.1, less⟩
  · let e₁ := { e with ready := rest }
    have settled₁ : e₁.Settled := ⟨settled.wellFormed, settled.idle, settled.upToDate⟩
    have listed : ∀ p ∈ pass :: (rest ++ e.parked), p.Quiet := fun p mem =>
      h.passes p (by rwa [oldest])
    have keeps₁ : e₁.Keeps OnlyChanges fun _ => True :=
      ⟨trivial, h.keeps.accessors, h.keeps.actions, h.keeps.observers⟩
    have quiet₁ : e₁.Quiet := ⟨keeps₁, fun p mem => listed p (List.mem_cons_of_mem _ mem)⟩
    have ran := quiet₁.runPass settled₁ doc (listed pass List.mem_cons_self)
    rw [← same] at ran
    obtain ⟨quiet, only, steady⟩ := ran
    have events : doc'.structuralEvents ≤ doc.structuralEvents := only.structuralEvents_le
    have ready : e'.ready = rest := steady.ready
    have parked : e'.parked = e.parked := steady.parked
    have less : e'.work doc' < e.work doc := by
      unfold work
      rw [ready, parked, oldest, List.length_cons]
      omega
    exact ⟨quiet, rank_lt steady.config (Nat.le_of_lt less) (.inl less)⟩

end

theorem settle?_of_le {n m : Nat} {e : Engine ν} {doc : Document} {r : Engine ν × Document × Nat}
    (h : settle? n e doc = some r) (more : n ≤ m) : settle? m e doc = some r := by
  induction n generalizing m e doc r with
  | zero =>
    unfold settle? at h
    split at h
    · next done =>
      have done := Option.isNone_iff_eq_none.mp done
      cases m with
      | zero => simpa [settle?, done] using h
      | succ m => simpa [settle?, done] using h
    · cases h
  | succ n ih =>
    obtain ⟨m, rfl⟩ := Nat.exists_eq_succ_of_ne_zero (Nat.ne_zero_of_lt more)
    unfold settle? at h ⊢
    cases next : e.step? doc with
    | none => simpa [next] using h
    | some r' =>
      simp only [next, Option.map_eq_some_iff] at h ⊢
      obtain ⟨last, settled, same⟩ := h
      exact ⟨last, ih settled (Nat.le_of_succ_le_succ more), same⟩

theorem exists_settle? (e : Engine ν) (doc : Document) (h : e.Quiet) (settled : e.Settled) :
    ∃ n r, settle? n e doc = some r := by
  cases next : e.step? doc with
  | none => exact ⟨0, _, by rw [settle?, next]; rfl⟩
  | some r =>
    obtain ⟨quiet, less⟩ := rank_step h settled next
    obtain ⟨n, last, done⟩ := exists_settle? r.1 r.2 quiet (settled.step next)
    exact ⟨n + 1, (last.1, last.2.1, last.2.2 + 1), by rw [settle?, next]; simp [done]⟩
termination_by e.rank doc
decreasing_by exact less

theorem Quiet.beginTurn {e : Engine ν} (h : e.Quiet) (doc : Document) :
    (e.beginTurn doc).Quiet := by
  have notes := notes_dropDetached { e with bindings := e.bindings.beginTurn } doc
  have started : Keeps OnlyChanges (fun _ => True) { e with bindings := e.bindings.beginTurn } :=
    ⟨trivial, h.keeps.accessors, h.keeps.actions, h.keeps.observers⟩
  refine ⟨started.next notes.setup (started.announce (.notes notes.bindings)), fun pass mem => ?_⟩
  exact h.passes pass ((e.sublist_beginTurn doc).subset mem)

/-- A turn comes to its end, with no event and no ready pass left, when all that the engine calls
makes quiet changes only, as all that is built in does. From the beginning of a turn to that of the
next, whatever the host does, no observer completes more evaluations than the limit allows. -/
theorem turn_terminates {e : Engine ν} {given : Document} (h : e.Reachable given)
    (doc : Document) :
    (e.Quiet → ∃ n e' doc' count,
        (∀ fuel, n ≤ fuel → e.pump? fuel doc = some (e', doc', count)) ∧
        doc'.outbox = [] ∧ e'.ready = []) ∧
      (∀ (moves : List (Move ν)) e' doc', (∀ move ∈ moves, move.beginsTurn = false) →
        (e.beginTurn doc).run? doc moves = some (e', doc') →
        ∀ id, e'.bindings.completions id ≤
          e.bindings.completions id + e.config.cascadeLimit.toNat) ∧
      (∀ fuel e₁ doc₁ count (moves : List (Move ν)) e' doc',
        e.pump? fuel doc = some (e₁, doc₁, count) →
        (∀ move ∈ moves, move.beginsTurn = false) → e₁.run? doc₁ moves = some (e', doc') →
        ∀ id, e'.bindings.completions id ≤
          e.bindings.completions id + e.config.cascadeLimit.toNat) ∧
      AccessorTable.builtin.Quiet ∧ (ActionTable.builtin : ActionTable ν).Quiet := by
  have settled := settled_of_reachable h
  refine ⟨?_, ?_, ?_, OnlyChanges.permits.builtinAccessors, OnlyChanges.permits.builtinActions⟩
  · intro quiet
    obtain ⟨n, ⟨last, lastDoc, count⟩, done⟩ :=
      exists_settle? (e.beginTurn doc) doc (quiet.beginTurn doc) (settled.beginTurn doc)
    have ended := (settle?_keeps (P := fun _ _ => True) (fun _ _ _ _ _ _ => trivial) done trivial).2
    obtain ⟨empty, idle⟩ := step?_eq_none.mp ended
    refine ⟨n, if count = 0 then last else last.log (.pumped count), lastDoc, count, ?_, empty, ?_⟩
    · intro fuel more
      rw [pump?, settle?_of_le done more]
      rfl
    · split
      · exact idle
      · exact idle
  · intro moves e' doc' same ran
    exact ((settled.inTurn doc).run same ran).within.limited
  · intro fuel e₁ doc₁ count moves e' doc' pumped same ran
    exact ((settled.inTurn_pump pumped).run same ran).within.limited

/-- All that a new engine calls is built in. -/
theorem Quiet.create {config : Config} {evaluator : Evaluator} {e : Engine ν}
    (created : Engine.create config evaluator = .ok e) : e.Quiet := by
  have notes := notes_create created
  obtain ⟨collection, -, rfl⟩ := create_eq created
  refine ⟨⟨trivial, OnlyChanges.permits.builtinAccessors, OnlyChanges.permits.builtinActions,
    fun o mem => ?_⟩, fun pass mem => absurd mem List.not_mem_nil⟩
  rw [(Announces.notes notes).observers] at mem
  exact absurd mem List.not_mem_nil

def cyclicForm : Document :=
  let field (name query : String) : List (String × String) :=
    [("data-dependsonref", name), ("data-dependson", query), ("data-dependsonaction", "set")]
  let doc := (Form.addText Form.new (field "first" "@second")).1
  (Form.addText doc (field "second" "@first")).1.trigger .root .contentLoaded

def lengthen : Evaluator := fun text refs =>
  match refs.get (if text = "@first" then "first" else "second") with
  | .text value => .ok (.text (value ++ "+"))
  | _ => .ok .undefined

/-- The fields go on setting each other until the limit of the turn stops them. -/
theorem turn_terminates_cyclicForm :
    ∃ (e : Engine Unit) (doc : Document),
      runNew? { cascadeLimit := 3 } lengthen cyclicForm [] = some (e, doc) ∧ e.Quiet ∧
      ((e.pump? 8 doc).map fun r => r.1.bindings.evaluated) =
        some [⟨0⟩, ⟨1⟩, ⟨1⟩, ⟨0⟩, ⟨1⟩, ⟨0⟩] ∧
      ∃ n e' doc' count, (∀ fuel, n ≤ fuel → e.pump? fuel doc = some (e', doc', count)) ∧
        doc'.outbox = [] ∧ e'.ready = [] := by
  obtain ⟨⟨e, doc⟩, ran⟩ := Option.isSome_iff_exists.mp
    (show (runNew? (ν := Unit) { cascadeLimit := 3 } lengthen cyclicForm []).isSome by
      decide +kernel)
  obtain ⟨start, created, same⟩ := runNew?_eq_some.mp ran
  obtain ⟨rfl, rfl⟩ : start = e ∧ cyclicForm = doc := by simpa [run?] using same
  have evaluated : (runNew? (ν := Unit) { cascadeLimit := 3 } lengthen cyclicForm []).bind
      (fun r => (r.1.pump? 8 r.2).map fun r => r.1.bindings.evaluated) =
        some [⟨0⟩, ⟨1⟩, ⟨1⟩, ⟨0⟩, ⟨1⟩, ⟨0⟩] := by decide +kernel
  rw [ran] at evaluated
  have quiet : start.Quiet := .create created
  have reachable : start.Reachable cyclicForm :=
    ⟨{ cascadeLimit := 3 }, lengthen, cyclicForm, [], ran⟩
  exact ⟨start, cyclicForm, ran, quiet, evaluated, (turn_terminates reachable cyclicForm).1 quiet⟩

end Engine

end FormDependencies
