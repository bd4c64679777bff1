import FormDependencies.Proofs.Binding.Extension
import FormDependencies.Proofs.Binding.Registry

/-!
What references, groups and observers are used for, in any order and with any documents. Whatever
holds of an empty state and is kept by the operations on references and groups holds of every state
that such uses lead to: what observers do in between adds groups at most.
-/

namespace FormDependencies

inductive ReferenceOperation where
  | register (accessors : AccessorTable) (config : Config) (el : ElementId)
  | actualize
  | changed (accessors : AccessorTable) (target : ElementId)

def ReferenceOperation.apply {ν : Type} (doc : Document) (b : Bindings ν) :
    ReferenceOperation → Bindings ν
  | .register accessors config el => (b.register doc accessors config el).1
  | .actualize => (b.actualizeReferences doc).1
  | .changed accessors target => (b.referencesChanged doc accessors target).1

def Operation.IsOwn {ν : Type} : Operation ν → Prop
  | .elsewhere .. => False
  | _ => True

inductive Use (ν : Type) where
  | references (doc : Document) (op : ReferenceOperation)
  | resolveGroup (doc : Document) (name : String) (scope : ElementId)
  | actualizeGroups (doc : Document)
  | groupsChanged (doc : Document) (target : ElementId) (names : List String)
  | observers (op : Operation ν) (own : op.IsOwn)
  | openEpoch (name : String)
  /-- The host makes a note of what a slot holds, whenever it changes. -/
  | watch (id : SlotId) (note : Value → ν)
  | leave (s : Subscription)

def Use.apply {ν : Type} (b : Bindings ν) : Use ν → Bindings ν
  | .references doc op => op.apply doc b
  | .resolveGroup doc name scope => (b.resolveGroup doc name scope).1
  | .actualizeGroups doc => (b.actualizeGroups doc).1
  | .groupsChanged doc target names => (b.groupsChanged doc target names).1
  | .observers op _ => op.apply b
  | .openEpoch name => b.openEpoch name
  | .watch id note => (b.subscribeSlot id (.host note)).1
  | .leave s => b.unsubscribe s

namespace Bindings
variable {ν : Type}

def runFrom (b : Bindings ν) (uses : List (Use ν)) : Bindings ν :=
  uses.foldl Use.apply b

@[simp] theorem runFrom_cons (b : Bindings ν) (next : Use ν) (rest : List (Use ν)) :
    b.runFrom (next :: rest) = (next.apply b).runFrom rest :=
  rfl

/-- What every use keeps, a sequence of uses keeps. -/
theorem runFrom_keeps (P : Bindings ν → Prop)
    (each : ∀ b (next : Use ν), P b → P (next.apply b)) {b : Bindings ν} (h : P b)
    (uses : List (Use ν)) : P (b.runFrom uses) := by
  induction uses generalizing b with
  | nil => exact h
  | cons next rest ih => exact ih (each b next h)

def run (uses : List (Use ν)) : Bindings ν := empty.runFrom uses

/-! ## What leaves slots alone -/

structure Unwritten (b c : Bindings ν) : Prop extends SameSources b c where
  versions : ∀ id, c.version (.slot id) = b.version (.slot id)

namespace Unwritten
variable {b c d : Bindings ν}

theorem of_slots (references : c.references = b.references) (groups : c.groups = b.groups)
    (slots : c.slots = b.slots) : Unwritten b c where
  toSameSources := .of_slots references groups slots
  versions id := by simp only [version, slot, slots]

theorem trans (first : Unwritten b c) (second : Unwritten c d) : Unwritten b d where
  toSameSources := first.toSameSources.trans second.toSameSources
  versions id := (second.versions id).trans (first.versions id)

theorem openEpoch (b : Bindings ν) (name : String) : Unwritten b (b.openEpoch name) := by
  apply of_slots
  · exact Lookup.Faithful.openEpoch_keeps (·.references) (fun _ _ => rfl) b name
  · exact Lookup.Faithful.openEpoch_keeps (·.groups) (fun _ _ => rfl) b name
  · exact Lookup.Faithful.openEpoch_keeps (·.slots) (fun _ _ => rfl) b name

theorem subscribeEpoch (b : Bindings ν) (name : String) (id : ObserverId) :
    Unwritten b (b.subscribeEpoch name id).1 where
  toSameSources := .subscribeEpoch b name id
  versions slot := b.version_subscribeEpoch name id (.slot slot)

theorem subscribeSlot (b : Bindings ν) (id : SlotId) (listener : Listener ν) :
    Unwritten b (b.subscribeSlot id listener).1 where
  toSameSources := .subscribeSlot b id listener
  versions slot := b.version_subscribeSlot id listener (.slot slot)

theorem unsubscribe (b : Bindings ν) (s : Subscription) : Unwritten b (b.unsubscribe s) where
  toSameSources := .unsubscribe b s
  versions slot := b.version_unsubscribe s (.slot slot)

theorem unsubscribeAll (b : Bindings ν) (ended : List Subscription) :
    Unwritten b (b.unsubscribeAll ended) where
  toSameSources := .unsubscribeAll b ended
  versions slot := b.version_unsubscribeAll ended (.slot slot)

theorem destroyElement (b : Bindings ν) (el : ElementId) :
    Unwritten b (b.destroyElement el).1 where
  toSameSources := .destroyElement b el
  versions slot := (b.destroys_destroyElement el).versions (.slot slot)

theorem push (b : Bindings ν) (id : ObserverId) : Unwritten b (b.push id) where
  toSameSources := .push b id
  versions slot := push_keeps (·.version (.slot slot)) (fun _ _ => rfl) b id

theorem queueWhere (b : Bindings ν) (chosen : Observer ν → Bool) :
    Unwritten b (b.queueWhere chosen).1 where
  toSameSources := .queueWhere b chosen
  versions slot := foldl_keeps (·.version (.slot slot))
    (fun (b : Bindings ν) (o : Observer ν) => b.push o.id)
    (fun b o => (push b o.id).versions slot) (b.observers.filter chosen) b

theorem notes (h : Notes b c) : Unwritten b c := by
  rcases h with ⟨added, rfl, -⟩
  exact of_slots rfl rfl rfl

theorem init (b : Bindings ν) (doc : Document) (el : ElementId) (actions : ActionTable ν)
    (config : Config) : Unwritten b (b.init doc el actions config).1 := by
  rcases b.init_cases doc el actions config with
    ⟨-, same⟩ | ⟨-, ⟨error, same, -⟩ | ⟨target, prepared, -, -, same⟩⟩
  · rw [same]
    exact of_slots rfl rfl rfl
  · rw [same]
    exact destroyElement b el
  · rw [same]
    exact (destroyElement b el).trans (of_slots rfl rfl rfl)

theorem actualizeObservers (b : Bindings ν) (doc : Document) :
    Unwritten b (b.actualizeObservers doc).1 := by
  apply actualizeObservers_keeps (Unwritten b) _ _ (of_slots rfl rfl rfl)
  · intro c el _ same
    exact same.trans (destroyElement c el)
  · intro c count live same
    exact same.trans (of_slots rfl rfl rfl)

end Unwritten

/-! ## Invariants of all uses -/

/-- A property of references, groups and slots that the operations on references and groups
keep. -/
structure Kept (P : Bindings ν → Prop) : Prop where
  same : ∀ {b c}, Unwritten b c → P b → P c
  references : ∀ {b} doc (op : ReferenceOperation), P b → P (op.apply doc b)
  resolveGroup : ∀ {b} doc name scope, P b → P (b.resolveGroup doc name scope).1
  actualizeGroups : ∀ {b} doc, P b → P (b.actualizeGroups doc).1
  groupsChanged : ∀ {b} doc target names, P b → P (b.groupsChanged doc target names).1

namespace Kept
variable {P : Bindings ν → Prop}

theorem token (kept : Kept P) (doc : Document) (accessors : AccessorTable) (el : ElementId)
    (id : ObserverId) (token : ReferenceToken) {l : Lookup ν} (h : P l.bindings) :
    P (l.token doc accessors el id token).bindings := by
  have watched : P (l.watchEpoch token.name id).bindings := kept.same (.subscribeEpoch _ _ _) h
  have within : ∀ scope, P (l.within doc accessors el id token scope).bindings := by
    intro scope
    unfold Lookup.within
    cases token.kind with
    | simple =>
      dsimp only [Lookup.simple]
      cases (l.watchEpoch token.name id).bindings.resolve doc el token.name scope with
      | none => exact watched
      | some r => exact kept.same (.subscribeSlot _ _ _) watched
    | group =>
      apply kept.same (.subscribeSlot _ _ _)
      exact kept.resolveGroup doc token.name _ watched
    | this => exact kept.same (.notes (notes_logCast _ _)) h
  unfold Lookup.token
  cases token.scope with
  | none => exact within none
  | some selector =>
    dsimp only
    cases doc.closest? el selector with
    | some root => exact within (some root)
    | none =>
      dsimp only [Lookup.outOfScope]
      split
      · exact watched
      · exact watched

theorem evaluateObserver (kept : Kept P) {b : Bindings ν} (h : P b) (doc : Document)
    (env : Environment) (o : Observer ν) : P (b.evaluateObserver doc env o).1 := by
  have looked : ∀ (tokens : List ReferenceToken) (l : Lookup ν), P l.bindings →
      P (tokens.foldl (fun l token => l.token doc env.accessors o.element o.id token)
        l).bindings := by
    intro tokens
    induction tokens with
    | nil => exact fun _ h => h
    | cons token rest ih => exact fun l h => ih _ (kept.token doc env.accessors _ _ token h)
  have found : P (b.lookUp doc env.accessors o).bindings :=
    looked o.query.references { bindings := b } h
  let recorded := (b.lookUp doc env.accessors o).bindings.record
    (.lookedUp o.id (b.lookUp doc env.accessors o).readings)
  have noted : P recorded := by
    apply kept.same _ found
    exact .of_slots rfl rfl rfl
  have ended : P (recorded.unsubscribeAll o.subscriptions) :=
    kept.same (.unsubscribeAll recorded o.subscriptions) noted
  obtain ⟨change, added, same, -⟩ := b.evaluateObserver_eq doc env o
  rw [same]
  apply kept.same _ ended
  exact .of_slots rfl rfl rfl

theorem attempt (kept : Kept P) {b c : Bindings ν} {doc doc' : Document} {env : Environment}
    {id : ObserverId} (attempted : Attempted b doc env id c doc') (h : P b) : P c := by
  have counted : P (b.countTurn id) := by
    apply kept.same _ h
    exact .of_slots rfl rfl rfl
  cases attempted with
  | refused =>
    apply kept.same _ h
    exact .of_slots rfl rfl rfl
  | missing => exact counted
  | detached _ o => exact kept.same (.destroyElement _ o.element) counted
  | evaluated _ o => exact kept.evaluateObserver counted doc env o

/-- Observers only look up what is there, and add the groups that they read. -/
theorem own (kept : Kept P) {b : Bindings ν} (h : P b) (op : Operation ν) (own : op.IsOwn) :
    P (op.apply b) := by
  cases op with
  | init doc el actions config => exact kept.same (.init b doc el actions config) h
  | destroyElement el => exact kept.same (.destroyElement b el) h
  | actualize doc => exact kept.same (.actualizeObservers b doc) h
  | queue id =>
    dsimp only [Operation.apply, Bindings.queue]
    split
    · exact kept.same (.push b id) h
    · exact h
  | queueWithin doc container => exact kept.same (.queueWhere b _) h
  | queueSelfReaders doc target => exact kept.same (.queueWhere b _) h
  | beginTurn =>
    apply kept.same _ h
    exact .of_slots rfl rfl rfl
  | evaluateNow doc env id => exact kept.attempt (b.attempted_evaluateNow doc env id) h
  | flush doc env =>
    apply flushEach_keeps (fun c _ _ => P c) (fun _ _ _ _ _ h => h)
    · intro c doc id _ d doc' _ attempted h
      exact kept.attempt attempted h
    · apply kept.same _ h
      exact .of_slots rfl rfl rfl
  | elsewhere => exact own.elim

theorem apply (kept : Kept P) {b : Bindings ν} (h : P b) (next : Use ν) : P (next.apply b) := by
  cases next with
  | references doc op => exact kept.references doc op h
  | resolveGroup doc name scope => exact kept.resolveGroup doc name scope h
  | actualizeGroups doc => exact kept.actualizeGroups doc h
  | groupsChanged doc target names => exact kept.groupsChanged doc target names h
  | observers op own => exact kept.own h op own
  | openEpoch name => exact kept.same (.openEpoch b name) h
  | watch id note => exact kept.same (.subscribeSlot b id _) h
  | leave s => exact kept.same (.unsubscribe b s) h

theorem runFrom (kept : Kept P) {b : Bindings ν} (h : P b) (uses : List (Use ν)) :
    P (b.runFrom uses) :=
  runFrom_keeps P (fun _ next h => kept.apply h next) h uses

end Kept

theorem kept_allotted : Kept (Allotted (ν := ν)) where
  same same h := h.same same.toSameSources
  references doc op h := by
    cases op with
    | register accessors config el => exact h.register doc accessors config el
    | actualize => exact h.actualizeReferences doc
    | changed accessors target => exact h.referencesChanged doc accessors target
  resolveGroup doc name scope h := h.resolveGroup doc name scope
  actualizeGroups doc h := h.actualizeGroups doc
  groupsChanged doc target names h := h.groupsChanged doc target names

/-- Whatever the bindings are used for, references and groups have slots of their own. -/
theorem allotted_run (uses : List (Use ν)) : (run uses).Allotted :=
  kept_allotted.runFrom .start uses

end Bindings

end FormDependencies
