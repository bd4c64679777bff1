import FormDependencies.Proofs.Binding.Supply
import FormDependencies.Proofs.Binding.Turn
import FormDependencies.Proofs.Binding.Wiring

/-!
What an observer reads that looks neither at its own element nor up to a scope. Its references are
found by the structure of the document alone, and their values are held by slots. So it does not
matter what others write into the document or which groups they have brought about.
-/

namespace FormDependencies

namespace Document

structure SameStructure (doc doc' : Document) : Prop where
  ancestors : ∀ el, doc'.ancestors el = doc.ancestors el
  descendants : ∀ el, doc'.descendants el = doc.descendants el
  isAttached : ∀ el, doc'.isAttached el = doc.isAttached el

namespace SameStructure
variable {doc doc' doc'' : Document}

theorem refl (doc : Document) : SameStructure doc doc :=
  ⟨fun _ => rfl, fun _ => rfl, fun _ => rfl⟩

theorem trans (first : SameStructure doc doc') (second : SameStructure doc' doc'') :
    SameStructure doc doc'' where
  ancestors el := (second.ancestors el).trans (first.ancestors el)
  descendants el := (second.descendants el).trans (first.descendants el)
  isAttached el := (second.isAttached el).trans (first.isAttached el)

end SameStructure

theorem SameTree.structure {doc doc' : Document} (h : SameTree doc doc') : SameStructure doc doc' :=
  ⟨h.ancestors, h.descendants, h.isAttached⟩

end Document

structure ReferenceToken.IsPlain (token : ReferenceToken) : Prop where
  kind : token.kind ≠ .this
  scope : token.scope = none

def Query.AsksFor (q : Query) (name : String) : Prop :=
  ∃ token ∈ q.references, token.kind = .group ∧ token.name = name

namespace Bindings
variable {ν : Type}

/-! ## Documents with one structure -/

section
variable {doc doc' : Document} (h : doc.SameStructure doc') (b : Bindings ν)
include h

theorem resolve_of_structure (origin : ElementId) (name : String) (scope : Option ElementId) :
    b.resolve doc' origin name scope = b.resolve doc origin name scope := by
  have candidates : b.candidates doc' name = b.candidates doc name := by
    simp only [Bindings.candidates, h.isAttached]
  have first : firstWithin? doc' = firstWithin? doc := by
    funext found root
    simp only [firstWithin?, h.descendants]
  simp only [resolve, candidates, first, h.ancestors]

theorem namedWithin_of_structure (scope : ElementId) (name : String) :
    b.namedWithin doc' scope name = b.namedWithin doc scope name := by
  simp only [namedWithin, h.descendants]

theorem Fresh.of_structure {b : Bindings ν} {g : Group} (fresh : b.Fresh doc' g) :
    b.Fresh doc g where
  members := by
    have same := fresh.members
    rwa [recomputed, namedWithin_of_structure h] at same
  values := by
    have same := fresh.values
    rwa [groupValues, namedWithin_of_structure h] at same

end

/-! ## New groups of the whole document -/

/-- Groups of the whole document have been added, of the names that were asked for, each with a slot
of its own. -/
structure Founds (b c : Bindings ν) (asked : String → Prop) : Prop where
  size : b.slots.size ≤ c.slots.size
  added : ∃ added, c.groups = b.groups ++ added ∧
    ∀ g ∈ added, g.scope = .root ∧ ¬b.Has (.slot g.slot)
  keys : ∀ name scope, (c.group? name scope).isSome ↔
    (b.group? name scope).isSome ∨ scope = .root ∧ asked name

namespace Founds
variable {b c d : Bindings ν} {asked asked' : String → Prop}

theorem of_same (same : SameSources b c) : Founds b c fun _ => False where
  size := Nat.le_of_eq same.size.symm
  added := ⟨[], by rw [same.groups, List.append_nil], fun _ none => absurd none List.not_mem_nil⟩
  keys name scope := by simp [group?, same.groups]

theorem trans (first : Founds b c asked) (second : Founds c d asked') :
    Founds b d fun name => asked name ∨ asked' name where
  size := Nat.le_trans first.size second.size
  added := by
    obtain ⟨earlier, groups, own⟩ := first.added
    obtain ⟨later, groups', own'⟩ := second.added
    refine ⟨earlier ++ later, by rw [groups', groups, List.append_assoc], fun g mem => ?_⟩
    rcases List.mem_append.mp mem with mem | mem
    · exact own g mem
    · exact ⟨(own' g mem).1, fun there => (own' g mem).2 (there.mono first.size)⟩
  keys name scope := by rw [second.keys, first.keys, or_assoc, and_or_left]

theorem congr (h : Founds b c asked) (same : ∀ name, asked name ↔ asked' name) :
    Founds b c asked' where
  size := h.size
  added := h.added
  keys name scope := by rw [h.keys, same]

theorem then_same (h : Founds b c asked) (same : SameSources c d) : Founds b d asked :=
  (h.trans (.of_same same)).congr fun _ => iff_of_eq (or_false _)

theorem resolveGroup (placed : b.Placed) (doc : Document) (name : String) :
    Founds b (b.resolveGroup doc name .root).1 (· = name) := by
  cases found : b.group? name .root with
  | some g =>
    have same : b.resolveGroup doc name .root = (b, g) := by
      simp only [Bindings.resolveGroup, found]
    rw [same]
    refine ⟨Nat.le_refl _, ⟨[], (List.append_nil _).symm, fun _ none => absurd none
      List.not_mem_nil⟩, fun other scope => ⟨.inl, ?_⟩⟩
    rintro (there | ⟨rfl, rfl⟩)
    · exact there
    · exact Option.isSome_of_eq_some found
  | none =>
    have created := creates_resolveGroup placed found doc
    refine ⟨Nat.le_of_lt created.size, ⟨[_], created.groups, fun g mem => ?_⟩,
      fun other scope => ?_⟩
    · rw [List.mem_singleton.mp mem]
      refine ⟨created.key.2, fun there => ?_⟩
      rw [created.slot] at there
      exact Nat.lt_irrefl _ there
    · rw [group?, created.groups, List.find?_append, Option.isSome_or, Bool.or_eq_true]
      refine or_congr_right ?_
      rw [List.isSome_find?, List.any_cons, created.key.1, created.key.2]
      simp only [List.any_nil, Bool.or_false, Bool.and_eq_true, beq_iff_eq]
      constructor
      · rintro ⟨own, root⟩
        exact ⟨root.symm, own.symm⟩
      · rintro ⟨root, own⟩
        exact ⟨own.symm, root.symm⟩

theorem token {l : Lookup ν} (allotted : l.bindings.Allotted) (doc : Document)
    (accessors : AccessorTable) (el : ElementId) (id : ObserverId) {token : ReferenceToken}
    (plain : token.IsPlain) :
    Founds l.bindings (l.token doc accessors el id token).bindings fun name =>
      token.kind = .group ∧ token.name = name := by
  have epoch := SameSources.subscribeEpoch l.bindings token.name id
  have watched : Founds l.bindings (l.watchEpoch token.name id).bindings fun _ => False :=
    .of_same epoch
  have placed : (l.watchEpoch token.name id).bindings.Placed := (allotted.same epoch).placed
  unfold Lookup.token Lookup.within
  rw [plain.scope]
  dsimp only
  cases kind : token.kind with
  | this => exact absurd kind plain.kind
  | simple =>
    refine congr ?_ fun name => iff_of_false (fun h => h) fun none => nomatch none.1
    unfold Lookup.simple
    dsimp only
    cases (l.watchEpoch token.name id).bindings.resolve doc el token.name none with
    | none => exact watched
    | some r => exact watched.then_same (.subscribeSlot _ r.slot (.observer id))
  | group =>
    refine congr (watched.trans ((resolveGroup placed doc token.name).then_same
      (.subscribeSlot _ _ (.observer id)))) fun name => ?_
    simp [eq_comm]

theorem lookUp {b : Bindings ν} (allotted : b.Allotted) (doc : Document)
    (accessors : AccessorTable) {o : Observer ν}
    (plain : ∀ token ∈ o.query.references, token.IsPlain) :
    Founds b (b.lookUp doc accessors o).bindings o.query.AsksFor := by
  have each : ∀ (tokens : List ReferenceToken) (l : Lookup ν), l.bindings.Allotted →
      (∀ token ∈ tokens, token.IsPlain) →
      Founds l.bindings (tokens.foldl
        (fun l token => l.token doc accessors o.element o.id token) l).bindings
        fun name => ∃ token ∈ tokens, token.kind = .group ∧ token.name = name := by
    intro tokens
    induction tokens with
    | nil => exact fun l _ _ => (of_same (.refl l.bindings)).congr fun _ => by simp
    | cons token rest ih =>
      intro l allotted plain
      have first := Founds.token allotted doc accessors o.element o.id
        (plain token List.mem_cons_self)
      have unchanged : Extends doc o.element l.bindings l.bindings := .refl allotted
      have extended := unchanged.token accessors o.id token
      have later := ih _ extended.allotted fun token mem => plain token (List.mem_cons_of_mem _ mem)
      exact (first.trans later).congr fun name => by simp
  exact each o.query.references { bindings := b } allotted plain

/-- An evaluation brings about the groups that its query asks for. -/
theorem evaluateObserver {b : Bindings ν} (allotted : b.Allotted) (doc : Document)
    (env : Environment) {o : Observer ν} (plain : ∀ token ∈ o.query.references, token.IsPlain) :
    Founds b (b.evaluateObserver doc env o).1 o.query.AsksFor := by
  obtain ⟨change, added, evaluated, -⟩ := b.evaluateObserver_eq doc env o
  obtain ⟨slots, epochs, rebound, size⟩ := b.rebind_eq doc env.accessors o
  have found := lookUp allotted doc env.accessors plain
  rw [evaluated, rebound]
  exact ⟨Nat.le_trans found.size (Nat.le_of_eq size.symm), found.added, found.keys⟩

end Founds

/-- What is added in a document of the same structure might have been added in this one. -/
theorem Extends.of_structure {doc doc' : Document} {el : ElementId} {b c : Bindings ν}
    {asked : String → Prop} (h : Extends doc' el b c) (same : doc.SameStructure doc')
    (founds : Founds b c asked) : Extends doc .root b c where
  allotted := h.allotted
  references := h.references
  size := h.size
  reads := h.reads
  groups := by
    obtain ⟨added, groups, fresh⟩ := h.groups
    obtain ⟨added', groups', own⟩ := founds.added
    obtain rfl : added = added' := List.append_cancel_left (groups.symm.trans groups')
    exact ⟨added, groups, fun g mem =>
      ⟨(fresh g mem).1.of_structure same, .inl (own g mem).1⟩⟩

/-! ## What is handed on -/

section
variable {doc doc' : Document} {b c : Bindings ν}

theorem resolve_of_extends (same : doc.SameStructure doc') (extension : Extends doc .root b c)
    (origin : ElementId) (name : String) (scope : Option ElementId) :
    c.resolve doc' origin name scope = b.resolve doc origin name scope :=
  (resolve_of_structure same c origin name scope).trans
    (extension.persists.resolve doc origin name scope)

variable (same : doc.SameStructure doc') (extension : Extends doc .root b c) (allotted : b.Allotted)
include same extension allotted

theorem groupSupply_of_extends (name : String) (scope : ElementId) :
    ((c.groupSupply doc' name scope).map (·.2), (c.groupSupply doc' name scope).length) =
      ((b.groupSupply doc name scope).map (·.2), (b.groupSupply doc name scope).length) := by
  cases found : c.group? name scope with
  | some g =>
    -- both are what is read of the group
    have unchanged : Extends doc' .root c c := .refl extension.allotted
    have now := unchanged.snapshot extension.allotted found
    have before := extension.snapshot allotted found
    rw [now] at before
    exact Prod.ext (congrArg GroupSnapshot.values before) (congrArg GroupSnapshot.count before)
  | none =>
    have absent : b.group? name scope = none := by
      cases there : b.group? name scope with
      | none => rfl
      | some g => cases found.symm.trans (extension.group?_eq_some there)
    have members : c.namedWithin doc' scope name = b.namedWithin doc scope name :=
      (namedWithin_of_structure same c scope name).trans
        (namedWithin_congr extension.references doc scope name)
    have supplies : c.groupSupply doc' name scope = b.groupSupply doc name scope := by
      unfold groupSupply
      rw [found, absent, members]
      refine List.map_congr_left fun r mem => ?_
      rw [extension.reads_references allotted.placed r (mem_references_of_mem_namedWithin mem)]
    rw [supplies]

/-- What is handed on for a token is what would have been handed on before. -/
theorem hand_of_extends (accessors : AccessorTable) (el : ElementId) {token : ReferenceToken}
    (plain : token.IsPlain) (handed : ReferenceValues) :
    handed.hand token (c.supply doc' accessors el token) =
      handed.hand token (b.supply doc accessors el token) := by
  unfold supply
  rw [plain.scope]
  dsimp only
  unfold supplyWithin ReferenceValues.hand
  cases kind : token.kind with
  | this => exact absurd kind plain.kind
  | simple =>
    dsimp only
    rw [resolve_of_extends same extension]
    cases found : b.resolve doc el token.name none with
    | none => rfl
    | some r =>
      have read := extension.reads_references allotted.placed r (mem_of_resolve found)
      simp only [Option.map_some, read]
  | group =>
    have supplies := groupSupply_of_extends same extension allotted token.name .root
    obtain ⟨values, count⟩ := Prod.mk.inj supplies
    dsimp only [Option.getD_none]
    rw [values, count]

theorem values_of_extends (accessors : AccessorTable) {o : Observer ν}
    (plain : ∀ token ∈ o.query.references, token.IsPlain) :
    (c.lookUp doc' accessors o).values = (b.lookUp doc accessors o).values := by
  rw [values_lookUp extension.allotted, values_lookUp allotted]
  exact List.foldl_ext _ _ _ fun handed token mem =>
    hand_of_extends same extension allotted accessors o.element (plain token mem) handed

end

/-! ## What is watched -/

end Bindings

/-- What a source is, no matter which slot a group has been given. -/
inductive Watched where
  | name (name : String)
  | group (name : String) (scope : ElementId)
  | slot (id : SlotId)
deriving DecidableEq

namespace Bindings

def watched (b : Bindings ν) : Source → Watched
  | .epoch name => .name name
  | .slot id =>
    match b.groups.find? fun g => g.slot == id with
    | some g => .group g.name g.scope
    | none => .slot id

def watchedFor (b : Bindings ν) (doc : Document) (el : ElementId) (token : ReferenceToken) :
    List Watched :=
  match token.kind with
  | .simple =>
    .name token.name :: ((b.resolve doc el token.name none).map fun r => Watched.slot r.slot).toList
  | .group => [.name token.name, .group token.name .root]
  | .this => []

section
variable {b c : Bindings ν}

theorem watched_epoch (b : Bindings ν) (name : String) :
    b.watched (.epoch name) = .name name := rfl

theorem watched_congr (groups : c.groups = b.groups) : c.watched = b.watched := by
  funext source
  cases source with
  | epoch name => rfl
  | slot id => simp only [watched, groups]

theorem Allotted.watched_reference (h : b.Allotted) {r : Reference} (mem : r ∈ b.references) :
    b.watched (.slot r.slot) = .slot r.slot := by
  have absent : b.groups.find? (fun g => g.slot == r.slot) = none :=
    List.find?_eq_none.mpr fun g there => by simpa using Ne.symm (h.apart r mem g there)
  simp only [watched, absent]

theorem Allotted.watched_group (h : b.Allotted) {g : Group} (mem : g ∈ b.groups) :
    b.watched (.slot g.slot) = .group g.name g.scope := by
  cases found : b.groups.find? fun other => other.slot == g.slot with
  | none => exact absurd (List.find?_eq_none.mp found g mem) (by simp)
  | some other =>
    have slot : other.slot = g.slot := by simpa using List.find?_some found
    obtain rfl : other = g :=
      List.inj_on_of_nodup_map h.groups (List.mem_of_find?_eq_some found) mem slot
    simp only [watched, found]

/-- New groups have new slots. -/
theorem Founds.watched {asked : String → Prop} (h : Founds b c asked) {source : Source}
    (there : b.Has source) : c.watched source = b.watched source := by
  obtain ⟨added, groups, own⟩ := h.added
  cases source with
  | epoch name => rfl
  | slot id =>
    have absent : added.find? (fun g => g.slot == id) = none :=
      List.find?_eq_none.mpr fun g mem => by
        simpa using fun same : g.slot = id => (own g mem).2 (same ▸ there)
    simp only [Bindings.watched, groups, List.find?_append, absent, Option.or_none]

end

/-- The sources of a token are what is watched for it, once its group is there. -/
theorem watched_sourcesOf {doc doc' : Document} {b c : Bindings ν} (same : doc.SameStructure doc')
    (extension : Extends doc .root b c) (el : ElementId) {token : ReferenceToken}
    (plain : token.IsPlain)
    (there : token.kind = .group → (c.group? token.name .root).isSome) :
    (c.sourcesOf doc' el token).map c.watched = b.watchedFor doc el token := by
  unfold sourcesOf
  rw [plain.scope]
  dsimp only
  unfold sourcesWithin watchedFor
  cases kind : token.kind with
  | this => exact absurd kind plain.kind
  | simple =>
    dsimp only
    rw [resolve_of_extends same extension]
    cases found : b.resolve doc el token.name none with
    | none => rfl
    | some r =>
      have mem : r ∈ c.references := extension.references ▸ mem_of_resolve found
      simp [extension.allotted.watched_reference mem, watched_epoch]
  | group =>
    obtain ⟨g, found⟩ := Option.isSome_iff_exists.mp (there kind)
    obtain ⟨mem, name, scope⟩ := mem_of_group? found
    simp [found, extension.allotted.watched_group mem, name, scope, watched_epoch]

/-- What an observer is subscribed to when it has been evaluated is what its references stand for,
whoever has brought the groups about. -/
theorem watched_lookUp {doc doc' : Document} {b c : Bindings ν} (same : doc.SameStructure doc')
    (extension : Extends doc .root b c) (accessors : AccessorTable) {o : Observer ν}
    (plain : ∀ token ∈ o.query.references, token.IsPlain) :
    let l := c.lookUp doc' accessors o
    l.subscriptions.map (fun s => l.bindings.watched s.source) =
      o.query.references.flatMap (b.watchedFor doc o.element) := by
  intro l
  have allotted := extension.allotted
  have founds := Founds.lookUp allotted doc' accessors plain
  have extended : Extends doc .root b l.bindings :=
    extension.trans ((extends_lookUp allotted doc' accessors o).of_structure same founds)
  have sources := (lookUp_faithful allotted.placed doc' accessors o).sources
  calc l.subscriptions.map (fun s => l.bindings.watched s.source)
    _ = (l.readings.map (·.source)).map l.bindings.watched := by
      rw [sources, List.map_map]
      rfl
    _ = o.query.references.flatMap fun token =>
          (l.bindings.sourcesOf doc' o.element token).map l.bindings.watched := by
      rw [readings_lookUp allotted.placed doc' accessors o, List.map_flatMap, List.map_flatMap]
      simp only [List.map_map]
      rfl
    _ = o.query.references.flatMap (b.watchedFor doc o.element) := by
      refine List.flatMap_congr fun token mem => ?_
      exact watched_sourcesOf same extended o.element (plain token mem) fun group =>
        (founds.keys _ _).mpr (.inr ⟨rfl, token, mem, group, rfl⟩)

end Bindings

end FormDependencies
