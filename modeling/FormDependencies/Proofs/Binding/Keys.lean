import FormDependencies.Proofs.Binding.Supply
import FormDependencies.Proofs.Binding.Uses
import FormDependencies.Proofs.Query.Recognition

/-!
The keys of what is handed to an evaluator. References that are read from texts have the same key
only if they are the same reference, so an evaluation hands on one entry for each reference of the
query, with the value that this reference has by itself.
-/

namespace FormDependencies

/-! ## Values that are handed on -/

namespace ReferenceValues

def handedValue (token : ReferenceToken) (supply : List (ElementId × Value)) : Value :=
  match token.kind with
  | .group => .list (supply.map (·.2))
  | .simple | .this => (supply.head?.map (·.2)).getD .undefined

def handedGroup (supply : List (ElementId × Value)) : GroupSnapshot :=
  ⟨supply.map (·.2), supply.length⟩

theorem values_hand (handed : ReferenceValues) (token : ReferenceToken)
    (supply : List (ElementId × Value)) :
    (handed.hand token supply).values =
      handed.values.insert token.key (handedValue token supply) := by
  unfold hand handedValue
  cases token.kind <;> rfl

theorem groups_hand (handed : ReferenceValues) (token : ReferenceToken)
    (supply : List (ElementId × Value)) :
    (handed.hand token supply).groups =
      if token.kind == .group then handed.groups.insert token.key (handedGroup supply)
      else handed.groups := by
  unfold hand handedGroup
  cases token.kind <;> rfl

section
variable (tokens : List ReferenceToken) (supply : ReferenceToken → List (ElementId × Value))

theorem values_foldl_hand :
    (tokens.foldl (fun handed token => hand handed token (supply token)) empty).values =
      KeyedList.ofList (tokens.map fun token => (token.key, handedValue token (supply token))) := by
  unfold KeyedList.ofList
  rw [List.foldl_map]
  exact (List.foldl_hom values fun handed token =>
    (values_hand handed token (supply token)).symm).symm

theorem groups_foldl_hand :
    (tokens.foldl (fun handed token => hand handed token (supply token)) empty).groups =
      KeyedList.ofList ((tokens.filter (·.kind == .group)).map fun token =>
        (token.key, handedGroup (supply token))) := by
  unfold KeyedList.ofList
  rw [List.foldl_map, List.foldl_filter]
  exact (List.foldl_hom groups fun handed token =>
    (groups_hand handed token (supply token)).symm).symm

end

/-- Whether there is one entry for each of some tokens, with a value of its own and for a group also
with a snapshot of its own. -/
structure Keyed (handed : ReferenceValues) (tokens : List ReferenceToken)
    (value : ReferenceToken → Value) (snapshot : ReferenceToken → GroupSnapshot) : Prop where
  values : handed.values.Perm (tokens.map fun token => (token.key, value token))
  groups : handed.groups.Perm
    ((tokens.filter (·.kind == .group)).map fun token => (token.key, snapshot token))
  distinct : (handed.values.map (·.1)).Nodup
  get : ∀ token ∈ tokens, handed.get token.key = value token
  group : ∀ token ∈ tokens, token.kind = .group →
    ∃ name, token.key = "@" ++ name ∧ handed.group? name = some (snapshot token)

theorem key_of_group {token : ReferenceToken} (group : token.kind = .group) :
    ∃ name, token.key = "@" ++ name := by
  unfold ReferenceToken.key
  rw [group]
  cases token.scope with
  | none => exact ⟨_, rfl⟩
  | some scope =>
    refine ⟨token.name ++ "(" ++ scope.source ++ ")", ?_⟩
    simp only [String.append_assoc]

/-- Distinct keys keep apart what is handed on for each token. -/
theorem keyed_of_nodup {handed : ReferenceValues} {tokens : List ReferenceToken}
    {value : ReferenceToken → Value} {snapshot : ReferenceToken → GroupSnapshot}
    (distinct : (tokens.map (·.key)).Nodup)
    (values : handed.values =
      KeyedList.ofList (tokens.map fun token => (token.key, value token)))
    (groups : handed.groups = KeyedList.ofList
      ((tokens.filter (·.kind == .group)).map fun token => (token.key, snapshot token))) :
    handed.Keyed tokens value snapshot := by
  have keys : ((tokens.map fun token => (token.key, value token)).map (·.1)).Nodup := by
    simpa [Function.comp_def] using distinct
  have groupKeys : (((tokens.filter (·.kind == .group)).map fun token =>
      (token.key, snapshot token)).map (·.1)).Nodup := by
    have kept := (List.filter_sublist (p := (·.kind == .group)) (l := tokens)).map (·.key)
    simpa [Function.comp_def] using distinct.sublist kept
  have all := KeyedList.perm_ofList keys
  have allGroups := KeyedList.perm_ofList groupKeys
  rw [← values] at all
  rw [← groups] at allGroups
  have separate := (all.map (·.1)).nodup_iff.mpr keys
  have separateGroups := (allGroups.map (·.1)).nodup_iff.mpr groupKeys
  refine ⟨all, allGroups, separate, fun token mem => ?_, fun token mem group => ?_⟩
  · have entry := all.symm.subset (List.mem_map_of_mem mem)
    rw [get, KeyedList.get?_of_mem separate entry]
    rfl
  · obtain ⟨name, key⟩ := key_of_group group
    have listed : token ∈ tokens.filter (·.kind == .group) :=
      List.mem_filter.mpr ⟨mem, beq_iff_eq.mpr group⟩
    have entry := allGroups.symm.subset (List.mem_map_of_mem listed)
    refine ⟨name, key, ?_⟩
    rw [group?, ← key]
    exact KeyedList.get?_of_mem separateGroups entry

end ReferenceValues

namespace Bindings
variable {ν : Type}

def resolvedValue (b : Bindings ν) (doc : Document) (el : ElementId) (name : String)
    (scope : Option ElementId) : Value :=
  match b.resolve doc el name scope with
  | some r => b.read r.slot
  | none => .undefined

def tokenSnapshot (b : Bindings ν) (doc : Document) (el : ElementId) (token : ReferenceToken) :
    GroupSnapshot :=
  match doc.boundOf? el token with
  | some root =>
    let (c, g) := b.resolveGroup doc token.name root
    c.snapshot g
  | none => {}

def tokenValue (b : Bindings ν) (doc : Document) (accessors : AccessorTable) (el : ElementId)
    (token : ReferenceToken) : Value :=
  match token.kind with
  | .simple =>
    match token.scope with
    | none => b.resolvedValue doc el token.name none
    | some selector =>
      match doc.closest? el selector with
      | some root => b.resolvedValue doc el token.name (some root)
      | none => .undefined
  | .group => .list (b.tokenSnapshot doc el token).values
  | .this => accessors.getTyped doc el .auto

section
variable {b : Bindings ν} {doc : Document} {accessors : AccessorTable} {el : ElementId}
  {token : ReferenceToken}

theorem handedValue_simple (b : Bindings ν) (doc : Document) (accessors : AccessorTable)
    (el : ElementId) (simple : token.kind = .simple) (scope : Option ElementId) :
    ReferenceValues.handedValue token (b.supplyWithin doc accessors el token scope) =
      b.resolvedValue doc el token.name scope := by
  unfold ReferenceValues.handedValue supplyWithin resolvedValue
  rw [simple]
  cases b.resolve doc el token.name scope <;> rfl

theorem handedGroup_supply (h : b.Allotted) (group : token.kind = .group) :
    ReferenceValues.handedGroup (b.supply doc accessors el token) =
      b.tokenSnapshot doc el token := by
  unfold tokenSnapshot
  cases bound : doc.boundOf? el token with
  | none =>
    rw [supply_eq_nil b accessors bound]
    rfl
  | some root =>
    obtain ⟨scope, given, -, same⟩ := supply_of_bound b accessors bound
    have resolved := Extends.resolveGroup h token.name (Document.bounds_of_boundOf? bound)
    have found := (Persists.resolveGroup b doc token.name root).2
    rw [same]
    unfold ReferenceValues.handedGroup supplyWithin
    rw [group, given]
    exact (resolved.snapshot h found).symm

theorem handedValue_supply (h : b.Allotted) (own : token.kind = .this → token.scope = none) :
    ReferenceValues.handedValue token (b.supply doc accessors el token) =
      b.tokenValue doc accessors el token := by
  unfold tokenValue
  cases kind : token.kind with
  | group =>
    have group : ReferenceValues.handedGroup (b.supply doc accessors el token) = _ :=
      handedGroup_supply h kind
    rw [← group]
    unfold ReferenceValues.handedValue ReferenceValues.handedGroup
    rw [kind]
  | simple =>
    unfold supply
    cases token.scope with
    | none => exact handedValue_simple b doc accessors el kind none
    | some selector =>
      dsimp only
      cases doc.closest? el selector with
      | none =>
        unfold ReferenceValues.handedValue
        rw [kind]
        rfl
      | some root => exact handedValue_simple b doc accessors el kind (some root)
  | this =>
    unfold supply supplyWithin ReferenceValues.handedValue
    rw [own kind, kind]
    rfl

end

/-- Of the evaluator only its answer to what is handed on matters. -/
theorem evaluateObserver_congr (b : Bindings ν) (doc : Document) (env : Environment)
    (o : Observer ν) {evaluator : Evaluator}
    (agrees : evaluator o.query.text (b.rebind doc env.accessors o).2 =
      env.evaluator o.query.text (b.rebind doc env.accessors o).2) :
    b.evaluateObserver doc { env with evaluator } o = b.evaluateObserver doc env o := by
  unfold evaluateObserver
  dsimp only
  rw [agrees]
  rfl

theorem Allotted.keyed {b : Bindings ν} (h : b.Allotted) (doc : Document)
    (accessors : AccessorTable) (o : Observer ν) {text : String}
    (read : Query.parse text = .ok o.query) :
    (b.rebind doc accessors o).2.Keyed o.query.references
      (b.tokenValue doc accessors o.element) (b.tokenSnapshot doc o.element) := by
  have handed : (b.rebind doc accessors o).2 = _ := values_lookUp h doc accessors o
  rw [handed]
  refine ReferenceValues.keyed_of_nodup (Query.nodup_keys read) ?_ ?_
  · rw [ReferenceValues.values_foldl_hand]
    refine congrArg KeyedList.ofList (List.map_congr_left fun token mem => ?_)
    rw [handedValue_supply h (Query.scope_of_this read mem)]
  · rw [ReferenceValues.groups_foldl_hand]
    refine congrArg KeyedList.ofList (List.map_congr_left fun token mem => ?_)
    rw [handedGroup_supply h (beq_iff_eq.mp (List.mem_filter.mp mem).2)]

/-- References that are read from any texts have one key exactly if they are the same reference, so
a query loses nothing but repetitions. Whatever uses the bindings have had, an evaluation depends on
the evaluator by its answer to the values that are handed on only. These have one entry for each
reference of the query, under its key, with the value that it has by itself: what a simple reference
resolves to, the values of a group, with its snapshot, or the value of the element. -/
theorem handed_keyed :
    (∀ text text' q q', Query.parse text = .ok q → Query.parse text' = .ok q' →
      ∀ token ∈ q.references, ∀ token' ∈ q'.references,
        (token.key = token'.key ↔
          token.kind = token'.kind ∧ token.name = token'.name ∧ token.scope = token'.scope)) ∧
    (∀ text q, Query.parse text = .ok q → ∃ tokens, QueryGrammar.Divides text.toList tokens ∧
      q.references = tokens.eraseDups ∧ (q.references.map (·.key)).Nodup) ∧
    ∀ (uses : List (Use ν)) (doc : Document) (env : Environment) (o : Observer ν) (text : String),
      Query.parse text = .ok o.query →
      let b := run uses
      let handed := (b.rebind doc env.accessors o).2
      (∀ evaluator : Evaluator,
        evaluator o.query.text handed = env.evaluator o.query.text handed →
        b.evaluateObserver doc { env with evaluator } o = b.evaluateObserver doc env o) ∧
      handed.Keyed o.query.references (b.tokenValue doc env.accessors o.element)
        (b.tokenSnapshot doc o.element) := by
  refine ⟨fun _ _ _ _ read read' _ mem _ mem' => Query.key_eq_iff read read' mem mem',
    fun text q read => ?_, fun uses doc env o text read => ⟨fun evaluator => ?_, ?_⟩⟩
  · obtain ⟨-, tokens, divides, kept⟩ := Query.parse_eq_ok.mp read
    exact ⟨tokens, divides, kept, Query.nodup_keys read⟩
  · exact (run uses).evaluateObserver_congr doc env o
  · exact (allotted_run uses).keyed doc env.accessors o read

def amountsQuery : Query where
  text := "@amount + @@amount + @this + @amount(output) + @amount"
  references := [⟨.simple, "amount", none⟩, ⟨.group, "amount", none⟩, ⟨.this, "this", none⟩,
    ⟨.simple, "amount", some ⟨"output", [[{ tag := some "output" }]]⟩⟩]

def amountsDocument : Document :=
  Document.new.editAll
    [.create "input", .append .root ⟨1⟩, .create "input", .append .root ⟨2⟩,
      .create "output", .append .root ⟨3⟩,
      .setAttribute ⟨1⟩ Config.standard.referenceAttribute "amount", .setAttribute ⟨1⟩ "value" "1",
      .setAttribute ⟨2⟩ Config.standard.referenceAttribute "amount", .setAttribute ⟨2⟩ "value" "2"]

def amountsUses : List (Use Unit) :=
  [.references amountsDocument (.register .builtin .standard ⟨1⟩),
    .references amountsDocument (.register .builtin .standard ⟨2⟩)]

def totalObserver : Observer Unit where
  id := ⟨0⟩
  element := ⟨3⟩
  query := amountsQuery
  actionName := "show"
  action := .visibility
  negated := false
  skipsInitial := false
  parameters := []
  target := none

def totalHanded : ReferenceValues :=
  ((run amountsUses).rebind amountsDocument .builtin totalObserver).2

/-- The total gets the first amount, both of them in a list, its own value, and nothing where no
amount is in the scope. -/
theorem handed_keyed_amounts :
    Query.parse amountsQuery.text = .ok amountsQuery ∧
      totalHanded.Keyed amountsQuery.references
        ((run amountsUses).tokenValue amountsDocument .builtin ⟨3⟩)
        ((run amountsUses).tokenSnapshot amountsDocument ⟨3⟩) ∧
      totalHanded.values.length = amountsQuery.references.length ∧
      (totalHanded.get "amount" == .text "1") = true ∧
      (totalHanded.get "@amount" == .list [.text "1", .text "2"]) = true ∧
      (totalHanded.get "amount(output)" == .undefined) = true := by
  have read : Query.parse amountsQuery.text = .ok totalObserver.query := rfl
  obtain ⟨-, -, all⟩ := handed_keyed (ν := Unit)
  obtain ⟨-, keyed⟩ := all amountsUses amountsDocument
    { accessors := .builtin, config := .standard, evaluator := .reference "amount" } totalObserver
    _ read
  refine ⟨read, keyed, keyed.values.length_eq.trans (List.length_map _), ?_, ?_, ?_⟩
  · decide +kernel
  · decide +kernel
  · decide +kernel

end Bindings

end FormDependencies
