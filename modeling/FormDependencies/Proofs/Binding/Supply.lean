import FormDependencies.Proofs.Binding.Extension
import FormDependencies.Proofs.Document.Attachment

/-!
Where the values come from that are handed to the evaluator of a query. A simple reference is looked
up among attached elements each time. The values of a group are those of the members that it was
last computed with, which may have been detached or moved away since.
-/

namespace FormDependencies

def Document.boundOf? (doc : Document) (el : ElementId) (token : ReferenceToken) :
    Option ElementId :=
  match token.scope with
  | none => some .root
  | some selector => doc.closest? el selector

theorem Document.Rooted.isAttached_of_bounds {doc : Document} (h : doc.Rooted)
    {el scope : ElementId} (attached : doc.isAttached el) (bounds : doc.Bounds el scope) :
    doc.isAttached scope := by
  rcases bounds with rfl | ⟨selector, found⟩
  · exact h.isAttached_iff_root.mpr (.inl rfl)
  · unfold Document.closest? at found
    split at found
    · rcases List.mem_cons.mp (List.mem_of_find?_eq_some found) with rfl | above
      · exact attached
      · exact h.isAttached_of_mem_ancestors attached above
    · cases found

theorem Document.bounds_of_boundOf? {doc : Document} {el root : ElementId}
    {token : ReferenceToken} (bound : doc.boundOf? el token = some root) : doc.Bounds el root := by
  unfold Document.boundOf? at bound
  split at bound
  · exact .inl (Option.some.inj bound).symm
  · exact .inr ⟨_, bound⟩

def ReferenceValues.hand (handed : ReferenceValues) (token : ReferenceToken)
    (supply : List (ElementId × Value)) : ReferenceValues :=
  match token.kind with
  | .group => handed.insertGroup token.key ⟨supply.map (·.2), supply.length⟩
  | .simple | .this => handed.insert token.key ((supply.head?.map (·.2)).getD .undefined)

namespace Bindings
variable {ν : Type}

/-- The members that a group was last computed with, each with its value; of a group that was never
read the members that it has in the document. -/
def groupSupply (b : Bindings ν) (doc : Document) (name : String) (scope : ElementId) :
    List (ElementId × Value) :=
  match b.group? name scope with
  | some g => g.members.zip (b.snapshot g).values
  | none => (b.namedWithin doc scope name).map fun r => (r.element, b.read r.slot)

def supplyWithin (b : Bindings ν) (doc : Document) (accessors : AccessorTable) (el : ElementId)
    (token : ReferenceToken) (scope : Option ElementId) : List (ElementId × Value) :=
  match token.kind with
  | .simple =>
    ((b.resolve doc el token.name scope).map fun r => (r.element, b.read r.slot)).toList
  | .group => b.groupSupply doc token.name (scope.getD .root)
  | .this => [(el, accessors.getTyped doc el .auto)]

def supply (b : Bindings ν) (doc : Document) (accessors : AccessorTable) (el : ElementId)
    (token : ReferenceToken) : List (ElementId × Value) :=
  match token.scope with
  | none => b.supplyWithin doc accessors el token none
  | some selector =>
    match doc.closest? el selector with
    | some root => b.supplyWithin doc accessors el token (some root)
    | none => []

/-! ## What is handed on -/

theorem Extends.persists {doc : Document} {el : ElementId} {b c : Bindings ν}
    (h : Extends doc el b c) : Persists b c :=
  ⟨h.references, fun _ _ _ found => h.group?_eq_some found⟩

/-- A group that is kept holds a value for each of its members. -/
theorem Allotted.snapshot {b : Bindings ν} (h : b.Allotted) {g : Group} (mem : g ∈ b.groups) :
    (b.snapshot g).values.length = g.members.length := by
  obtain ⟨values, held, length⟩ := h.holds g mem
  unfold Bindings.snapshot
  rw [held]
  exact length

theorem mem_of_group? {b : Bindings ν} {name : String} {scope : ElementId} {g : Group}
    (found : b.group? name scope = some g) : g ∈ b.groups ∧ g.name = name ∧ g.scope = scope := by
  have key := List.find?_some found
  simp only [Bool.and_eq_true, beq_iff_eq] at key
  exact ⟨List.mem_of_find?_eq_some found, key⟩

/-- What is read of a group later on is what its members supply now. -/
theorem Extends.snapshot {doc : Document} {el : ElementId} {b c : Bindings ν}
    (h : Extends doc el b c) (allotted : b.Allotted) {name : String} {scope : ElementId}
    {g : Group} (found : c.group? name scope = some g) :
    c.snapshot g = ⟨(b.groupSupply doc name scope).map (·.2),
      (b.groupSupply doc name scope).length⟩ := by
  unfold groupSupply
  cases before : b.group? name scope with
  | some g' =>
    obtain rfl : g' = g := Option.some.inj ((h.group?_eq_some before).symm.trans found)
    have mem := (mem_of_group? before).1
    have length := allotted.snapshot mem
    have same : c.snapshot g' = b.snapshot g' := by
      unfold Bindings.snapshot
      rw [h.reads g'.slot (allotted.placed.groups g' mem)]
    dsimp only
    rw [same, List.map_snd_zip (Nat.le_of_eq length), List.length_zip, length, Nat.min_self]
    rfl
  | none =>
    obtain ⟨members, values⟩ := h.fresh_of_new before found
    obtain ⟨-, rfl, rfl⟩ := mem_of_group? found
    rw [groupValues_congr h.references (h.reads_references allotted.placed)] at values
    rw [recomputed_congr h.references] at members
    have count := congrArg (·.members.length) members
    simp only [recomputed, List.length_map] at count
    unfold Bindings.snapshot
    rw [values, ← count]
    simp [groupValues, memberValues]

section
variable {doc : Document} {el : ElementId} {b : Bindings ν} {l : Lookup ν}

theorem Extends.values_simple (h : Extends doc el b l.bindings) (allotted : b.Allotted)
    (id : ObserverId) (token : ReferenceToken) (scope : Option ElementId) :
    (l.simple doc el id token scope).values = l.values.insert token.key
      (((b.resolve doc el token.name scope).map fun r => b.read r.slot).getD .undefined) := by
  have watched := h.watchEpoch token.name id
  unfold Lookup.simple
  dsimp only
  rw [watched.persists.resolve doc el token.name scope]
  cases found : b.resolve doc el token.name scope with
  | none => rfl
  | some r =>
    have read := watched.reads r.slot (allotted.placed.references r (mem_of_resolve found))
    exact congrArg (l.values.insert token.key) read

theorem Extends.values_group (h : Extends doc el b l.bindings) (allotted : b.Allotted)
    (id : ObserverId) (token : ReferenceToken) {scope : ElementId}
    (bounds : doc.Bounds el scope) :
    (l.group doc id token scope).values = l.values.insertGroup token.key
      ⟨(b.groupSupply doc token.name scope).map (·.2),
        (b.groupSupply doc token.name scope).length⟩ := by
  have watched := h.watchEpoch token.name id
  have resolved := watched.trans (.resolveGroup watched.allotted token.name bounds)
  have found := (Persists.resolveGroup (l.watchEpoch token.name id).bindings doc token.name scope).2
  exact congrArg (l.values.insertGroup token.key) (resolved.snapshot allotted found)

/-- What is handed on for a token is what its elements supply. -/
theorem Extends.values_token (h : Extends doc el b l.bindings) (allotted : b.Allotted)
    (accessors : AccessorTable) (id : ObserverId) (token : ReferenceToken) :
    (l.token doc accessors el id token).values =
      l.values.hand token (b.supply doc accessors el token) := by
  have within : ∀ scope : Option ElementId, doc.Bounds el (scope.getD .root) →
      (l.within doc accessors el id token scope).values =
        l.values.hand token (b.supplyWithin doc accessors el token scope) := by
    intro scope bounds
    unfold Lookup.within supplyWithin ReferenceValues.hand
    cases token.kind with
    | simple =>
      refine (h.values_simple allotted id token scope).trans ?_
      cases b.resolve doc el token.name scope <;> rfl
    | group => exact h.values_group allotted id token bounds
    | this => rfl
  unfold Lookup.token supply
  cases token.scope with
  | none => exact within none (.inl rfl)
  | some selector =>
    dsimp only
    cases found : doc.closest? el selector with
    | none =>
      unfold Lookup.outOfScope ReferenceValues.hand
      dsimp only
      cases token.kind <;> rfl
    | some root => exact within (some root) (.inr ⟨selector, found⟩)

end

/-- What an evaluation hands to the evaluator is, token by token, what the elements supply. -/
theorem values_lookUp {b : Bindings ν} (h : b.Allotted) (doc : Document)
    (accessors : AccessorTable) (o : Observer ν) :
    (b.lookUp doc accessors o).values = o.query.references.foldl
      (fun handed token => handed.hand token (b.supply doc accessors o.element token)) .empty := by
  have each : ∀ (tokens : List ReferenceToken) (l : Lookup ν),
      Extends doc o.element b l.bindings →
      (tokens.foldl (fun l token => l.token doc accessors o.element o.id token) l).values =
        tokens.foldl (fun handed token =>
          handed.hand token (b.supply doc accessors o.element token)) l.values := by
    intro tokens
    induction tokens with
    | nil => exact fun _ _ => rfl
    | cons token rest ih =>
      intro l extends_
      rw [List.foldl_cons, List.foldl_cons, ih _ (extends_.token accessors o.id token),
        extends_.values_token h accessors o.id token]
  exact each o.query.references { bindings := b } (.refl h)

/-! ## Attached elements -/

theorem attached_of_mem_candidates {b : Bindings ν} {doc : Document} {name : String}
    {el : ElementId} (mem : el ∈ b.candidates doc name) : doc.isAttached el := by
  obtain ⟨r, chosen, rfl⟩ := List.mem_map.mp mem
  have picked := (List.mem_filter.mp chosen).2
  simp only [Bool.and_eq_true] at picked
  exact picked.2

/-- What resolves is an attached element, within the scope if there is one. -/
theorem attached_of_resolve {b : Bindings ν} {doc : Document} {origin : ElementId} {name : String}
    {scope : Option ElementId} {r : Reference} (found : b.resolve doc origin name scope = some r) :
    doc.isAttached r.element ∧
      ∀ root, scope = some root → r.element ∈ root :: doc.descendants root := by
  have first : ∀ {root el : ElementId}, firstWithin? doc (b.candidates doc name) root = some el →
      doc.isAttached el ∧ el ∈ root :: doc.descendants root := by
    intro root el same
    have chosen : (b.candidates doc name).contains el := List.find?_some same
    exact ⟨attached_of_mem_candidates (List.contains_iff_mem.mp chosen),
      List.mem_of_find?_eq_some same⟩
  obtain ⟨el, chosen, own⟩ := Option.bind_eq_some_iff.mp found
  obtain rfl := element_of_reference? own
  split at chosen
  · cases chosen
  · next root _ => exact ⟨(first chosen).1, fun _ same => Option.some.inj same ▸ (first chosen).2⟩
  · next only same =>
    obtain rfl := Option.some.inj chosen
    refine ⟨attached_of_mem_candidates (same ▸ List.mem_singleton.mpr rfl), ?_⟩
    intro _ none
    cases none
  · obtain ⟨above, -, same⟩ := List.exists_of_findSome?_eq_some chosen
    refine ⟨(first same).1, ?_⟩
    intro _ none
    cases none

section
variable {b : Bindings ν} {doc : Document} {accessors : AccessorTable} {el : ElementId}
  {token : ReferenceToken}

theorem supply_of_bound (b : Bindings ν) (accessors : AccessorTable) {root : ElementId}
    (bound : doc.boundOf? el token = some root) :
    ∃ scope : Option ElementId, scope.getD .root = root ∧
      (scope = none → root = .root) ∧
      b.supply doc accessors el token = b.supplyWithin doc accessors el token scope := by
  unfold Document.boundOf? at bound
  unfold supply
  cases given : token.scope with
  | none =>
    rw [given] at bound
    obtain rfl := Option.some.inj bound
    exact ⟨none, rfl, fun _ => rfl, rfl⟩
  | some selector =>
    rw [given] at bound
    dsimp only at bound ⊢
    rw [bound]
    exact ⟨some root, rfl, fun none => (nomatch none), rfl⟩

/-- A token whose scope is nowhere above the element is supplied by nobody. -/
theorem supply_eq_nil (b : Bindings ν) (accessors : AccessorTable)
    (unbounded : doc.boundOf? el token = none) : b.supply doc accessors el token = [] := by
  unfold Document.boundOf? at unbounded
  unfold supply
  cases given : token.scope with
  | none =>
    rw [given] at unbounded
    cases unbounded
  | some selector =>
    rw [given] at unbounded
    dsimp only at unbounded ⊢
    rw [unbounded]

/-- What a simple reference supplies comes from an attached element within the bound. -/
theorem attached_of_mem_supply (h : doc.Rooted) (simple : token.kind = .simple)
    {source : ElementId × Value} (mem : source ∈ b.supply doc accessors el token) :
    ∃ root, doc.boundOf? el token = some root ∧ doc.isAttached source.1 ∧
      doc.isWithin source.1 root := by
  cases bound : doc.boundOf? el token with
  | none =>
    rw [supply_eq_nil b accessors bound] at mem
    exact absurd mem List.not_mem_nil
  | some root =>
    obtain ⟨scope, given, unbounded, same⟩ := supply_of_bound b accessors bound
    rw [same] at mem
    unfold supplyWithin at mem
    rw [simple] at mem
    simp only [Option.mem_toList, Option.map_eq_some_iff] at mem
    obtain ⟨r, found, rfl⟩ := mem
    obtain ⟨attached, within⟩ := attached_of_resolve found
    refine ⟨root, rfl, attached, ?_⟩
    cases scope with
    | none =>
      rw [unbounded rfl]
      exact attached
    | some scope =>
      obtain rfl : scope = root := given
      exact h.isWithin_of_mem_descendants (h.contains_of_isAttached attached) (within scope rfl)

/-- What a group supplies comes from attached elements within the bound exactly as long as the
members are such that it was last computed with. -/
theorem attached_of_mem_supply_iff (h : b.Allotted) (rooted : doc.Rooted)
    (attached : doc.isAttached el) (group : token.kind = .group) {root : ElementId}
    (bound : doc.boundOf? el token = some root) :
    (∀ source ∈ b.supply doc accessors el token,
        doc.isAttached source.1 ∧ doc.isWithin source.1 root) ↔
      ∀ g, b.group? token.name root = some g →
        ∀ member ∈ g.members, doc.isAttached member ∧ doc.isWithin member root := by
  have same : b.supply doc accessors el token = b.groupSupply doc token.name root := by
    obtain ⟨scope, given, -, same⟩ := supply_of_bound b accessors bound
    rw [same]
    unfold supplyWithin
    rw [group, given]
  rw [same]
  unfold groupSupply
  cases found : b.group? token.name root with
  | some g =>
    have length := h.snapshot (mem_of_group? found).1
    have members : (g.members.zip (b.snapshot g).values).map (·.1) = g.members :=
      List.map_fst_zip (Nat.le_of_eq length.symm)
    constructor
    · intro sources g' same member mem
      obtain rfl := Option.some.inj same
      rw [← members] at mem
      obtain ⟨source, listed, rfl⟩ := List.mem_map.mp mem
      exact sources source listed
    · intro still source mem
      apply still g rfl
      rw [← members]
      exact List.mem_map_of_mem mem
  | none =>
    refine iff_of_true ?_ fun g none => nomatch none
    have there : doc.isAttached root := 
      rooted.isAttached_of_bounds attached (Document.bounds_of_boundOf? bound)
    intro source mem
    obtain ⟨r, named, rfl⟩ := List.mem_map.mp mem
    obtain ⟨owner, below, own⟩ := List.mem_filterMap.mp (List.mem_filter.mp named).1
    obtain rfl := element_of_reference? own
    have attached := rooted.isAttached_of_mem_descendants there below
    exact ⟨attached, rooted.isWithin_of_mem_descendants (rooted.contains_of_isAttached attached)
      below⟩

end

end Bindings

end FormDependencies
