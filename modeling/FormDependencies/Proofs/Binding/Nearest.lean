import FormDependencies.Proofs.Binding.Coherence
import FormDependencies.Proofs.Binding.Uses

/-!
The reference that a name means at an element: the first one within the scope, or without a scope
the first one within the lowest element on the path upwards that has any. The short ways of looking
it up lead to the same as a search of the tree, and neither the order in which references are
enumerated nor the one in which they were registered decides anything.
-/

namespace FormDependencies

namespace Bindings
variable {ν : Type}

/-! ## The search -/

/-- The element that is taken among those that stand for a name. -/
def pick (doc : Document) (found : List ElementId) (origin : ElementId)
    (scope : Option ElementId) : Option ElementId :=
  match found, scope with
  | [], _ => none
  | _, some root => firstWithin? doc found root
  | [only], none => some only
  | _, none => (origin :: doc.ancestors origin).findSome? (firstWithin? doc found)

/-- The same without any short way. -/
def search (doc : Document) (found : List ElementId) (origin : ElementId) :
    Option ElementId → Option ElementId
  | some root => firstWithin? doc found root
  | none => (origin :: doc.ancestors origin).findSome? (firstWithin? doc found)

theorem resolve_eq_pick (b : Bindings ν) (doc : Document) (origin : ElementId) (name : String)
    (scope : Option ElementId) : b.resolve doc origin name scope =
      (pick doc (b.candidates doc name) origin scope).bind b.reference? :=
  rfl

section
variable {doc : Document} {found found' : List ElementId} {origin top only : ElementId}

theorem firstWithin?_congr (same : ∀ el, el ∈ found ↔ el ∈ found') (top : ElementId) :
    firstWithin? doc found top = firstWithin? doc found' top := by
  have contains : found.contains = found'.contains := by
    funext el
    rw [Bool.eq_iff_iff, List.contains_iff_mem, List.contains_iff_mem]
    exact same el
  unfold firstWithin?
  rw [contains]

theorem search_congr (same : ∀ el, el ∈ found ↔ el ∈ found') (origin : ElementId)
    (scope : Option ElementId) :
    search doc found origin scope = search doc found' origin scope := by
  have first : firstWithin? doc found = firstWithin? doc found' :=
    funext fun top => firstWithin?_congr same top
  unfold search
  rw [first]

theorem firstWithin?_nil (top : ElementId) : firstWithin? doc [] top = none := by
  simp [firstWithin?]

theorem firstWithin?_singleton (inside : only ∈ top :: doc.descendants top) :
    firstWithin? doc [only] top = some only := by
  cases first : firstWithin? doc [only] top with
  | none =>
    have absent := List.find?_eq_none.mp first only inside
    simp at absent
  | some el =>
    have same := List.find?_some first
    rw [List.contains_iff_mem, List.mem_singleton] at same
    rw [same]

/-- A single attached element is found on the way upwards from any attached element, at the root at
the latest. -/
theorem search_singleton (rooted : doc.Rooted) (attached : doc.isAttached origin)
    (there : doc.isAttached only) : search doc [only] origin none = some only := by
  have top : .root ∈ origin :: doc.ancestors origin := by
    rcases (rooted.isAttached_iff_root).mp attached with rfl | above
    · exact List.mem_cons_self
    · exact List.mem_cons_of_mem _ above
  have below : only ∈ .root :: doc.descendants .root := by
    apply rooted.mem_path_iff.mpr
    rcases (rooted.isAttached_iff_root).mp there with rfl | above
    · exact List.mem_cons_self
    · exact List.mem_cons_of_mem _ above
  cases result : search doc [only] origin none with
  | none =>
    have missed := List.findSome?_eq_none_iff.mp result .root top
    rw [firstWithin?_singleton below] at missed
    cases missed
  | some el =>
    obtain ⟨nearer, -, first⟩ := List.exists_of_findSome?_eq_some result
    have same := List.find?_some first
    rw [List.contains_iff_mem, List.mem_singleton] at same
    rw [same]

/-- The short ways lead to the same. -/
theorem pick_eq_search (rooted : doc.Rooted) (attached : doc.isAttached origin)
    (there : ∀ el ∈ found, doc.isAttached el) (scope : Option ElementId) :
    pick doc found origin scope = search doc found origin scope := by
  match found, scope with
  | [], some root => exact (firstWithin?_nil root).symm
  | [], none =>
    refine (List.findSome?_eq_none_iff.mpr fun top _ => ?_).symm
    exact firstWithin?_nil top
  | _ :: _, some root => rfl
  | [only], none =>
    exact (search_singleton rooted attached (there only List.mem_cons_self)).symm
  | _ :: _ :: _, none => rfl

/-- The order in which elements are enumerated does not matter. -/
theorem pick_perm (perm : found.Perm found') (origin : ElementId) (scope : Option ElementId) :
    pick doc found origin scope = pick doc found' origin scope := by
  have same : ∀ scope, search doc found origin scope = search doc found' origin scope :=
    search_congr (fun el => perm.mem_iff) origin
  match found, found', scope with
  | [], found', scope =>
    rw [List.nil_perm.mp perm]
  | [only], found', none =>
    rw [List.singleton_perm.mp perm]
  | _ :: _, _ :: _, some root => exact same (some root)
  | _ :: _ :: _, [_], none => cases perm.length_eq
  | _ :: _ :: _, _ :: _ :: _, none => exact same none
  | _ :: _, [], _ => cases perm.length_eq

end

/-! ## What the search finds -/

section
variable {b c : Bindings ν} {doc : Document} {origin top : ElementId} {name : String}

theorem mem_candidates_iff (placed : b.Placed) {el : ElementId} :
    el ∈ b.candidates doc name ↔
      (b.reference? el).any (·.name == name) ∧ doc.isAttached el := by
  rw [mem_filter_named_iff placed]
  unfold candidates
  simp only [List.mem_map, List.mem_filter, Bool.and_eq_true, beq_iff_eq]
  constructor
  · rintro ⟨r, ⟨mem, named, attached⟩, rfl⟩
    exact ⟨⟨r, mem, rfl, named⟩, attached⟩
  · rintro ⟨⟨r, mem, rfl, named⟩, attached⟩
    exact ⟨r, ⟨mem, named, attached⟩, rfl⟩

/-- Within an attached element the first one that stands for a name is that of the first reference
of the name. -/
theorem firstWithin?_candidates (placed : b.Placed) (rooted : doc.Rooted)
    (attached : doc.isAttached top) :
    firstWithin? doc (b.candidates doc name) top =
      (b.namedWithin doc top name).head?.map (·.element) := by
  have chosen : ∀ el ∈ top :: doc.descendants top,
      (b.candidates doc name).contains el = (b.reference? el).any (·.name == name) := by
    intro el inside
    have there := rooted.isAttached_of_mem_descendants attached inside
    rw [Bool.eq_iff_iff, List.contains_iff_mem, mem_candidates_iff placed]
    exact and_iff_left there
  unfold firstWithin?
  rw [← List.head?_filter, List.filter_congr chosen, ← map_element_namedWithin, List.head?_map]

theorem bind_reference? (placed : b.Placed) {found : Option Reference}
    (listed : ∀ r ∈ found, r ∈ b.references) :
    (found.map (·.element)).bind b.reference? = found := by
  cases found with
  | none => rfl
  | some r => exact reference?_of_mem placed (listed r rfl)

/-- The first reference of a name within the scope. -/
theorem search_within (placed : b.Placed) (rooted : doc.Rooted) (attached : doc.isAttached top)
    (origin : ElementId) :
    (search doc (b.candidates doc name) origin (some top)).bind b.reference? =
      (b.namedWithin doc top name).head? := by
  dsimp only [search]
  rw [firstWithin?_candidates placed rooted attached]
  apply bind_reference? placed
  intro r first
  exact mem_references_of_mem_namedWithin (List.mem_of_mem_head? first)

/-- The first reference of a name within the nearest element that has any. -/
theorem search_upwards (placed : b.Placed) (rooted : doc.Rooted)
    (attached : doc.isAttached origin) :
    (search doc (b.candidates doc name) origin none).bind b.reference? =
      (origin :: doc.ancestors origin).findSome? fun top =>
        (b.namedWithin doc top name).head? := by
  have path : ∀ top ∈ origin :: doc.ancestors origin, doc.isAttached top := by
    intro top mem
    rcases List.mem_cons.mp mem with rfl | above
    · exact attached
    · exact rooted.isAttached_of_mem_ancestors attached above
  have each : (origin :: doc.ancestors origin).findSome?
        (firstWithin? doc (b.candidates doc name)) =
      (origin :: doc.ancestors origin).findSome? fun top =>
        (b.namedWithin doc top name).head?.map (·.element) := by
    generalize origin :: doc.ancestors origin = tops at path
    induction tops with
    | nil => rfl
    | cons top rest ih =>
      obtain ⟨first, others⟩ := List.forall_mem_cons.mp path
      rw [List.findSome?_cons, List.findSome?_cons, ih others,
        firstWithin?_candidates placed rooted first]
  dsimp only [search]
  rw [each, ← Function.comp_def, ← List.map_findSome?]
  apply bind_reference? placed
  intro r found
  obtain ⟨top, -, first⟩ := List.exists_of_findSome?_eq_some found
  exact mem_references_of_mem_namedWithin (List.mem_of_mem_head? first)

theorem mem_of_pick {found : List ElementId} {scope : Option ElementId} {el : ElementId}
    (picked : pick doc found origin scope = some el) : el ∈ found := by
  have first : ∀ {top}, firstWithin? doc found top = some el → el ∈ found := by
    intro top first
    exact List.contains_iff_mem.mp (List.find?_some first)
  match found, scope with
  | [], _ => cases picked
  | _ :: _, some top => exact first picked
  | [only], none =>
    obtain rfl := Option.some.inj picked
    exact List.mem_cons_self
  | _ :: _ :: _, none =>
    obtain ⟨top, -, same⟩ := List.exists_of_findSome?_eq_some picked
    exact first same

/-- What is found is attached and carries the name. -/
theorem named_of_resolve (placed : b.Placed) {scope : Option ElementId} {r : Reference}
    (found : b.resolve doc origin name scope = some r) :
    doc.isAttached r.element ∧ r.name = name := by
  obtain ⟨el, picked, own⟩ := Option.bind_eq_some_iff.mp found
  obtain ⟨named, attached⟩ := (mem_candidates_iff placed).mp (mem_of_pick picked)
  rw [own] at named
  obtain rfl := element_of_reference? own
  exact ⟨attached, beq_iff_eq.mp named⟩

end

/-! ## The order of registration -/

def held? (b : Bindings ν) (el : ElementId) : Option (Naming × Value) :=
  (b.reference? el).map fun r => (r.naming, b.read r.slot)

def answer (b : Bindings ν) (doc : Document) (origin : ElementId) (name : String)
    (scope : Option ElementId) : Option (Naming × Value) :=
  (b.resolve doc origin name scope).map fun r => (r.naming, b.read r.slot)

/-- What a reference holds that has been given a value. A value that agrees with what it held is not
stored. -/
def settled (naming : Naming) (value : Value) : Option (Naming × Value) → Value
  | some (before, held) => if before = naming ∧ held == value then held else value
  | none => value

theorem held?_addReference (b : Bindings ν) (el : ElementId) (name : String) (type : RefType)
    (value : Value) :
    (b.addReference el name type value).held? el = some (⟨el, name, type⟩, value) := by
  unfold held?
  rw [reference?_addReference, if_pos rfl, Option.map_some, read_addReference, if_pos rfl]
  rfl

theorem held?_placeDeclaration {b : Bindings ν} (h : b.Allotted) (el : ElementId) (name : String)
    (type : RefType) (value : Value) (other : ElementId) :
    (b.placeDeclaration el name type value).held? other =
      if el = other then
        some (⟨el, name, type⟩, settled ⟨el, name, type⟩ value (b.held? other))
      else b.held? other := by
  by_cases own : el = other
  · subst own
    rw [if_pos rfl]
    cases found : b.reference? el with
    | none =>
      have before : b.held? el = none := by simp [held?, found]
      unfold placeDeclaration
      rw [found, before]
      exact held?_addReference ..
    | some r =>
      have here := element_of_reference? found
      have before : b.held? el = some (r.naming, b.read r.slot) := by simp [held?, found]
      unfold placeDeclaration
      rw [found, before]
      dsimp only
      split
      · next kept =>
        have same : (b.write r.slot value).1.reference? el = some r := by
          unfold reference?
          rw [references_write]
          exact found
        have naming : r.naming = ⟨el, name, type⟩ := by simp [Reference.naming, here, kept]
        have there : r.slot.index < b.slots.size := h.placed.references r (mem_of_reference? found)
        rw [held?, same, Option.map_some, naming, read_write]
        cases agrees : b.read r.slot == value with
        | true => simp [settled, agrees]
        | false => simp [settled, agrees, there]
      · next other =>
        have differs : r.naming ≠ ⟨el, name, type⟩ := by
          intro same
          exact other ⟨congrArg Naming.name same, congrArg Naming.type same⟩
        rw [settled, if_neg fun both => differs both.1]
        exact held?_addReference ..
  · rw [if_neg own]
    cases found : b.reference? other with
    | none =>
      have absent : (b.placeDeclaration el name type value).naming? other = none := by
        rw [naming?_placeDeclaration, if_neg own, naming?, found]
        rfl
      rw [held?, held?, found, Option.map_eq_none_iff.mp absent, Option.map_none, Option.map_none]
    | some r =>
      obtain ⟨stays, read⟩ := placeDeclaration_other h own found name type value
      rw [held?, held?, found, stays, Option.map_some, Option.map_some, read]

end Bindings

structure Registration where
  doc : Document
  accessors : AccessorTable
  config : Config
  element : ElementId

namespace Registration
variable {ν : Type}

def asUse (x : Registration) : Use ν :=
  .references x.doc (.register x.accessors x.config x.element)

def naming (x : Registration) : Naming :=
  ⟨x.element, x.doc.referenceName x.element x.config, x.doc.referenceType x.element x.config⟩

def value (x : Registration) : Value := x.accessors.getTyped x.doc x.element x.naming.type

def after (held : ElementId → Option (Naming × Value)) (x : Registration) (el : ElementId) :
    Option (Naming × Value) :=
  if x.element = el ∧ ReferenceName.isValid (x.doc.referenceName x.element x.config) then
    some (x.naming, Bindings.settled x.naming x.value (held el))
  else held el

theorem held?_asUse {b : Bindings ν} (h : b.Allotted) (x : Registration) :
    (x.asUse.apply b).held? = after b.held? x := by
  funext el
  have noted : ∀ {c : Bindings ν}, Bindings.Notes b c → c.held? el = b.held? el := by
    intro c notes
    have same : Bindings.SameSources b c := .notes notes
    simp only [Bindings.held?, Bindings.reference?, same.references, same.reads]
  unfold after
  dsimp only [asUse, Use.apply, ReferenceOperation.apply]
  rcases b.register_shape x.doc x.accessors x.config x.element with
    ⟨invalid, notes⟩ | ⟨valid, c, notes, same⟩
  · rw [if_neg fun both => invalid both.2]
    exact noted notes
  · rw [same, Bindings.held?_placeDeclaration (h.same (.notes notes)), noted notes]
    by_cases own : x.element = el
    · rw [if_pos own, if_pos ⟨own, valid⟩]
      rfl
    · rw [if_neg own, if_neg fun both => own both.1]

theorem held?_runFrom {b : Bindings ν} (h : b.Allotted) (xs : List Registration) :
    (b.runFrom (xs.map asUse)).held? = xs.foldl after b.held? := by
  induction xs generalizing b with
  | nil => rfl
  | cons x rest ih =>
    have registered : (x.asUse.apply b).Allotted := Bindings.kept_allotted.apply h x.asUse
    rw [List.map_cons, Bindings.runFrom_cons, ih registered, held?_asUse h, List.foldl_cons]

/-- Registrations of different elements do not touch each other. -/
theorem after_comm {x y : Registration} (different : x.element ≠ y.element)
    (held : ElementId → Option (Naming × Value)) :
    after (after held x) y = after (after held y) x := by
  funext el
  by_cases first : x.element = el
  · have second : y.element ≠ el := fun same => different (first.trans same.symm)
    simp [after, second]
  · simp [after, first]

end Registration

namespace Bindings
variable {ν : Type}

/-- What a name means depends on nothing but what the elements have. -/
theorem answer_congr {b c : Bindings ν} (placed : b.Placed) (placed' : c.Placed) {doc : Document}
    (rooted : doc.Rooted) {origin : ElementId} (attached : doc.isAttached origin)
    (same : b.held? = c.held?) (name : String) (scope : Option ElementId) :
    b.answer doc origin name scope = c.answer doc origin name scope := by
  have named : ∀ (d : Bindings ν) el, (d.reference? el).any (·.name == name) =
      (d.held? el).any (·.1.name == name) := by
    intro d el
    cases found : d.reference? el <;> simp [held?, found, Reference.naming]
  have members : ∀ el, el ∈ b.candidates doc name ↔ el ∈ c.candidates doc name := by
    intro el
    rw [mem_candidates_iff placed, mem_candidates_iff placed', named, named, same]
  have found : ∀ d : Bindings ν, d.answer doc origin name scope =
      (search doc (d.candidates doc name) origin scope).bind d.held? := by
    intro d
    have there : ∀ el ∈ d.candidates doc name, doc.isAttached el :=
      fun el mem => attached_of_mem_candidates mem
    unfold answer
    rw [resolve_eq_pick, pick_eq_search rooted attached there, Option.map_bind]
    rfl
  rw [found, found, search_congr members, same]

/-- In whatever order some elements are registered, names mean the same afterwards. -/
theorem answer_registered {b : Bindings ν} (h : b.Allotted) {doc : Document} (rooted : doc.Rooted)
    {origin : ElementId} (attached : doc.isAttached origin) {xs ys : List Registration}
    (perm : xs.Perm ys) (once : ∀ x ∈ xs, ∀ y ∈ xs, x.element = y.element → x = y) (name : String)
    (scope : Option ElementId) :
    (b.runFrom (xs.map Registration.asUse)).answer doc origin name scope =
      (b.runFrom (ys.map Registration.asUse)).answer doc origin name scope := by
  have placed : ∀ zs : List Registration, (b.runFrom (zs.map Registration.asUse)).Placed :=
    fun zs => (kept_allotted.runFrom h _).placed
  apply answer_congr (placed xs) (placed ys) rooted attached
  rw [Registration.held?_runFrom h, Registration.held?_runFrom h]
  apply perm.foldl_eq'
  intro x mem y mem' held
  by_cases same : x.element = y.element
  · rw [once x mem y mem' same]
  · exact Registration.after_comm same held

/-- At an attached element a name means the first reference within an attached scope, or without a
scope the first one within the nearest element upwards that has any, and nothing if there is none.
The short ways of the look-up agree with the search, what is found is attached and carries the name,
and neither the order of enumeration nor the order of registration matters. -/
theorem resolve_nearest (uses : List (Use ν)) (edits : List Edit) {origin : ElementId}
    (attached : (Document.new.editAll edits).isAttached origin) (name : String) :
    let b := run uses
    let doc := Document.new.editAll edits
    (∀ root, doc.isAttached root →
        b.resolve doc origin name (some root) = (b.namedWithin doc root name).head?) ∧
      b.resolve doc origin name none = ((origin :: doc.ancestors origin).findSome? fun top =>
        (b.namedWithin doc top name).head?) ∧
      (∀ scope, pick doc (b.candidates doc name) origin scope =
        search doc (b.candidates doc name) origin scope) ∧
      (∀ scope r, b.resolve doc origin name scope = some r →
        doc.isAttached r.element ∧ r.name = name) ∧
      (∀ found scope, found.Perm (b.candidates doc name) →
        (pick doc found origin scope).bind b.reference? = b.resolve doc origin name scope) ∧
      ∀ xs ys : List Registration, xs.Perm ys →
        (∀ x ∈ xs, ∀ y ∈ xs, x.element = y.element → x = y) →
        ∀ scope, (b.runFrom (xs.map Registration.asUse)).answer doc origin name scope =
          (b.runFrom (ys.map Registration.asUse)).answer doc origin name scope := by
  intro b doc
  have allotted : b.Allotted := allotted_run uses
  have rooted : doc.Rooted := Document.Rooted.new.editAll edits
  have searched : ∀ scope, pick doc (b.candidates doc name) origin scope =
      search doc (b.candidates doc name) origin scope :=
    pick_eq_search rooted attached fun el mem => attached_of_mem_candidates mem
  refine ⟨fun root inside => ?_, ?_, searched, fun scope r => named_of_resolve allotted.placed,
    fun found scope perm => ?_, fun xs ys perm once => ?_⟩
  · rw [resolve_eq_pick, searched]
    exact search_within allotted.placed rooted inside origin
  · rw [resolve_eq_pick, searched]
    exact search_upwards allotted.placed rooted attached
  · rw [pick_perm perm]
    rfl
  · exact answer_registered allotted rooted attached perm once name

def rowEdits : List Edit :=
  [.create "section", .append .root ⟨1⟩, .create "input", .append ⟨1⟩ ⟨2⟩,
    .setAttribute ⟨2⟩ Config.standard.referenceAttribute "amount",
    .create "section", .append .root ⟨3⟩, .create "input", .append ⟨3⟩ ⟨4⟩,
    .setAttribute ⟨4⟩ Config.standard.referenceAttribute "amount",
    .create "output", .append ⟨3⟩ ⟨5⟩]

def amountOf (el : ElementId) : Registration :=
  ⟨Document.new.editAll rowEdits, .builtin, .standard, el⟩

/-- The total finds the amount of its own row, in whatever order the amounts are registered. -/
theorem resolve_nearest_amountOfRow :
    let doc := Document.new.editAll rowEdits
    let b : Bindings Unit := run [(amountOf ⟨2⟩).asUse, (amountOf ⟨4⟩).asUse]
    let c : Bindings Unit := run [(amountOf ⟨4⟩).asUse, (amountOf ⟨2⟩).asUse]
    doc.isAttached ⟨5⟩ ∧
      (b.resolve doc ⟨5⟩ "amount" none).map (·.element) = some ⟨4⟩ ∧
      (b.resolve doc ⟨5⟩ "amount" (some .root)).map (·.element) = some ⟨2⟩ ∧
      (b.resolve doc ⟨5⟩ "amount" none =
        ([⟨5⟩, ⟨3⟩, .root] : List ElementId).findSome? fun top =>
          (b.namedWithin doc top "amount").head?) ∧
      c.answer doc ⟨5⟩ "amount" none = b.answer doc ⟨5⟩ "amount" none := by
  intro doc b c
  have attached : doc.isAttached ⟨5⟩ := by decide +kernel
  have path : ⟨5⟩ :: doc.ancestors ⟨5⟩ = [⟨5⟩, ⟨3⟩, .root] := by decide +kernel
  obtain ⟨-, nearest, -⟩ := resolve_nearest (ν := Unit)
    [(amountOf ⟨2⟩).asUse, (amountOf ⟨4⟩).asUse] rowEdits attached "amount"
  obtain ⟨-, -, -, -, -, order⟩ := resolve_nearest (ν := Unit) [] rowEdits attached "amount"
  have swapped := order [amountOf ⟨4⟩, amountOf ⟨2⟩] [amountOf ⟨2⟩, amountOf ⟨4⟩] (.swap ..)
    (by simp [amountOf]) none
  rw [path] at nearest
  exact ⟨attached, by decide +kernel, by decide +kernel, nearest, swapped⟩

end Bindings

end FormDependencies
