import Mathlib.Data.List.Nodup
import FormDependencies.Proofs.Declaration.Written

/-!
Reading declarations from the attributes that they are written as: each parameter comes back to the
declaration that it was written for, in whatever order the attributes are set.
-/

namespace FormDependencies

namespace Declaration

variable {config : Config}

/-! ## Parameters -/

abbrev readParameter (config : Config) (action : String) (index : Nat) : String → Option String :=
  parameterName? (config.parameterStart ++ action ++ "-").toList index

theorem readParameter_eq_none {action name : String} (index : Nat)
    (foreign : ¬(config.parameterStart ++ action ++ "-").toList <+: name.toList) :
    readParameter config action index name = none := by
  have none : Text.dropStart? (config.parameterStart ++ action ++ "-").toList name.toList = none := by
    rw [Option.eq_none_iff_forall_ne_some]
    intro rest found
    exact foreign ⟨rest, (Text.dropStart?_eq_some_iff.mp found).symm⟩
  rw [readParameter, parameterName?, none]

section
variable {ds rest : List Declaration} {earlier : List String} {separator : Char}

/-- The declarations of an action are counted along with all others. -/
theorem counted {d : Declaration} (bound : earlier.length + (d :: rest).length ≤ indexLimit) :
    earlier.count d.action ≤ indexLimit ∧
      (d.action :: earlier).length + rest.length ≤ indexLimit := by
  have among : earlier.count d.action ≤ earlier.length := List.count_le_length
  rw [List.length_cons] at bound ⊢
  omega

theorem readParameter_own (h : Writable separator ds) {d : Declaration} (mem : d ∈ ds) {index : Nat}
    (small : index ≤ indexLimit) (index' : Nat) {entry : String × String}
    (parameter : entry ∈ d.parameters) :
    readParameter config d.action index' (parameterAttribute config d.action index entry.1) =
      if index = index' then some entry.1 else none :=
  parameterName?_parameterAttribute ((h.parameters d mem).2 entry parameter) small

theorem gathered_own (h : Writable separator ds) {d : Declaration} (mem : d ∈ ds) {index : Nat}
    (small : index ≤ indexLimit) :
    gathered (readParameter config d.action index) (ownAttributes config d index) =
      d.parameters := by
  rw [gathered, ownAttributes, List.filterMap_map]
  refine (List.filterMap_congr fun entry parameter => ?_).trans List.filterMap_some
  simp [readParameter_own h mem small index parameter]

theorem gathered_ownAttributes_eq_nil (h : Writable separator ds) {d d' : Declaration}
    (mem : d ∈ ds) (mem' : d' ∈ ds) {index index' : Nat} (small : index ≤ indexLimit)
    (other : d.action = d'.action → index ≠ index') :
    gathered (readParameter config d'.action index') (ownAttributes config d index) = [] := by
  rw [gathered, ownAttributes, List.filterMap_map, List.filterMap_eq_nil_iff]
  intro entry parameter
  by_cases same : d.action = d'.action
  · rw [Function.comp_apply, ← same, readParameter_own h mem small index' parameter,
      if_neg (other same)]
    rfl
  · have none : readParameter config d'.action index'
        (parameterAttribute config d.action index entry.1) = none :=
      parameterName?_other same (h.apart d mem d' mem') (h.apart d' mem' d mem)
    rw [Function.comp_apply, none]
    rfl

/-- A declaration has no attributes among those of the declarations after it. -/
theorem gathered_later (h : Writable separator ds) (among : ∀ d ∈ rest, d ∈ ds)
    (bound : earlier.length + rest.length ≤ indexLimit) {d' : Declaration} (mem' : d' ∈ ds)
    {index : Nat} (before : index < earlier.count d'.action) :
    gathered (readParameter config d'.action index) (parameterAttributes config earlier rest) =
      [] := by
  induction rest generalizing earlier with
  | nil => rfl
  | cons d rest ih =>
    obtain ⟨mem, among⟩ := List.forall_mem_cons.mp among
    obtain ⟨small, bound'⟩ := counted bound
    have own : gathered (readParameter config d'.action index)
        (ownAttributes config d (earlier.count d.action)) = [] := by
      refine gathered_ownAttributes_eq_nil h mem mem' small ?_
      rintro same rfl
      rw [same] at before
      exact Nat.lt_irrefl _ before
    have others := ih among bound' (Nat.lt_of_lt_of_le before List.count_le_count_cons)
    rw [parameterAttributes, gathered_append, own, others, List.append_nil]

/-- The declarations have the parameters that are found under their attributes. -/
theorem withParameters_eq {attributes : List (String × String)} (h : Writable separator ds)
    (among : ∀ d ∈ rest, d ∈ ds) (bound : earlier.length + rest.length ≤ indexLimit)
    (found : ∀ d ∈ ds, ∀ index, earlier.count d.action ≤ index →
      (gathered (readParameter config d.action index) attributes).Perm
        (gathered (readParameter config d.action index) (parameterAttributes config earlier rest))) :
    withParameters attributes config earlier (rest.map fun d => (d.query, d.action)) = rest := by
  induction rest generalizing earlier with
  | nil => rfl
  | cons d rest ih =>
    obtain ⟨mem, among⟩ := List.forall_mem_cons.mp among
    obtain ⟨small, bound'⟩ := counted bound
    have parameters : parametersOf attributes config d.action (earlier.count d.action) =
        d.parameters := by
      apply KeyedList.ofList_eq_of_perm (h.parameters d mem).1
      refine (found d mem _ (Nat.le_refl _)).trans ?_
      have later : gathered (readParameter config d.action (earlier.count d.action))
          (parameterAttributes config (d.action :: earlier) rest) = [] :=
        gathered_later h among bound' mem (by simp)
      have own : gathered (readParameter config d.action (earlier.count d.action))
          (ownAttributes config d (earlier.count d.action)) = d.parameters :=
        gathered_own h mem small
      rw [parameterAttributes, gathered_append, own, later, List.append_nil]
    have others := ih among bound' fun d' mem' index after => by
      have less : earlier.count d'.action ≤ index :=
        Nat.le_trans List.count_le_count_cons after
      refine (found d' mem' index less).trans ?_
      have own : gathered (readParameter config d'.action index)
          (ownAttributes config d (earlier.count d.action)) = [] := by
        refine gathered_ownAttributes_eq_nil h mem mem' small ?_
        rintro same rfl
        rw [same, List.count_cons_self] at after
        exact Nat.not_succ_le_self _ after
      rw [parameterAttributes, gathered_append, own, List.nil_append]
    rw [List.map_cons, withParameters, parameters, others]

theorem nodup_ownAttributes (h : Writable separator ds) {d : Declaration} (mem : d ∈ ds)
    {index : Nat} (small : index ≤ indexLimit) :
    ((ownAttributes config d index).map (·.1)).Nodup := by
  have readBack : ((ownAttributes config d index).map (·.1)).map
      (readParameter config d.action index) = (d.parameters.map (·.1)).map some := by
    rw [ownAttributes, List.map_map, List.map_map, List.map_map]
    refine List.map_congr_left fun entry parameter => ?_
    simp [readParameter_own h mem small index parameter]
  apply List.Nodup.of_map (readParameter config d.action index)
  rw [readBack]
  exact (h.parameters d mem).1.nodup_keys.map fun _ _ => Option.some.inj

theorem nodup_parameterAttributes (h : Writable separator ds) (among : ∀ d ∈ rest, d ∈ ds)
    (bound : earlier.length + rest.length ≤ indexLimit) :
    ((parameterAttributes config earlier rest).map (·.1)).Nodup := by
  induction rest generalizing earlier with
  | nil => exact List.nodup_nil
  | cons d rest ih =>
    obtain ⟨mem, among⟩ := List.forall_mem_cons.mp among
    obtain ⟨small, bound'⟩ := counted bound
    rw [parameterAttributes, List.map_append, List.nodup_append]
    refine ⟨nodup_ownAttributes h mem small, ih among bound', ?_⟩
    rintro name own name' later rfl
    obtain ⟨_, there, rfl⟩ := List.mem_map.mp own
    obtain ⟨entry, parameter, rfl⟩ := List.mem_map.mp there
    obtain ⟨other, there', same⟩ := List.mem_map.mp later
    have nothing : gathered (readParameter config d.action (earlier.count d.action))
        (parameterAttributes config (d.action :: earlier) rest) = [] :=
      gathered_later h among bound' mem (by simp)
    have unread := List.filterMap_eq_nil_iff.mp nothing other there'
    rw [same, readParameter_own h mem small _ parameter] at unread
    simp at unread

theorem startsWith_of_mem_parameterAttributes {entry : String × String}
    (mem : entry ∈ parameterAttributes config earlier rest) :
    config.parameterStart.toList <+: entry.1.toList := by
  induction rest generalizing earlier with
  | nil => cases mem
  | cons d rest ih =>
    rcases List.mem_append.mp mem with own | later
    · obtain ⟨parameter, _, rfl⟩ := List.mem_map.mp own
      rw [toList_parameterAttribute]
      exact List.prefix_append _ _
    · exact ih later

end

structure DefaultNames (config : Config) : Prop where
  query : config.queryAttribute = Config.standard.queryAttribute
  action : config.actionAttribute = Config.standard.actionAttribute
  parameterStart : config.parameterStart = Config.standard.parameterStart

theorem DefaultNames.not_prefix_query (h : DefaultNames config) :
    ¬config.parameterStart.toList <+: config.queryAttribute.toList := by
  rw [h.parameterStart, h.query]
  decide

theorem DefaultNames.not_prefix_action (h : DefaultNames config) :
    ¬config.parameterStart.toList <+: config.actionAttribute.toList := by
  rw [h.parameterStart, h.action]
  decide

theorem nodup_written {ds : List Declaration} (names : DefaultNames config)
    (h : Writable config.separator ds) : ((written config ds).map (·.1)).Nodup := by
  have apart : config.queryAttribute ≠ config.actionAttribute := by
    rw [names.query, names.action]
    decide
  have notParameter {name : String} (clear : ¬config.parameterStart.toList <+: name.toList) :
      name ∉ (parameterAttributes config [] ds).map (·.1) := by
    intro mem
    obtain ⟨entry, there, rfl⟩ := List.mem_map.mp mem
    exact clear (startsWith_of_mem_parameterAttributes there)
  have parameters : ((parameterAttributes config [] ds).map (·.1)).Nodup :=
    nodup_parameterAttributes h (fun _ mem => mem) (by simpa using h.length)
  refine List.nodup_cons.mpr ⟨?_, List.nodup_cons.mpr ⟨?_, parameters⟩⟩
  · intro mem
    rcases List.mem_cons.mp mem with same | mem
    · exact apart same
    · exact notParameter names.not_prefix_query mem
  · exact notParameter names.not_prefix_action

theorem gathered_written {ds : List Declaration} (names : DefaultNames config) (action : String)
    (index : Nat) :
    gathered (readParameter config action index) (written config ds) =
      gathered (readParameter config action index) (parameterAttributes config [] ds) := by
  have unread {name : String} (clear : ¬config.parameterStart.toList <+: name.toList) :
      readParameter config action index name = none := by
    refine readParameter_eq_none index fun starts => clear (List.IsPrefix.trans ?_ starts)
    simp [List.append_assoc]
  rw [written, gathered, List.filterMap_cons_none, List.filterMap_cons_none, ← gathered]
  · simp [unread names.not_prefix_action]
  · simp [unread names.not_prefix_query]

end Declaration

namespace Document

open Declaration

/-- Declarations are read again from the attributes that they are written as, in whatever order
these are set on an element. Its other attributes may have any names that do not look like
parameters of the declared actions. -/
theorem declarations_written {doc : Document} {el : ElementId} {config : Config}
    {ds : List Declaration} {order : List (String × String)} (names : DefaultNames config)
    (writable : Writable config.separator ds) (perm : order.Perm (written config ds))
    (present : doc.contains el = true)
    (own : ∀ entry ∈ doc.attributes el, ∀ d ∈ ds,
      ¬(config.parameterStart ++ d.action ++ "-").toList <+: entry.1.toList) :
    (doc.setAttributes el order).declarations el config = ds := by
  have present' : (doc.element? el).isSome = true := by
    simpa [element?, Document.size] using of_decide_eq_true present
  have distinct : (order.map (·.1)).Nodup :=
    (perm.map _).nodup_iff.mpr (nodup_written names writable)
  have queries := attribute?_setAttributes present' distinct
    (perm.mem_iff.mpr (List.mem_cons_self ..))
  have actions := attribute?_setAttributes present' distinct
    (perm.mem_iff.mpr (List.mem_cons_of_mem _ List.mem_cons_self))
  have found : ∀ d ∈ ds, ∀ index, ([] : List String).count d.action ≤ index →
      (gathered (readParameter config d.action index)
        ((doc.setAttributes el order).attributes el)).Perm
        (gathered (readParameter config d.action index) (parameterAttributes config [] ds)) := by
    intro d mem index _
    have unread : ∀ entry ∈ doc.attributes el,
        readParameter config d.action index entry.1 = none := fun entry there =>
      readParameter_eq_none index (own entry there d mem)
    have nothing : gathered (readParameter config d.action index) (doc.attributes el) = [] := by
      refine List.filterMap_eq_nil_iff.mpr fun entry there => ?_
      rw [unread entry there]
      rfl
    rw [gathered_setAttributes present' distinct fun entry there => .inl (unread entry there),
      nothing, List.nil_append, ← gathered_written names]
    exact perm.filterMap _
  unfold declarations
  rw [attributeOrEmpty, queries, attributeOrEmpty, actions, Option.getD_some, Option.getD_some,
    pairings_parts writable]
  exact withParameters_eq writable (fun _ mem => mem) (by simpa using writable.length) found

/-- Two messages for one action, and an action with a parameter that has a hyphen in its name. -/
def validatedFields : List Declaration :=
  [⟨"@a", "validate", [("max-length", "9"), ("msg", "first; -1")]⟩,
    ⟨"@b > 1", "show-2", [("as", "block")]⟩, ⟨"@c", "validate", [("msg", "second")]⟩]

theorem declarations_written_validatedFields :
    DefaultNames { separator := '|' } ∧ Writable '|' validatedFields ∧
    (Document.new.setAttributes .root
      (written { separator := '|' } validatedFields).reverse).declarations .root
        { separator := '|' } = validatedFields := by
  have names : DefaultNames { separator := '|' } := ⟨rfl, rfl, rfl⟩
  have writable : Writable '|' validatedFields := by decide
  have bare : ∀ entry ∈ Document.new.attributes .root, ∀ d ∈ validatedFields,
      ¬("data-dependson-" ++ d.action ++ "-").toList <+: entry.1.toList :=
    fun entry mem => absurd mem List.not_mem_nil
  exact ⟨names, writable, declarations_written names writable (List.reverse_perm _) rfl bare⟩

end Document

end FormDependencies
