import Mathlib.Data.List.Induction
import FormDependencies.Action.Registry
import FormDependencies.Document.Edit
import FormDependencies.Proofs.Declaration.Written

/-!
Names of actions. A text asks for one name, whether an action is registered under it or declared by
it. So a declaration finds what was registered under its text last, however blanks, capitals and
other characters stand in it.
-/

namespace FormDependencies

namespace ActionName

def asked (raw : String) : String := sanitize (Text.trim raw)

theorem isNameChar_of_mem_sanitize {raw : String} {c : Char} (mem : c ∈ (sanitize raw).toList) :
    isNameChar c = true := by
  rw [sanitize, String.toList_ofList] at mem
  exact (List.mem_filter.mp mem).2

theorem sanitize_sanitize (raw : String) : sanitize (sanitize raw) = sanitize raw :=
  sanitize_eq_self fun _ mem => isNameChar_of_mem_sanitize mem

theorem isName_asked {raw : String} (accepted : asked raw ≠ "") : IsName (asked raw) :=
  ⟨accepted, fun _ mem => isNameChar_of_mem_sanitize mem⟩

end ActionName

open ActionName

namespace ActionTable
variable {ν : Type} {table start : ActionTable ν} {name : String} {action : Action ν}

/-! ## One registration -/

def held? (table : ActionTable ν) (name : String) : Option (Action ν) :=
  (table.entries.find? fun entry => entry.1 == name).map (·.2)

theorem get_eq_ok_iff : table.get name = .ok action ↔ table.held? name = some action := by
  unfold get held?
  split
  · next found => simp [found]
  · next none => simp [none]

theorem names_put (table : ActionTable ν) (name : String) (action : Action ν) :
    (table.put name action).names =
      if name ∈ table.names then table.names else table.names ++ [name] := by
  suffices ∀ entries : List (String × Action ν), (putEntry name action entries).map (·.1) =
      if name ∈ entries.map (·.1) then entries.map (·.1) else entries.map (·.1) ++ [name] from
    this table.entries
  intro entries
  induction entries with
  | nil => rfl
  | cons entry rest ih =>
    unfold putEntry
    by_cases own : entry.1 = name
    · simp [own]
    · rw [if_neg own, List.map_cons, ih]
      by_cases mem : name ∈ rest.map (·.1)
      · simp [mem]
      · simp [mem, Ne.symm own]

theorem held?_put (table : ActionTable ν) (name other : String) (action : Action ν) :
    (table.put name action).held? other =
      if name = other then some action else table.held? other := by
  suffices ∀ entries : List (String × Action ν),
      ((putEntry name action entries).find? fun entry => entry.1 == other).map (·.2) =
        if name = other then some action
        else (entries.find? fun entry => entry.1 == other).map (·.2) from this table.entries
  intro entries
  induction entries with
  | nil => by_cases same : name = other <;> simp [putEntry, same]
  | cons entry rest ih =>
    unfold putEntry
    split
    · next own => by_cases same : name = other <;> simp [own, same]
    · next own =>
      rw [List.find?_cons, List.find?_cons]
      by_cases here : entry.1 = other
      · simp [here, show name ≠ other from fun same => own (here.trans same.symm)]
      · simp only [beq_false_of_ne here, ih]

/-- A registration is refused when nothing is left of the text, and otherwise puts the action under
the name that the text asks for. -/
theorem register_eq (table : ActionTable ν) (raw : String) (action : Action ν) :
    table.register raw action =
      if asked raw = "" then .error (.invalidActionName raw)
      else .ok (table.put (asked raw) action, asked raw) := by
  have opened : table.register raw action =
      if (asked raw).isEmpty then .error (.invalidActionName raw)
      else .ok (table.put (asked raw) action, asked raw) := rfl
  rw [opened]
  by_cases refused : asked raw = ""
  · rw [if_pos (String.isEmpty_iff.mpr refused), if_pos refused]
  · rw [if_neg (String.isEmpty_iff.not.mpr refused), if_neg refused]

/-! ## Many registrations -/

def call (table : ActionTable ν) (c : String × Action ν) : ActionTable ν :=
  match table.register c.1 c.2 with
  | .ok (registered, _) => registered
  | .error _ => table

def registerAll (table : ActionTable ν) (calls : List (String × Action ν)) : ActionTable ν :=
  calls.foldl call table

theorem call_eq (table : ActionTable ν) (c : String × Action ν) :
    table.call c = if asked c.1 = "" then table else table.put (asked c.1) c.2 := by
  unfold call
  rw [register_eq]
  by_cases refused : asked c.1 = "" <;> simp [refused]

/-- A refused registration changes nothing. -/
theorem register_refused (table : ActionTable ν) {raw : String} (refused : asked raw = "")
    (action : Action ν) :
    table.register raw action = .error (.invalidActionName raw) ∧
      table.call (raw, action) = table := by
  rw [register_eq, call_eq, if_pos refused, if_pos refused]
  exact ⟨rfl, rfl⟩

theorem register_accepted (table : ActionTable ν) {raw : String} (accepted : asked raw ≠ "")
    (action : Action ν) :
    table.register raw action = .ok (table.call (raw, action), asked raw) := by
  rw [register_eq, call_eq, if_neg accepted, if_neg accepted]

theorem registerAll_cons (start : ActionTable ν) (c : String × Action ν)
    (later : List (String × Action ν)) :
    start.registerAll (c :: later) = (start.call c).registerAll later := by
  rw [registerAll, List.foldl_cons, ← registerAll]

theorem registerAll_append (start : ActionTable ν) (calls later : List (String × Action ν)) :
    start.registerAll (calls ++ later) = (start.registerAll calls).registerAll later := by
  rw [registerAll, List.foldl_append, ← registerAll, ← registerAll]

theorem names_call (table : ActionTable ν) (c : String × Action ν) :
    (table.call c).names =
      if asked c.1 = "" ∨ asked c.1 ∈ table.names then table.names
      else table.names ++ [asked c.1] := by
  rw [call_eq]
  by_cases refused : asked c.1 = ""
  · simp [refused]
  · simp [refused, names_put]

theorem held?_call (table : ActionTable ν) (c : String × Action ν) (name : String) :
    (table.call c).held? name =
      if asked c.1 = name ∧ name ≠ "" then some c.2 else table.held? name := by
  rw [call_eq]
  by_cases refused : asked c.1 = ""
  · rw [if_pos refused, if_neg]
    rintro ⟨same, nonempty⟩
    exact nonempty (same.symm.trans refused)
  · rw [if_neg refused, held?_put]
    by_cases same : asked c.1 = name
    · rw [if_pos same, if_pos ⟨same, fun empty => refused (same.trans empty)⟩]
    · rw [if_neg same, if_neg fun both => same both.1]

/-- A table as a host can come by it. -/
inductive Made : ActionTable ν → Prop
  | empty : Made .empty
  | builtin : Made .builtin
  | register {table registered : ActionTable ν} {raw name : String} {action : Action ν}
    (made : Made table) (accepted : table.register raw action = .ok (registered, name)) :
    Made registered

structure Sound (table : ActionTable ν) : Prop where
  distinct : table.names.Nodup
  named : ∀ name ∈ table.names, IsName name

theorem Sound.call (h : table.Sound) (c : String × Action ν) : (table.call c).Sound := by
  by_cases kept : asked c.1 = "" ∨ asked c.1 ∈ table.names
  · have same : (table.call c).names = table.names := (names_call table c).trans (if_pos kept)
    constructor
    · rw [same]
      exact h.distinct
    · rw [same]
      exact h.named
  · have added : (table.call c).names = table.names ++ [asked c.1] :=
      (names_call table c).trans (if_neg kept)
    obtain ⟨some, fresh⟩ := not_or.mp kept
    constructor
    · rw [added]
      refine List.nodup_append.mpr ⟨h.distinct, List.pairwise_singleton .., ?_⟩
      rintro name mem last own rfl
      rw [List.mem_singleton.mp own] at mem
      exact fresh mem
    · rw [added]
      intro name mem
      rcases List.mem_append.mp mem with old | new
      · exact h.named name old
      · rw [List.mem_singleton.mp new]
        exact isName_asked some

theorem Sound.registerAll (h : start.Sound) (calls : List (String × Action ν)) :
    (start.registerAll calls).Sound :=
  List.foldlRecOn calls ActionTable.call h fun _ sound c _ => sound.call c

theorem Made.sound (made : table.Made) : table.Sound := by
  induction made with
  | empty => exact ⟨List.nodup_nil, fun _ mem => absurd mem List.not_mem_nil⟩
  | builtin =>
    have names : (ActionTable.builtin : ActionTable ν).names =
        (ActionTable.builtin : ActionTable Unit).names := rfl
    constructor
    · rw [names]
      decide +kernel
    · rw [names]
      decide +kernel
  | @register table registered raw name action _ accepted ih =>
    have same : table.call (raw, action) = registered := by
      unfold ActionTable.call
      rw [accepted]
    exact same ▸ ih.call (raw, action)

def fresh (start : ActionTable ν) (calls : List (String × Action ν)) : List String :=
  (calls.map fun c => asked c.1).filter fun name => name ≠ "" ∧ name ∉ start.names

/-- Names that a table has keep their places, and the others come in order of first registration. -/
theorem names_registerAll (start : ActionTable ν) (calls : List (String × Action ν)) :
    (start.registerAll calls).names = start.names ++ (start.fresh calls).eraseDups := by
  -- From the end, since the last call is the one that meets the table with all earlier names.
  induction calls using List.reverseRecOn with
  | nil => simp [registerAll, fresh]
  | append_singleton calls c ih =>
    have step : start.registerAll (calls ++ [c]) = (start.registerAll calls).call c := by
      rw [registerAll_append, registerAll_cons, registerAll, List.foldl_nil]
    have more : start.fresh (calls ++ [c]) = start.fresh calls ++
        if asked c.1 ≠ "" ∧ asked c.1 ∉ start.names then [asked c.1] else [] := by
      simp [fresh, List.filter_cons]
    rw [step, names_call, ih, more, List.eraseDups_append]
    by_cases refused : asked c.1 = ""
    · simp [refused]
    · by_cases old : asked c.1 ∈ start.names
      · simp [old]
      · by_cases again : asked c.1 ∈ start.fresh calls <;>
          simp [refused, old, again, List.removeAll, List.eraseDups_cons]

theorem held?_registerAll_of_others {calls : List (String × Action ν)}
    (others : ∀ c ∈ calls, asked c.1 = name → name = "") :
    (start.registerAll calls).held? name = start.held? name := by
  induction calls generalizing start with
  | nil => rfl
  | cons c rest ih =>
    obtain ⟨other, others⟩ := List.forall_mem_cons.mp others
    rw [registerAll_cons, ih others, held?_call, if_neg fun both => both.2 (other both.1)]

/-- The last registration under a name decides. -/
theorem held?_registerAll_of_last {before later : List (String × Action ν)} {raw : String}
    (accepted : asked raw ≠ "") (last : ∀ c ∈ later, asked c.1 ≠ asked raw) :
    (start.registerAll (before ++ (raw, action) :: later)).held? (asked raw) = some action := by
  rw [registerAll_append, registerAll_cons,
    held?_registerAll_of_others fun c mem same => absurd same (last c mem), held?_call,
    if_pos ⟨rfl, accepted⟩]

end ActionTable

/-! ## Declarations -/

namespace Declaration

theorem getElem?_filter_countP {α : Type} {p : α → Bool} {entries : List α} {position : Nat}
    {entry : α} (found : entries[position]? = some entry) (kept : p entry = true) :
    (entries.filter p)[(entries.take position).countP p]? = some entry := by
  induction entries generalizing position with
  | nil => simp at found
  | cons first rest ih =>
    cases position with
    | zero =>
      obtain rfl : first = entry := by simpa using found
      simp [kept]
    | succ position =>
      have found : rest[position]? = some entry := by simpa using found
      have later := ih found
      by_cases keeps : p first = true <;> simpa [keeps] using later

/-- A text declares the action whose name it asks for. -/
theorem actionName_trim {raw : String} (accepted : ActionName.asked raw ≠ "") :
    actionName (Text.trim raw) = ActionName.asked raw := by
  have nonempty : ¬(Text.trim raw).isEmpty = true := by
    intro empty
    have nothing := String.isEmpty_iff.mp empty
    unfold ActionName.asked at accepted
    rw [nothing] at accepted
    exact accepted rfl
  unfold ActionName.asked at accepted ⊢
  simp [actionName, nonempty, accepted]

/-- The place of a query among those that declare something. -/
def rank (queries : List String) (position : Nat) : Nat :=
  (queries.take position).countP fun query => !query.isEmpty

theorem getElem?_pairings {queries : List String} (actions : List String) {position : Nat}
    {query : String} (found : queries[position]? = some query) (nonempty : query ≠ "") :
    (pairings queries actions)[rank queries position]? =
      some (query, actionName (actions.getD position "")) := by
  have placed : queries.zipIdx[position]? = some (query, position) := by
    simp [List.getElem?_zipIdx, found]
  have before : (queries.zipIdx.take position).countP (fun entry => !entry.1.isEmpty) =
      rank queries position := by
    have texts : (queries.zipIdx.take position).map Prod.fst = queries.take position := by
      rw [List.map_take, List.zipIdx_map_fst]
    rw [rank, ← texts, List.countP_map]
    rfl
  have paired := getElem?_filter_countP (p := fun entry : String × Nat => !entry.1.isEmpty) placed
    (by simpa using nonempty)
  rw [before] at paired
  simp [pairings, paired]

end Declaration

namespace Document
variable {doc : Document} {el : ElementId} {config : Config}

/-- Each query that is not empty declares something, with the action that the text at its position
asks for. -/
theorem declared_asked {position : Nat} {query raw : String}
    (queried : (Declaration.parts config
      (doc.attributeOrEmpty el config.queryAttribute))[position]? = some query)
    (nonempty : query ≠ "")
    (entry : (Text.splitChars config.separator
      (doc.attributeOrEmpty el config.actionAttribute).toList)[position]? = some raw.toList)
    (accepted : ActionName.asked raw ≠ "") :
    ∃ d, (doc.declarations el config)[Declaration.rank (Declaration.parts config
        (doc.attributeOrEmpty el config.queryAttribute)) position]? = some d ∧
      d.query = query ∧ d.action = ActionName.asked raw := by
  have part : (Declaration.parts config
      (doc.attributeOrEmpty el config.actionAttribute))[position]? = some (Text.trim raw) := by
    simp [Declaration.parts, entry, Text.trim]
  have paired := Declaration.getElem?_pairings (Declaration.parts config
    (doc.attributeOrEmpty el config.actionAttribute)) queried nonempty
  have pairs : (doc.declarations el config).map (fun d => (d.query, d.action)) =
      Declaration.pairings
        (Declaration.parts config (doc.attributeOrEmpty el config.queryAttribute))
        (Declaration.parts config (doc.attributeOrEmpty el config.actionAttribute)) :=
    Declaration.pairs_withParameters ..
  rw [List.getD_eq_getElem?_getD, part, Option.getD_some, Declaration.actionName_trim accepted,
    ← pairs, List.getElem?_map, Option.map_eq_some_iff] at paired
  obtain ⟨d, found, same⟩ := paired
  obtain ⟨query', action⟩ := Prod.mk.inj same
  exact ⟨d, found, query', action⟩

end Document

namespace ActionTable
variable {ν : Type}

/-- Whatever is registered, the names of a table are distinct names in the order in which they came
first, and each stands for the action that was registered under it last, or that it stood for
before. Texts that ask in vain are refused. A declaration whose text is that of the last
registration of its name drives the action that was registered. -/
theorem registered_declared {start : ActionTable ν} (made : start.Made)
    (calls : List (String × Action ν)) :
    let after := start.registerAll calls
    (after.names.Nodup ∧ ∀ name ∈ after.names, IsName name) ∧
    after.names = start.names ++ (start.fresh calls).eraseDups ∧
    (∀ raw, sanitize (sanitize raw) = sanitize raw) ∧
    (∀ raw action,
      (asked raw = "" → after.register raw action = .error (.invalidActionName raw) ∧
        after.call (raw, action) = after) ∧
      (asked raw ≠ "" →
        after.register raw action = .ok (after.call (raw, action), asked raw))) ∧
    (∀ name, (∀ c ∈ calls, asked c.1 = name → name = "") → ∀ action,
      after.get name = .ok action ↔ start.get name = .ok action) ∧
    ∀ before raw action later, calls = before ++ (raw, action) :: later →
      asked raw ≠ "" → (∀ c ∈ later, asked c.1 ≠ asked raw) →
      after.get (asked raw) = .ok action ∧
      ∀ (doc : Document) el (config : Config) position query,
        (Declaration.parts config
          (doc.attributeOrEmpty el config.queryAttribute))[position]? = some query → query ≠ "" →
        (Text.splitChars config.separator
          (doc.attributeOrEmpty el config.actionAttribute).toList)[position]? = some raw.toList →
        ∃ d, (doc.declarations el config)[Declaration.rank (Declaration.parts config
            (doc.attributeOrEmpty el config.queryAttribute)) position]? = some d ∧
          d.query = query ∧ after.get d.action = .ok action := by
  intro after
  have sound : after.Sound := made.sound.registerAll calls
  refine ⟨⟨sound.distinct, sound.named⟩, names_registerAll start calls, sanitize_sanitize,
    fun raw action => ⟨fun refused => after.register_refused refused action,
      fun accepted => after.register_accepted accepted action⟩, ?_, ?_⟩
  · intro name others action
    rw [get_eq_ok_iff, get_eq_ok_iff, held?_registerAll_of_others others]
  · rintro before raw action later rfl accepted last
    have holds : after.get (asked raw) = .ok action :=
      get_eq_ok_iff.mpr (held?_registerAll_of_last accepted last)
    refine ⟨holds, fun doc el config position query queried nonempty entry => ?_⟩
    obtain ⟨d, found, text, named⟩ := Document.declared_asked queried nonempty entry accepted
    exact ⟨d, found, text, named ▸ holds⟩

/-- Two registrations of one name, the second by a text in which the kelvin sign stands for a
letter, and a refused one between them. -/
def kelvinCalls : List (String × Action Unit) :=
  [("kelvin", .disabled), ("***", .readonly), (" \u212aelvin! ", .required)]

def kelvinField : Document :=
  Document.new.editAll
    [.create "input", .append .root ⟨1⟩, .setAttribute ⟨1⟩ "data-dependson" "@a;;@b",
      .setAttribute ⟨1⟩ "data-dependsonaction" "set;; \u212aelvin! "]

theorem registered_declared_kelvin :
    let start : ActionTable Unit := .builtin
    let after := start.registerAll kelvinCalls
    start.Made ∧ after.names = start.names ++ ["kelvin"] ∧ after.get "kelvin" = .ok .required ∧
      ∃ d, (kelvinField.declarations ⟨1⟩ .standard)[1]? = some d ∧
        after.get d.action = .ok .required := by
  intro start after
  have asks : asked " \u212aelvin! " = "kelvin" := by decide +kernel
  have accepted : asked " \u212aelvin! " ≠ "" := by
    rw [asks]
    decide
  have fresh : (start.fresh kelvinCalls).eraseDups = ["kelvin"] := by decide +kernel
  have made : start.Made := .builtin
  obtain ⟨-, names, -, -, -, last⟩ := registered_declared made kelvinCalls
  obtain ⟨holds, drives⟩ :=
    last [("kelvin", .disabled), ("***", .readonly)] _ .required [] rfl accepted (by simp)
  obtain ⟨d, found, -, found'⟩ :=
    drives kelvinField ⟨1⟩ .standard 2 "@b" (by decide +kernel) (by decide) (by decide +kernel)
  rw [asks] at holds
  rw [fresh] at names
  exact ⟨made, names, holds, d, found, found'⟩

end ActionTable

end FormDependencies
