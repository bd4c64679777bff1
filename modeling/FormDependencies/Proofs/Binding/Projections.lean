import Mathlib.Data.List.Induction
import FormDependencies.Proofs.Binding.Keys

/-!
The two ways to read a group: its snapshot, and the list of values that the plain look-up of its key
gives. Both tell the same as long as no plain value is put over the group, because recording a group
replaces what either way reads, but recording a plain value only what the plain look-up reads. The
values that an evaluation hands on are recorded under keys that tell groups and plain values apart,
so there both ways always agree.
-/

namespace FormDependencies

namespace ReferenceValues

/-! ## Recording -/

/-- One call that records something under a key. -/
inductive Entry where
  | value (key : String) (value : Value)
  | group (key : String) (snapshot : GroupSnapshot)

namespace Entry

def key : Entry → String
  | .value key _ | .group key _ => key

def plain : Entry → Value
  | .value _ given => given
  | .group _ snapshot => .list snapshot.values

def snapshot? : Entry → Option GroupSnapshot
  | .value .. => none
  | .group _ snapshot => some snapshot

end Entry

def record (r : ReferenceValues) : Entry → ReferenceValues
  | .value key value => r.insert key value
  | .group key snapshot => r.insertGroup key snapshot

def recordAll (r : ReferenceValues) (entries : List Entry) : ReferenceValues :=
  entries.foldl record r

def ofEntries (entries : List Entry) : ReferenceValues := empty.recordAll entries

@[simp] theorem recordAll_cons (r : ReferenceValues) (e : Entry) (rest : List Entry) :
    r.recordAll (e :: rest) = (r.record e).recordAll rest := rfl

theorem recordAll_append (r : ReferenceValues) (first second : List Entry) :
    r.recordAll (first ++ second) = (r.recordAll first).recordAll second :=
  List.foldl_append

theorem ofEntries_concat (entries : List Entry) (e : Entry) :
    ofEntries (entries ++ [e]) = (ofEntries entries).record e :=
  recordAll_append empty entries [e]

theorem ofEntries_split (before : List Entry) (e : Entry) (after : List Entry) :
    ofEntries (before ++ e :: after) = ((ofEntries before).record e).recordAll after :=
  recordAll_append empty before (e :: after)

theorem values_record (r : ReferenceValues) (e : Entry) :
    (r.record e).values = r.values.insert e.key e.plain := by
  cases e <;> rfl

/-- What one call does to the plain look-up. -/
theorem get_record (r : ReferenceValues) (e : Entry) (key : String) :
    (r.record e).get key = if e.key = key then e.plain else r.get key := by
  unfold get
  rw [values_record, KeyedList.get?_insert]
  by_cases same : e.key = key
  · rw [if_pos same, if_pos same]
    rfl
  · rw [if_neg same, if_neg same]

/-- What one call does to the snapshots. -/
theorem group?_record (r : ReferenceValues) (e : Entry) (name : String) :
    (r.record e).group? name =
      if e.key = "@" ++ name then e.snapshot?.or (r.group? name) else r.group? name := by
  cases e with
  | value key value => exact (ite_self _).symm
  | group key snapshot => exact KeyedList.get?_insert ..

theorem get_recordAll_of_forall_ne {after : List Entry} {key : String}
    (other : ∀ e ∈ after, e.key ≠ key) (r : ReferenceValues) :
    (r.recordAll after).get key = r.get key := by
  induction after generalizing r with
  | nil => rfl
  | cons e rest ih =>
    obtain ⟨ne, other⟩ := List.forall_mem_cons.mp other
    rw [recordAll_cons, ih other, get_record, if_neg ne]

/-- Without a further group under its key a snapshot stays, whatever plain values are recorded. -/
theorem group?_recordAll_of_plain {after : List Entry} {name : String}
    (plain : ∀ e ∈ after, e.key = "@" ++ name → e.snapshot? = none) (r : ReferenceValues) :
    (r.recordAll after).group? name = r.group? name := by
  induction after generalizing r with
  | nil => rfl
  | cons e rest ih =>
    obtain ⟨first, plain⟩ := List.forall_mem_cons.mp plain
    rw [recordAll_cons, ih plain, group?_record]
    split
    · next same => rw [first same, Option.none_or]
    · rfl

/-! ## Agreement -/

def LastGroup (entries : List Entry) (key : String) (snapshot : GroupSnapshot) : Prop :=
  ∃ before after, entries = before ++ .group key snapshot :: after ∧
    ∀ e ∈ after, e.key = key → e.snapshot? = none

/-- Whether a plain value was put over a group: as the last thing under the key, after the last
group under it, and other than the list of the group's values. -/
def Overwritten (entries : List Entry) (key : String) (snapshot : GroupSnapshot) (value : Value) :
    Prop :=
  ∃ before after, entries = before ++ .value key value :: after ∧
    LastGroup before key snapshot ∧ (∀ e ∈ after, e.key ≠ key) ∧ value ≠ .list snapshot.values

def Agrees (r : ReferenceValues) (name : String) : Prop :=
  ∀ snapshot, r.group? name = some snapshot → r.get ("@" ++ name) = .list snapshot.values

section
variable {entries : List Entry} {key name : String} {snapshot : GroupSnapshot} {value : Value}
  {e : Entry}

theorem LastGroup.concat (h : LastGroup entries key snapshot)
    (plain : e.key = key → e.snapshot? = none) : LastGroup (entries ++ [e]) key snapshot := by
  obtain ⟨before, after, rfl, all⟩ := h
  refine ⟨before, after ++ [e], by simp, List.forall_mem_append.mpr ⟨all, ?_⟩⟩
  exact List.forall_mem_singleton.mpr plain

theorem Overwritten.concat (h : Overwritten entries key snapshot value) (ne : e.key ≠ key) :
    Overwritten (entries ++ [e]) key snapshot value := by
  obtain ⟨before, after, rfl, last, other, differs⟩ := h
  refine ⟨before, after ++ [e], by simp, last, ?_, differs⟩
  exact List.forall_mem_append.mpr ⟨other, List.forall_mem_singleton.mpr ne⟩

theorem lastGroup_of_group? (found : (ofEntries entries).group? name = some snapshot) :
    LastGroup entries ("@" ++ name) snapshot := by
  induction entries using List.reverseRecOn with
  | nil => cases found
  | append_singleton entries e ih =>
    rw [ofEntries_concat, group?_record] at found
    by_cases same : e.key = "@" ++ name
    · rw [if_pos same] at found
      cases e with
      | value => exact (ih found).concat fun _ => rfl
      | group key other =>
        obtain rfl : key = "@" ++ name := same
        cases found
        exact ⟨entries, [], rfl, by simp⟩
    · rw [if_neg same] at found
      exact (ih found).concat fun eq => absurd eq same

/-- The snapshot that is read is the last one recorded under the key. -/
theorem group?_eq_some_iff : (ofEntries entries).group? name = some snapshot ↔
    LastGroup entries ("@" ++ name) snapshot := by
  refine ⟨lastGroup_of_group?, ?_⟩
  rintro ⟨before, after, rfl, plain⟩
  rw [ofEntries_split, group?_recordAll_of_plain plain, group?_record]
  exact if_pos rfl

/-- The snapshot of an overwritten group is still read, and so is the plain value. -/
theorem Overwritten.read (h : Overwritten entries ("@" ++ name) snapshot value) :
    (ofEntries entries).group? name = some snapshot ∧
      (ofEntries entries).get ("@" ++ name) = value := by
  obtain ⟨before, after, rfl, last, other, -⟩ := h
  rw [ofEntries_split]
  constructor
  · rw [group?_recordAll_of_plain fun e mem same => absurd same (other e mem), group?_record,
      group?_eq_some_iff.mpr last]
    exact if_pos rfl
  · rw [get_recordAll_of_forall_ne other, get_record]
    exact if_pos rfl

theorem exists_overwritten (found : (ofEntries entries).group? name = some snapshot)
    (differs : (ofEntries entries).get ("@" ++ name) ≠ .list snapshot.values) :
    ∃ value, Overwritten entries ("@" ++ name) snapshot value := by
  induction entries using List.reverseRecOn with
  | nil => cases found
  | append_singleton entries e ih =>
    rw [ofEntries_concat] at found differs
    rw [group?_record] at found
    rw [get_record] at differs
    by_cases same : e.key = "@" ++ name
    · rw [if_pos same] at found differs
      cases e with
      | value key value =>
        obtain rfl : key = "@" ++ name := same
        exact ⟨value, entries, [], rfl, lastGroup_of_group? found, by simp, differs⟩
      | group key other =>
        cases found
        exact absurd rfl differs
    · rw [if_neg same] at found differs
      obtain ⟨value, overwritten⟩ := ih found differs
      exact ⟨value, overwritten.concat same⟩

theorem agrees_iff (entries : List Entry) (name : String) :
    (ofEntries entries).Agrees name ↔
      ¬∃ snapshot value, Overwritten entries ("@" ++ name) snapshot value := by
  constructor
  · rintro agrees ⟨snapshot, value, overwritten⟩
    obtain ⟨found, read⟩ := overwritten.read
    obtain ⟨-, -, -, -, -, differs⟩ := overwritten
    exact differs (read.symm.trans (agrees snapshot found))
  · intro kept snapshot found
    by_contra differs
    exact kept ⟨snapshot, exists_overwritten found differs⟩

end

/-- Where every key has groups only or plain values only, no group is overwritten. -/
theorem agrees_of_apart {entries : List Entry}
    (apart : ∀ e ∈ entries, ∀ e' ∈ entries, e.key = e'.key →
      e.snapshot?.isSome = e'.snapshot?.isSome) (name : String) :
    (ofEntries entries).Agrees name := by
  rw [agrees_iff]
  rintro ⟨snapshot, value, -, after, rfl, ⟨before, between, rfl, -⟩, -⟩
  have kinds := apart (.group ("@" ++ name) snapshot) (by simp) (.value ("@" ++ name) value)
    (by simp) rfl
  cases kinds

/-! ## Evaluation -/

def Entry.ofSupply (token : ReferenceToken) (supply : List (ElementId × Value)) : Entry :=
  match token.kind with
  | .group => .group token.key (handedGroup supply)
  | .simple | .this => .value token.key (handedValue token supply)

theorem record_ofSupply (handed : ReferenceValues) (token : ReferenceToken)
    (supply : List (ElementId × Value)) :
    handed.record (.ofSupply token supply) = handed.hand token supply := by
  unfold Entry.ofSupply hand handedValue
  cases token.kind <;> rfl

theorem key_ofSupply (token : ReferenceToken) (supply : List (ElementId × Value)) :
    (Entry.ofSupply token supply).key = token.key := by
  unfold Entry.ofSupply
  cases token.kind <;> rfl

theorem isSome_snapshot?_ofSupply (token : ReferenceToken) (supply : List (ElementId × Value)) :
    (Entry.ofSupply token supply).snapshot?.isSome = (token.kind == .group) := by
  unfold Entry.ofSupply
  cases token.kind <;> rfl

theorem agrees_foldl_hand {text : String} {q : Query} (read : Query.parse text = .ok q)
    (supply : ReferenceToken → List (ElementId × Value)) (name : String) :
    (q.references.foldl (fun handed token => hand handed token (supply token)) empty).Agrees
      name := by
  have recorded : q.references.foldl (fun handed token => hand handed token (supply token)) empty =
      ofEntries (q.references.map fun token => .ofSupply token (supply token)) := by
    unfold ofEntries recordAll
    rw [List.foldl_map]
    simp only [record_ofSupply]
  rw [recorded]
  refine agrees_of_apart (fun e mem e' mem' same => ?_) name
  obtain ⟨token, listed, rfl⟩ := List.mem_map.mp mem
  obtain ⟨token', listed', rfl⟩ := List.mem_map.mp mem'
  rw [key_ofSupply, key_ofSupply] at same
  obtain ⟨kind, -⟩ := (Query.key_eq_iff read read listed listed').mp same
  rw [isSome_snapshot?_ofSupply, isSome_snapshot?_ofSupply, kind]

/-- After any calls that record values and groups, under any keys, the plain look-up of a group
gives the list of the values in its snapshot, unless another plain value was put over the group:
then the snapshot stays as it was, and the plain look-up gives the plain value. Evaluation never
puts a plain value over a group: whatever uses the bindings have had, both ways to read a group
agree in what it hands to the evaluator. -/
theorem agree_unless_overwritten {ν : Type} :
    (∀ (entries : List Entry) (name : String),
      (ofEntries entries).Agrees name ↔
        ¬∃ snapshot value, Overwritten entries ("@" ++ name) snapshot value) ∧
    (∀ (entries : List Entry) (name : String) (snapshot : GroupSnapshot) (value : Value),
      Overwritten entries ("@" ++ name) snapshot value →
        (ofEntries entries).group? name = some snapshot ∧
          (ofEntries entries).get ("@" ++ name) = value) ∧
    ∀ (uses : List (Use ν)) (doc : Document) (accessors : AccessorTable) (o : Observer ν)
      (text : String), Query.parse text = .ok o.query →
      ∀ name, ((Bindings.run uses).rebind doc accessors o).2.Agrees name := by
  refine ⟨agrees_iff, fun _ _ _ _ => Overwritten.read, ?_⟩
  intro uses doc accessors o text read name
  have handed : ((Bindings.run uses).rebind doc accessors o).2 = _ :=
    Bindings.values_lookUp (Bindings.allotted_run uses) doc accessors o
  rw [handed]
  exact agrees_foldl_hand read _ name

def amountsSnapshot : GroupSnapshot := ⟨[.text "1", .text "2"], 2⟩

def replacedAmounts : List Entry :=
  [.group "@amount" amountsSnapshot, .value "@amount" (.text "total")]

/-- The group of two amounts is still read, though the plain look-up gives a text. What a total gets
from an evaluation has the group with both amounts, and both ways agree. -/
theorem agree_unless_overwritten_amounts :
    Overwritten replacedAmounts ("@" ++ "amount") amountsSnapshot (.text "total") ∧
      (ofEntries replacedAmounts).group? "amount" = some amountsSnapshot ∧
      (ofEntries replacedAmounts).get "@amount" = .text "total" ∧
      ¬(ofEntries replacedAmounts).Agrees "amount" ∧
      Query.parse Bindings.amountsQuery.text = .ok Bindings.amountsQuery ∧
      (Bindings.totalHanded.group? "amount").map (·.count) = some 2 ∧
      Bindings.totalHanded.Agrees "amount" := by
  obtain ⟨condition, read, evaluated⟩ := agree_unless_overwritten (ν := Unit)
  have overwritten :
      Overwritten replacedAmounts ("@" ++ "amount") amountsSnapshot (.text "total") :=
    ⟨[.group "@amount" amountsSnapshot], [], rfl, ⟨[], [], rfl, by simp⟩, by simp, nofun⟩
  obtain ⟨found, given⟩ := read replacedAmounts "amount" amountsSnapshot _ overwritten
  have parsed : Query.parse Bindings.amountsQuery.text = .ok Bindings.totalObserver.query := rfl
  refine ⟨overwritten, found, given, fun agrees => ?_, parsed, by decide +kernel, ?_⟩
  · exact (condition replacedAmounts "amount").mp agrees ⟨_, _, overwritten⟩
  · exact evaluated Bindings.amountsUses Bindings.amountsDocument .builtin Bindings.totalObserver _
      parsed "amount"

end ReferenceValues

end FormDependencies
