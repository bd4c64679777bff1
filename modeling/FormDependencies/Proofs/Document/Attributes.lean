import Mathlib.Data.List.Basic
import FormDependencies.Document.Basic

/-!
Setting attributes of elements. A write is seen at its element under its name and nowhere else. When
many attributes of an element are set and no name comes twice, each has its value in the end, in
whatever order they are set.
-/

namespace FormDependencies

def gathered (read : String → Option String) (entries : List (String × String)) :
    List (String × String) :=
  entries.filterMap fun entry => (read entry.1).map fun name => (name, entry.2)

theorem gathered_append (read : String → Option String) (entries others : List (String × String)) :
    gathered read (entries ++ others) = gathered read entries ++ gathered read others :=
  List.filterMap_append

namespace Element

variable {name : String} {entries : List (String × String)}

theorem name_of_mem_setEntry {value : String} {entry : String × String}
    (mem : entry ∈ setEntry name value entries) :
    entry.1 = name ∨ entry ∈ entries := by
  induction entries with
  | nil => exact .inl (by simpa [setEntry] using congrArg Prod.fst (List.mem_singleton.mp mem))
  | cons first rest ih =>
    rw [setEntry] at mem
    split at mem
    · rcases List.mem_cons.mp mem with rfl | mem
      · exact .inl rfl
      · exact .inr (List.mem_cons_of_mem _ mem)
    · rcases List.mem_cons.mp mem with rfl | mem
      · exact .inr List.mem_cons_self
      · exact (ih mem).imp_right (List.mem_cons_of_mem _)

theorem gathered_setEntry {read : String → Option String} (value : String)
    (clear : read name = none ∨ ∀ entry ∈ entries, entry.1 ≠ name) :
    gathered read (setEntry name value entries) =
      gathered read entries ++ gathered read [(name, value)] := by
  induction entries with
  | nil => rfl
  | cons first rest ih =>
    rw [setEntry]
    split
    · next same =>
      rcases clear with unread | fresh
      · simp [gathered, unread, same]
      · exact absurd same (fresh first List.mem_cons_self)
    · have clear' := clear.imp_right fun fresh entry mem => fresh entry (List.mem_cons_of_mem _ mem)
      rw [← List.singleton_append, gathered_append, ih clear', ← List.append_assoc,
        ← gathered_append, List.singleton_append]

end Element

namespace Document

/-! ## One attribute -/

section
variable (doc : Document) (el other : ElementId) (name asked : String)

theorem attribute?_modify {change : Element → Element} {result : Option String}
    (changed : ∀ e, (change e).attribute? asked =
      if name = asked then result else e.attribute? asked) :
    (doc.modify el change).attribute? other asked =
      if el = other ∧ name = asked then (doc.element? other).bind fun _ => result
      else doc.attribute? other asked := by
  unfold attribute?
  rw [element?_modify]
  cases doc.element? other with
  | none => simp
  | some e => by_cases own : el = other <;> simp [own, changed]

theorem attribute?_write (value : String) :
    (doc.setAttribute el name value).attribute? other asked =
      if el = other ∧ name = asked then (doc.element? other).bind fun _ => some value
      else doc.attribute? other asked :=
  doc.attribute?_modify el other name asked fun e => e.attribute?_setAttribute name asked value

theorem attribute?_erase :
    (doc.removeAttribute el name).attribute? other asked =
      if el = other ∧ name = asked then none else doc.attribute? other asked := by
  rw [removeAttribute, doc.attribute?_modify el other name asked
    fun e => e.attribute?_removeAttribute name asked]
  cases doc.element? other <;> rfl

theorem attribute?_toggle_of_ne {name asked : String} (different : name ≠ asked) (on : Bool) :
    (doc.toggleAttribute el name on).attribute? other asked = doc.attribute? other asked := by
  cases on with
  | true => exact (doc.attribute?_write ..).trans (if_neg fun same => different same.2)
  | false => exact (doc.attribute?_erase ..).trans (if_neg fun same => different same.2)

end

/-! ## Many attributes -/

def setAttributes (doc : Document) (el : ElementId) (entries : List (String × String)) : Document :=
  entries.foldl (fun doc entry => doc.setAttribute el entry.1 entry.2) doc

section
variable {doc : Document} {el : ElementId}

theorem element?_of_contains (there : doc.contains el) : ∃ e, doc.element? el = some e := by
  unfold contains size at there
  exact Option.isSome_iff_exists.mp (by simpa [element?] using there)

theorem isSome_element?_setAttribute (name value : String)
    (present : (doc.element? el).isSome = true) :
    ((doc.setAttribute el name value).element? el).isSome = true := by
  simpa [setAttribute, element?_modify] using present

theorem attributes_setAttribute (name value : String) (present : (doc.element? el).isSome = true) :
    (doc.setAttribute el name value).attributes el =
      Element.setEntry name value (doc.attributes el) := by
  obtain ⟨e, found⟩ := Option.isSome_iff_exists.mp present
  simp [attributes, setAttribute, element?_modify, found, Element.setAttribute]

theorem attribute?_setAttribute (name other value : String)
    (present : (doc.element? el).isSome = true) :
    (doc.setAttribute el name value).attribute? el other =
      if name = other then some value else doc.attribute? el other := by
  obtain ⟨e, found⟩ := Option.isSome_iff_exists.mp present
  simp [attribute?_write, found]

theorem attribute?_setAttributes_of_not_mem {entries : List (String × String)} {name : String}
    (present : (doc.element? el).isSome = true) (absent : name ∉ entries.map (·.1)) :
    (doc.setAttributes el entries).attribute? el name = doc.attribute? el name := by
  induction entries generalizing doc with
  | nil => rfl
  | cons entry rest ih =>
    obtain ⟨other, absent⟩ := not_or.mp (List.mem_cons.not.mp absent)
    have others := ih (isSome_element?_setAttribute entry.1 entry.2 present) absent
    rwa [attribute?_setAttribute _ _ _ present, if_neg (Ne.symm other)] at others

/-- An attribute that is set once has the value that it is given. -/
theorem attribute?_setAttributes {entries : List (String × String)} {name value : String}
    (present : (doc.element? el).isSome = true) (distinct : (entries.map (·.1)).Nodup)
    (mem : (name, value) ∈ entries) :
    (doc.setAttributes el entries).attribute? el name = some value := by
  induction entries generalizing doc with
  | nil => cases mem
  | cons entry rest ih =>
    obtain ⟨fresh, distinct⟩ := List.nodup_cons.mp distinct
    have present' := isSome_element?_setAttribute entry.1 entry.2 present
    rcases List.mem_cons.mp mem with rfl | mem
    · have last := attribute?_setAttributes_of_not_mem present' fresh
      rwa [attribute?_setAttribute _ _ _ present, if_pos rfl] at last
    · exact ih present' distinct mem

theorem gathered_setAttributes {read : String → Option String}
    {entries : List (String × String)} (present : (doc.element? el).isSome = true)
    (distinct : (entries.map (·.1)).Nodup)
    (clear : ∀ own ∈ doc.attributes el, read own.1 = none ∨ own.1 ∉ entries.map (·.1)) :
    gathered read ((doc.setAttributes el entries).attributes el) =
      gathered read (doc.attributes el) ++ gathered read entries := by
  induction entries generalizing doc with
  | nil => simp [setAttributes, gathered]
  | cons entry rest ih =>
    obtain ⟨fresh, distinct⟩ := List.nodup_cons.mp distinct
    have attributes := attributes_setAttribute entry.1 entry.2 present
    have clear' : ∀ own ∈ (doc.setAttribute el entry.1 entry.2).attributes el,
        read own.1 = none ∨ own.1 ∉ rest.map (·.1) := by
      rw [attributes]
      intro own mem
      rcases Element.name_of_mem_setEntry mem with same | old
      · exact .inr (same ▸ fresh)
      · exact (clear own old).imp_right fun absent mem => absent (List.mem_cons_of_mem _ mem)
    have first : read entry.1 = none ∨ ∀ own ∈ doc.attributes el, own.1 ≠ entry.1 := by
      by_cases unread : read entry.1 = none
      · exact .inl unread
      · refine .inr fun own mem same => ?_
        rcases clear own mem with none | absent
        · exact unread (same ▸ none)
        · exact absent (by simp [same])
    have whole := ih (isSome_element?_setAttribute _ _ present) distinct clear'
    rwa [attributes, Element.gathered_setEntry _ first, List.append_assoc, ← gathered_append,
      List.singleton_append] at whole

end

end Document

end FormDependencies
