import FormDependencies.Document.Event

/-!
Ordered forests of elements. A forest is a row of trees; `tree r below next` is the tree of root `r`
over the forest `below`, followed by the trees of `next`. Every search and every traversal is a
recursion on the forest, so none needs a bound.
-/

namespace FormDependencies

inductive Forest where
  | nil
  | tree (root : ElementId) (below next : Forest)

namespace Forest

/-- All elements in document order: each before those below it, and those before the next tree. -/
def elements : Forest → List ElementId
  | .nil => []
  | .tree r below next => r :: (below.elements ++ next.elements)

def roots : Forest → List ElementId
  | .nil => []
  | .tree r _ next => r :: next.roots

def below? (el : ElementId) : Forest → Option Forest
  | .nil => none
  | .tree r below next =>
    if r = el then some below else (below.below? el).orElse fun _ => next.below? el

def above? (el : ElementId) : Forest → Option (List ElementId)
  | .nil => none
  | .tree r below next =>
    if r = el then some []
    else match below.above? el with
      | some above => some (above ++ [r])
      | none => next.above? el

def append : Forest → Forest → Forest
  | .nil, g => g
  | .tree r below next, g => .tree r below (next.append g)

def single (r : ElementId) (below : Forest) : Forest := .tree r below .nil

/-- Takes an element out, with all that is below it. -/
def erase (el : ElementId) : Forest → Forest
  | .nil => .nil
  | .tree r below next =>
    if r = el then next.erase el else .tree r (below.erase el) (next.erase el)

def modifyBelow (el : ElementId) (change : Forest → Forest) : Forest → Forest
  | .nil => .nil
  | .tree r below next =>
    .tree r (if r = el then change below else below.modifyBelow el change)
      (next.modifyBelow el change)

/-- Puts a row in front of the tree of root `reference`, at the end when the row has no such
root. -/
def insertBefore (added : Forest) (reference : ElementId) : Forest → Forest
  | .nil => added
  | .tree r below next =>
    if r = reference then added.append (.tree r below next)
    else .tree r below (insertBefore added reference next)

@[simp] theorem elements_append (f g : Forest) :
    (f.append g).elements = f.elements ++ g.elements := by
  induction f with
  | nil => rfl
  | tree r below next _ ih => simp [append, elements, ih]

@[simp] theorem elements_single (r : ElementId) (below : Forest) :
    (single r below).elements = r :: below.elements := by
  simp [single, elements]

@[simp] theorem roots_append (f g : Forest) : (f.append g).roots = f.roots ++ g.roots := by
  induction f with
  | nil => rfl
  | tree r below next _ ih => simp [append, roots, ih]

theorem not_mem_elements_erase (f : Forest) (el : ElementId) : el ∉ (f.erase el).elements := by
  induction f with
  | nil => simp [erase, elements]
  | tree r below next ihb ihn =>
    unfold erase
    split
    · exact ihn
    · next h => simp [elements, ihb, ihn, Ne.symm h]

theorem isSome_below? (f : Forest) (el : ElementId) :
    (f.below? el).isSome ↔ el ∈ f.elements := by
  induction f with
  | nil => simp [below?, elements]
  | tree r below next ihb ihn =>
    by_cases h : r = el
    · simp [below?, elements, h]
    · simp [below?, elements, h, Ne.symm h, ← ihb, ← ihn]

theorem isSome_above? (f : Forest) (el : ElementId) :
    (f.above? el).isSome ↔ el ∈ f.elements := by
  induction f with
  | nil => simp [above?, elements]
  | tree r below next ihb ihn =>
    by_cases h : r = el
    · simp [above?, elements, h]
    · cases hb : below.above? el with
      | none =>
        have absent : el ∉ below.elements := fun h => by simpa [hb] using ihb.mpr h
        simp [above?, elements, h, Ne.symm h, hb, absent, ihn]
      | some above =>
        simp [above?, elements, h, hb, ihb.mp (by simp [hb])]

end Forest

end FormDependencies
