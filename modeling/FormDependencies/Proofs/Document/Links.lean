import FormDependencies.Proofs.Document.Complete
import FormDependencies.Proofs.Document.Preorder
import Mathlib.Logic.Relation

/-!
A tree as links: every element names its parent and lists its children. Edits write single links,
one after the other, and the tree is read by loops that follow links until they come to an end.
-/

namespace FormDependencies

structure Node where
  parent : Option ElementId := none
  children : List ElementId := []

structure Links where
  node? : ElementId → Option Node
  /-- The number of the element that is created next. -/
  nextId : Nat

namespace Links

def new : Links where
  node? el := if el = .root then some {} else none
  nextId := 1

def contains (l : Links) (el : ElementId) : Bool := (l.node? el).isSome

def parent? (l : Links) (el : ElementId) : Option ElementId := (l.node? el).bind (·.parent)

def children (l : Links) (el : ElementId) : List ElementId :=
  ((l.node? el).map (·.children)).getD []

def setParent (l : Links) (el : ElementId) (parent : Option ElementId) : Links :=
  { l with
    node? := fun other =>
      (l.node? other).map fun n => if other = el then { n with parent } else n }

def mapChildren (l : Links) (el : ElementId) (change : List ElementId → List ElementId) : Links :=
  { l with
    node? := fun other =>
      (l.node? other).map fun n =>
        if other = el then { n with children := change n.children } else n }

section
variable (l : Links) (el other : ElementId) (parent : Option ElementId)
  (change : List ElementId → List ElementId)

@[simp] theorem contains_setParent : (l.setParent el parent).contains other = l.contains other := by
  simp [contains, setParent]

@[simp] theorem contains_mapChildren :
    (l.mapChildren el change).contains other = l.contains other := by
  simp [contains, mapChildren]

@[simp] theorem children_setParent : (l.setParent el parent).children other = l.children other := by
  unfold children setParent
  cases found : l.node? other with
  | none => simp [found]
  | some n => simp only [found, Option.map_some]; split <;> rfl

@[simp] theorem parent?_mapChildren :
    (l.mapChildren el change).parent? other = l.parent? other := by
  unfold parent? mapChildren
  cases found : l.node? other with
  | none => simp [found]
  | some n => simp only [found, Option.map_some, Option.bind_some]; split <;> rfl

end

theorem parent?_setParent (l : Links) {el : ElementId} (there : l.contains el)
    (parent : Option ElementId) (other : ElementId) :
    (l.setParent el parent).parent? other = if other = el then parent else l.parent? other := by
  obtain ⟨n, found⟩ := Option.isSome_iff_exists.mp there
  unfold parent? setParent
  by_cases own : other = el
  · simp [own, found]
  · simp [own]

theorem children_mapChildren (l : Links) {el : ElementId} (there : l.contains el)
    (change : List ElementId → List ElementId) (other : ElementId) :
    (l.mapChildren el change).children other =
      if other = el then change (l.children el) else l.children other := by
  obtain ⟨n, found⟩ := Option.isSome_iff_exists.mp there
  unfold children mapChildren
  by_cases own : other = el
  · simp [own, found]
  · simp [own]

/-! ## Loops -/

/-- Follows the parents until the test holds; none when it has not come to an end after `fuel`
rounds. -/
def climb? (l : Links) (test : ElementId → Bool) :
    Nat → Option ElementId → Option (Option ElementId)
  | _, none => some none
  | 0, some _ => none
  | fuel + 1, some el => if test el then some (some el) else l.climb? test fuel (l.parent? el)

def chain? (l : Links) : Nat → Option ElementId → Option (List ElementId)
  | _, none => some []
  | 0, some _ => none
  | fuel + 1, some el => (l.chain? fuel (l.parent? el)).map (el :: ·)

/-- Takes elements from a stack and puts their children there, until it is empty. -/
def walk? (l : Links) : Nat → List ElementId → Option (List ElementId)
  | _, [] => some []
  | 0, _ :: _ => none
  | fuel + 1, el :: stack => (l.walk? fuel (l.children el ++ stack)).map (el :: ·)

-- No loop may take more rounds than there are elements.

def ancestors? (l : Links) (el : ElementId) : Option (List ElementId) :=
  l.chain? l.nextId (l.parent? el)

def isAttached? (l : Links) (el : ElementId) : Option Bool :=
  if l.contains el then (l.climb? (· == .root) l.nextId (some el)).map (·.isSome) else some false

def isWithin? (l : Links) (el ancestor : ElementId) : Option Bool :=
  if el == ancestor && l.contains el then some true
  else (l.climb? (· == ancestor) l.nextId (l.parent? el)).map (·.isSome)

def closest? (l : Links) (el : ElementId) (test : ElementId → Bool) : Option (Option ElementId) :=
  if l.contains el then l.climb? test l.nextId (some el) else some none

def descendants? (l : Links) (el : ElementId) : Option (List ElementId) :=
  l.walk? l.nextId (l.children el)

/-! ## Edits -/

def create (l : Links) : Links where
  node? el := if el = ⟨l.nextId⟩ then some {} else l.node? el
  nextId := l.nextId + 1

def detach (l : Links) (el : ElementId) : Links :=
  match l.parent? el with
  | none => l
  | some parent =>
    (l.setParent el none).mapChildren parent fun row => row.filter (· != el)

def move (l : Links) (parent child : ElementId) (place : List ElementId → List ElementId) :
    Links :=
  ((l.detach child).mapChildren parent place).setParent child (some parent)

def canAdopt? (l : Links) (parent child : ElementId) : Option Bool :=
  if l.contains parent && l.contains child && child != .root then
    (l.isWithin? parent child).map (!·)
  else some false

/-- What an edit does to the links; none when a loop does not end. -/
def edit? (l : Links) : Edit → Option Links
  | .create _ => some l.create
  | .append parent child => do
    if ← l.canAdopt? parent child then return l.move parent child (· ++ [child]) else return l
  | .insertBefore parent child reference => do
    if (← l.canAdopt? parent child) && child != reference then
      return l.move parent child fun row => row.insertIdx (row.idxOf reference) child
    else return l
  | .remove el => if el = .root then some l else some (l.detach el)
  | .setAttribute .. | .removeAttribute .. | .setChecked .. | .setValue .. | .setPending ..
  | .markReady _ | .trigger .. | .nextEvent | .takeEvents => some l

def editAll? (l : Links) (edits : List Edit) : Option Links := edits.foldlM edit? l

theorem edit?_of_keepsTree (l : Links) {edit : Edit} (keeps : edit.keepsTree) :
    l.edit? edit = some l := by
  cases edit with
  | create | append | insertBefore | remove => cases keeps
  | _ => rfl

/-! ## Links in order -/

/-- Both kinds of links tell of the same tree. -/
def Agrees (l : Links) : Prop := ∀ parent el, el ∈ l.children parent ↔ l.parent? el = some parent

structure Sound (l : Links) : Prop where
  root : l.contains .root
  top : l.parent? .root = none
  /-- The number of the next element is free. -/
  below : ∀ el, l.contains el → el.number < l.nextId
  known : ∀ parent, ∀ el ∈ l.children parent, l.contains el
  distinct : ∀ parent, (l.children parent).Nodup
  agrees : l.Agrees
  unique : ∀ parent parent' el, el ∈ l.children parent → el ∈ l.children parent' →
    parent = parent'
  acyclic : ∀ el, ¬Relation.TransGen (fun el parent => l.parent? el = some parent) el el

/-- Links that list the same children and agree with that have the same parents. -/
theorem ext_children {l l' : Links} (nextId : l.nextId = l'.nextId)
    (contains : ∀ el, l.contains el = l'.contains el)
    (children : ∀ el, l.children el = l'.children el) (agrees : l.Agrees) (agrees' : l'.Agrees) :
    l = l' := by
  have parents : ∀ el, l.parent? el = l'.parent? el := by
    intro el
    apply Option.ext
    intro parent
    rw [← agrees, ← agrees', children]
  have nodes : l.node? = l'.node? := by
    funext el
    have there := contains el
    have row := children el
    have above := parents el
    unfold Links.contains at there
    unfold Links.children at row
    unfold parent? at above
    cases found : l.node? el with
    | none =>
      rw [found] at there
      exact (Option.not_isSome_iff_eq_none.mp (by rw [← there]; exact Bool.false_ne_true)).symm
    | some n =>
      cases found' : l'.node? el with
      | none => simp [found, found'] at there
      | some n' =>
        simp only [found, found', Option.map_some, Option.getD_some, Option.bind_some] at row above
        obtain ⟨parent, row'⟩ := n
        obtain rfl : parent = n'.parent := above
        obtain rfl : row' = n'.children := row
        rfl
  obtain ⟨node?, count⟩ := l
  obtain rfl : node? = l'.node? := nodes
  obtain rfl : count = l'.nextId := nextId
  rfl

section
variable {l : Links}

theorem contains_of_parent? {el parent : ElementId} (above : l.parent? el = some parent) :
    l.contains el := by
  unfold contains
  unfold parent? at above
  cases found : l.node? el with
  | none => simp [found] at above
  | some n => rfl

theorem contains_create (l : Links) (other : ElementId) :
    l.create.contains other = (other == ⟨l.nextId⟩ || l.contains other) := by
  unfold contains create
  by_cases own : other = ⟨l.nextId⟩ <;> simp [own]

theorem parent?_create (fresh : l.node? ⟨l.nextId⟩ = none) (other : ElementId) :
    l.create.parent? other = l.parent? other := by
  unfold parent? create
  by_cases own : other = ⟨l.nextId⟩
  · simp [own, fresh]
  · simp [own]

theorem children_create (fresh : l.node? ⟨l.nextId⟩ = none) (other : ElementId) :
    l.create.children other = l.children other := by
  unfold children create
  by_cases own : other = ⟨l.nextId⟩
  · simp [own, fresh]
  · simp [own]

theorem Agrees.create (agrees : l.Agrees) (fresh : l.node? ⟨l.nextId⟩ = none) :
    l.create.Agrees := by
  intro parent el
  rw [children_create fresh, parent?_create fresh, agrees]

@[simp] theorem nextId_detach (l : Links) (el : ElementId) : (l.detach el).nextId = l.nextId := by
  unfold detach
  split
  · rfl
  · rfl

@[simp] theorem contains_detach (l : Links) (el other : ElementId) :
    (l.detach el).contains other = l.contains other := by
  unfold detach
  split
  · rfl
  · simp

theorem contains_of_mem_children {el parent : ElementId} (mem : el ∈ l.children parent) :
    l.contains parent := by
  unfold contains
  unfold children at mem
  cases found : l.node? parent with
  | none => simp [found] at mem
  | some n => rfl

theorem parent?_detach (l : Links) (el other : ElementId) :
    (l.detach el).parent? other = if other = el then none else l.parent? other := by
  unfold detach
  split
  · next top =>
    split
    · next own => rw [own, top]
    · rfl
  · next parent above => rw [parent?_mapChildren, parent?_setParent l (contains_of_parent? above)]

theorem Agrees.children_detach (agrees : l.Agrees) (el other : ElementId) :
    (l.detach el).children other = (l.children other).filter (· != el) := by
  unfold detach
  split
  · next top =>
    have absent : el ∉ l.children other := fun mem => by simp [(agrees ..).mp mem] at top
    rw [Forest.filter_of_not_mem absent]
  · next parent above =>
    have there := contains_of_mem_children ((agrees ..).mpr above)
    rw [children_mapChildren _ (by simpa using there), children_setParent, children_setParent]
    split
    · next own => rw [own]
    · next apart =>
      have absent : el ∉ l.children other := fun mem =>
        apart (Option.some.inj (((agrees ..).mp mem).symm.trans above))
      rw [Forest.filter_of_not_mem absent]

theorem Agrees.detach (agrees : l.Agrees) (el : ElementId) : (l.detach el).Agrees := by
  intro parent other
  rw [agrees.children_detach, parent?_detach, List.mem_filter, agrees]
  by_cases own : other = el
  · simp [own]
  · simp [own]

section
variable {parent child : ElementId} {place : List ElementId → List ElementId}

@[simp] theorem nextId_move (l : Links) (parent child : ElementId)
    (place : List ElementId → List ElementId) : (l.move parent child place).nextId = l.nextId :=
  l.nextId_detach child

@[simp] theorem contains_move (l : Links) (parent child : ElementId)
    (place : List ElementId → List ElementId) (other : ElementId) :
    (l.move parent child place).contains other = l.contains other := by
  simp [move]

theorem parent?_move (there : l.contains child) (other : ElementId) :
    (l.move parent child place).parent? other =
      if other = child then some parent else l.parent? other := by
  unfold move
  rw [parent?_setParent _ (by simpa using there), parent?_mapChildren, parent?_detach]
  split
  · rfl
  · rfl

theorem Agrees.children_move (agrees : l.Agrees) (target : l.contains parent)
    (other : ElementId) :
    (l.move parent child place).children other =
      if other = parent then place ((l.children parent).filter (· != child))
      else (l.children other).filter (· != child) := by
  unfold move
  rw [children_setParent, children_mapChildren _ (by simpa using target),
    agrees.children_detach, agrees.children_detach]

theorem Agrees.move (agrees : l.Agrees) (target : l.contains parent) (there : l.contains child)
    (puts : ∀ row el, el ∈ place row ↔ el = child ∨ el ∈ row) :
    (l.move parent child place).Agrees := by
  intro other el
  rw [agrees.children_move target, parent?_move there]
  by_cases own : el = child
  · by_cases inside : other = parent
    · simp [own, inside, puts]
    · simp [own, inside, Ne.symm inside]
  · by_cases inside : other = parent
    · simp [own, inside, puts, agrees parent el]
    · simp [own, inside, agrees other el]

end

end

/-! ## Loops -/

def Climbs (l : Links) (start : Option ElementId) : List ElementId → Prop
  | [] => start = none
  | el :: rest => start = some el ∧ l.Climbs (l.parent? el) rest

section
variable {l : Links} {start : Option ElementId} {above : List ElementId} {fuel : Nat}

theorem chain?_eq (climbs : l.Climbs start above) (enough : above.length ≤ fuel) :
    l.chain? fuel start = some above := by
  induction above generalizing start fuel with
  | nil =>
    obtain rfl : start = none := climbs
    rw [chain?]
  | cons el rest ih =>
    obtain ⟨rfl, climbs⟩ := climbs
    obtain ⟨less, rfl⟩ := Nat.exists_eq_succ_of_ne_zero (Nat.ne_zero_of_lt enough)
    rw [chain?, ih climbs (Nat.le_of_succ_le_succ enough)]
    rfl

theorem climb?_eq (climbs : l.Climbs start above) (enough : above.length ≤ fuel)
    (test : ElementId → Bool) : l.climb? test fuel start = some (above.find? test) := by
  induction above generalizing start fuel with
  | nil =>
    obtain rfl : start = none := climbs
    rw [climb?]
    rfl
  | cons el rest ih =>
    obtain ⟨rfl, climbs⟩ := climbs
    obtain ⟨less, rfl⟩ := Nat.exists_eq_succ_of_ne_zero (Nat.ne_zero_of_lt enough)
    rw [climb?, List.find?_cons, ih climbs (Nat.le_of_succ_le_succ enough)]
    cases test el with
    | true => rfl
    | false => rfl

/-- A walk meets what is below a row as a recursion does, and goes on with what was on the stack
before. -/
theorem walk?_of_preorder {row els : List ElementId} (met : Preorder l.children row els)
    (fuel : Nat) (stack : List ElementId) :
    l.walk? (els.length + fuel) (row ++ stack) = (l.walk? fuel stack).map (els ++ ·) := by
  induction met generalizing fuel stack with
  | nil => simp
  | @cons el row below after _ _ ihb iha =>
    have rounds : (el :: (below ++ after)).length + fuel =
        below.length + (after.length + fuel) + 1 := by
      simp only [List.length_cons, List.length_append]
      omega
    rw [rounds, List.cons_append, walk?, ihb, iha]
    cases l.walk? fuel stack <;> simp

end

end Links

end FormDependencies
