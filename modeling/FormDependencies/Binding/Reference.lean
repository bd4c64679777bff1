import FormDependencies.Binding.Basic
import FormDependencies.Text.Split

/-!
References: which element stands for a name.

An element declares a reference by an attribute. A reference whose element is no longer attached is
reclaimed: its slot becomes undefined and the epoch of its name advances, so that whoever read it
looks again. Only attached elements are found.
-/

namespace FormDependencies

namespace Document

def dropDotSlashes : List Char → List Char
  | '.' :: '/' :: rest => dropDotSlashes rest
  | cs => cs

/-- The name of the reference that an element declares: that of the reference attribute, or when it
is blank the name of the field without its path. -/
def referenceName (doc : Document) (el : ElementId) (config : Config) : String :=
  let declared := Text.trim ((doc.attribute? el config.referenceAttribute).getD "")
  if declared.isEmpty then
    let name := (doc.attribute? el "name").getD ""
    String.ofList (dropDotSlashes (Text.trimChars name.toList))
  else declared

end Document

namespace Bindings
variable {ν : Type}

def reference? (b : Bindings ν) (el : ElementId) : Option Reference :=
  b.references.find? fun r => r.element == el

def placeReference (added : Reference) : List Reference → List Reference
  | [] => [added]
  | r :: rest =>
    if r.element = added.element then added :: rest
    else if added.element.number < r.element.number then added :: r :: rest
    else r :: placeReference added rest

def addReference (b : Bindings ν) (el : ElementId) (name : String) (type : RefType)
    (value : Value) : Bindings ν :=
  let (b, slot) := b.newSlot value
  bump { b with references := placeReference ⟨el, name, type, slot⟩ b.references } name

/-- Takes a reference away: its slot becomes undefined and the epoch of its name advances. -/
def dropReference (b : Bindings ν) (r : Reference) : Bindings ν :=
  let b := { b with references := b.references.filter fun other => other.element != r.element }
  (b.write r.slot .undefined).1.bump r.name

/-- The type that an element declares for its reference; an unknown one is logged and ignored. -/
def declaredType (b : Bindings ν) (doc : Document) (el : ElementId) (config : Config) :
    Bindings ν × RefType :=
  match doc.attribute? el config.refTypeAttribute with
  | none => (b, .auto)
  | some text =>
    match RefType.parse text with
    | .ok type => (b, type)
    | .error e => (b.log (.invalidType el e), .auto)

/-- Gives an element a reference of a name and type. A reference of the same name and type is kept
and only gets the value; any other one is replaced. -/
def placeDeclaration (b : Bindings ν) (el : ElementId) (name : String) (type : RefType)
    (value : Value) : Bindings ν :=
  match b.reference? el with
  | some r =>
    if r.name = name ∧ r.type = type then (b.write r.slot value).1
    else ((b.log (.redeclared el r.name name)).dropReference r).addReference el name type value
  | none => (b.log (.registered el name type)).addReference el name type value

/-- Registers the reference that an element declares, or brings it up to date. A declaration of the
same name and type keeps the reference and only reads the value again. An element whose name is
invalid gets no reference. -/
def register (b : Bindings ν) (doc : Document) (accessors : AccessorTable) (config : Config)
    (el : ElementId) : Bindings ν × Option Reference :=
  let name := doc.referenceName el config
  if !ReferenceName.isValid name then (b.log (.invalidName el name), none)
  else
    let (b, type) := b.declaredType doc el config
    let value := accessors.getTyped doc el type
    let b := b.logCast (accessors.castFailure? doc el type)
    let b := b.placeDeclaration el name type value
    (b, b.reference? el)

/-- Reclaims the references of elements that are not attached. The answer is their number. -/
def actualizeReferences (b : Bindings ν) (doc : Document) : Bindings ν × Nat :=
  let stale := b.references.filter fun r => !doc.isAttached r.element
  let b := stale.foldl dropReference b
  (if stale.isEmpty then b else b.log (.reclaimed stale.length b.references.length), stale.length)

/-- Reads the value of a reference again. The answer says whether it changed. -/
def reread (b : Bindings ν) (doc : Document) (accessors : AccessorTable) (r : Reference) :
    Bindings ν × Bool :=
  let value := accessors.getTyped doc r.element r.type
  let b := b.logCast (accessors.castFailure? doc r.element r.type)
  (b.log (.reread r.element r.name value)).write r.slot value

/-- Reads the references of elements again; gives the names of those that changed. -/
def rereadEach (b : Bindings ν) (doc : Document) (accessors : AccessorTable) :
    List ElementId → Bindings ν × List String
  | [] => (b, [])
  | el :: rest =>
    match b.reference? el with
    | none => b.rereadEach doc accessors rest
    | some r =>
      let (b, changed) := b.reread doc accessors r
      let (b, names) := b.rereadEach doc accessors rest
      (b, if changed then r.name :: names else names)

/-- Reads the references of an element and of its ancestors again; gives the names of those that
changed, from the element outwards. -/
def referencesChanged (b : Bindings ν) (doc : Document) (accessors : AccessorTable)
    (target : ElementId) : Bindings ν × List String :=
  b.rereadEach doc accessors (target :: doc.ancestors target)

def candidates (b : Bindings ν) (doc : Document) (name : String) : List ElementId :=
  (b.references.filter fun r => r.name == name && doc.isAttached r.element).map (·.element)

/-- The first of some elements within the subtree of another, in document order. -/
def firstWithin? (doc : Document) (found : List ElementId) (root : ElementId) :
    Option ElementId :=
  (root :: doc.descendants root).find? found.contains

/-- Finds the reference of a name from an element: the first one within the scope, or without a
scope the first one within the nearest ancestor that has any. A single reference of the name needs
no search. -/
def resolve (b : Bindings ν) (doc : Document) (origin : ElementId) (name : String)
    (scope : Option ElementId) : Option Reference :=
  let found := b.candidates doc name
  let el := match found, scope with
    | [], _ => none
    | _, some root => firstWithin? doc found root
    | [only], none => some only
    | _, none => (origin :: doc.ancestors origin).findSome? (firstWithin? doc found)
  el.bind b.reference?

/-- The references of a name within the subtree of an element, in document order. -/
def namedWithin (b : Bindings ν) (doc : Document) (scope : ElementId) (name : String) :
    List Reference :=
  ((scope :: doc.descendants scope).filterMap b.reference?).filter fun r => r.name == name

end Bindings

end FormDependencies
