import FormDependencies.Binding.Reference
import FormDependencies.Proofs.Action.Effect
import FormDependencies.Proofs.Binding.Lifecycle
import FormDependencies.Proofs.Declaration.Naming
import FormDependencies.Proofs.Document.Forest

/-!
Inert changes of a document: those that leave alone what elements declare. Under the standard
configuration none of the attributes that actions and accessors write belongs to a declaration, so
that all built-in ones are inert.
-/

namespace FormDependencies

def writtenAttributes : List String :=
  Config.standard.controllableAttribute :: Config.standard.validationMessageAttribute ::
    fieldAttributes

namespace Element

/-- The attributes that nothing writes but the host. -/
def declaring (attributes : List (String × String)) : List (String × String) :=
  attributes.filter fun entry => !writtenAttributes.contains entry.1

theorem declaring_setEntry {name : String} (written : name ∈ writtenAttributes) (value : String)
    (entries : List (String × String)) :
    declaring (setEntry name value entries) = declaring entries := by
  induction entries with
  | nil => simp [setEntry, declaring, written]
  | cons entry rest ih =>
    unfold setEntry
    split
    · next same => simp [declaring, same, written]
    · simp only [declaring, List.filter_cons] at ih ⊢
      rw [ih]

theorem declaring_removeAttribute (e : Element) {name : String}
    (written : name ∈ writtenAttributes) :
    declaring (e.removeAttribute name).attributes = declaring e.attributes := by
  simp only [declaring, removeAttribute, List.filter_filter]
  apply List.filter_congr
  intro entry _
  by_cases same : entry.1 = name <;> simp [same, written]

end Element

structure Document.SameDeclarations (doc doc' : Document) : Prop where
  forest : doc'.forest = doc.forest
  size : doc'.size = doc.size
  attributes : ∀ el, Element.declaring (doc'.attributes el) = Element.declaring (doc.attributes el)

namespace Document

theorem attribute?_eq (doc : Document) (el : ElementId) (name : String) :
    doc.attribute? el name =
      ((doc.attributes el).find? fun entry => entry.1 == name).map (·.2) := by
  unfold attribute? attributes
  cases doc.element? el <;> rfl

namespace SameDeclarations
variable {doc doc' doc'' : Document}

theorem refl (doc : Document) : SameDeclarations doc doc := ⟨rfl, rfl, fun _ => rfl⟩

theorem symm (h : SameDeclarations doc doc') : SameDeclarations doc' doc :=
  ⟨h.forest.symm, h.size.symm, fun el => (h.attributes el).symm⟩

theorem trans (first : SameDeclarations doc doc') (second : SameDeclarations doc' doc'') :
    SameDeclarations doc doc'' :=
  ⟨second.forest.trans first.forest, second.size.trans first.size,
    fun el => (second.attributes el).trans (first.attributes el)⟩

theorem modify (doc : Document) (el : ElementId) {change : Element → Element}
    (keeps : ∀ e, Element.declaring (change e).attributes = Element.declaring e.attributes) :
    SameDeclarations doc (doc.modify el change) := by
  refine ⟨rfl, Array.size_modify .., fun other => ?_⟩
  unfold Document.attributes
  rw [element?_modify]
  split
  · cases doc.element? other with
    | none => rfl
    | some e => exact keeps e
  · rfl

theorem permits : Permits SameDeclarations (· = Config.standard) (· ∈ writtenAttributes) where
  refl := refl
  trans := trans
  setAttribute doc el _ value written :=
    modify doc el fun e => Element.declaring_setEntry written value e.attributes
  removeAttribute doc el _ written :=
    modify doc el fun e => e.declaring_removeAttribute written
  setChecked doc el _ := modify doc el fun _ => rfl
  setValue doc el _ := modify doc el fun _ => rfl
  trigger doc el kind _ := by
    unfold Document.trigger
    split
    · exact ⟨rfl, rfl, fun _ => rfl⟩
    · exact refl doc
  field _ mem := List.mem_cons_of_mem _ (List.mem_cons_of_mem _ mem)
  named config standard :=
    standard ▸ ⟨List.mem_cons_self, List.mem_cons_of_mem _ List.mem_cons_self⟩

/-! ## What stays as it is -/

theorem sameTree (h : SameDeclarations doc doc') : SameTree doc doc' :=
  ⟨h.forest, h.size⟩

theorem isAttached (h : SameDeclarations doc doc') (el : ElementId) :
    doc'.isAttached el = doc.isAttached el :=
  h.sameTree.isAttached el

theorem attribute? (h : SameDeclarations doc doc') (el : ElementId) {name : String}
    (declaring : name ∉ writtenAttributes) :
    doc'.attribute? el name = doc.attribute? el name := by
  have filtered : ∀ entries : List (String × String),
      entries.find? (fun entry => entry.1 == name) =
        (Element.declaring entries).find? fun entry => entry.1 == name := by
    intro entries
    rw [Element.declaring, List.find?_filter]
    congr 1
    funext entry
    by_cases same : entry.1 = name <;> simp [same, declaring]
  rw [attribute?_eq, attribute?_eq, filtered (doc'.attributes el), h.attributes, ← filtered]

theorem hasAttribute (h : SameDeclarations doc doc') (el : ElementId) {name : String}
    (declaring : name ∉ writtenAttributes) :
    doc'.hasAttribute el name = doc.hasAttribute el name :=
  congrArg Option.isSome (h.attribute? el declaring)

theorem attributeOrEmpty (h : SameDeclarations doc doc') (el : ElementId) {name : String}
    (declaring : name ∉ writtenAttributes) :
    doc'.attributeOrEmpty el name = doc.attributeOrEmpty el name :=
  congrArg (Option.getD · "") (h.attribute? el declaring)

theorem targetOf (h : SameDeclarations doc doc') (el : ElementId) :
    Bindings.targetOf doc' el .standard = Bindings.targetOf doc el .standard := by
  unfold Bindings.targetOf
  rw [h.attributeOrEmpty el (by decide)]

/-- No attribute that is written is a parameter of a built-in action. -/
theorem parameterName?_written {action : String}
    (known : action ∈ (ActionTable.builtin : ActionTable Unit).names) (index : Nat) {name : String}
    (written : name ∈ writtenAttributes) :
    Declaration.parameterName? (Config.standard.parameterStart ++ action ++ "-").toList index
      name = none := by
  have apart : ∀ action ∈ (ActionTable.builtin : ActionTable Unit).names,
      ∀ name ∈ writtenAttributes, Text.dropStart?
        (Config.standard.parameterStart ++ action ++ "-").toList name.toList = none := by decide
  unfold Declaration.parameterName?
  rw [apart action known name written]

theorem parametersOf (h : SameDeclarations doc doc') (el : ElementId) {action : String}
    (known : action ∈ (ActionTable.builtin : ActionTable Unit).names) (index : Nat) :
    Declaration.parametersOf (doc'.attributes el) .standard action index =
      Declaration.parametersOf (doc.attributes el) .standard action index := by
  let read := fun entry : String × String =>
    (Declaration.parameterName? (Config.standard.parameterStart ++ action ++ "-").toList index
      entry.1).map fun name => (name, entry.2)
  have filtered : ∀ entries : List (String × String),
      entries.filterMap read = (Element.declaring entries).filterMap read := by
    intro entries
    rw [Element.declaring, List.filterMap_filter]
    congr 1
    funext entry
    by_cases written : entry.1 ∈ writtenAttributes
    · have none : read entry = none := by
        simp only [read]
        rw [parameterName?_written known index written, Option.map_none]
      simp [written, none]
    · simp [written]
  have same : (doc'.attributes el).filterMap read = (doc.attributes el).filterMap read := by
    rw [filtered (doc'.attributes el), h.attributes, ← filtered]
  exact congrArg KeyedList.ofList same

theorem withParameters (h : SameDeclarations doc doc') (el : ElementId)
    (pairings : List (String × String)) (earlier : List String)
    (known : ∀ p ∈ pairings, p.2 ∈ (ActionTable.builtin : ActionTable Unit).names) :
    Declaration.withParameters (doc'.attributes el) .standard earlier pairings =
      Declaration.withParameters (doc.attributes el) .standard earlier pairings := by
  induction pairings generalizing earlier with
  | nil => rfl
  | cons p rest ih =>
    simp only [Declaration.withParameters]
    rw [h.parametersOf el (known p List.mem_cons_self),
      ih (p.2 :: earlier) fun q mem => known q (List.mem_cons_of_mem _ mem)]

theorem map_withParameters (attributes : List (String × String)) (config : Config)
    (pairings : List (String × String)) (earlier : List String) :
    (Declaration.withParameters attributes config earlier pairings).map (·.action) =
      pairings.map (·.2) := by
  have pairs := Declaration.pairs_withParameters attributes config pairings earlier
  simpa [Function.comp_def] using congrArg (List.map Prod.snd) pairs

theorem mem_names_of_get {ν : Type} {name : String} {action : Action ν}
    (found : ActionTable.builtin.get name = .ok action) :
    name ∈ (ActionTable.builtin : ActionTable Unit).names := by
  have listed : name ∈ (ActionTable.builtin : ActionTable ν).names := by
    unfold ActionTable.get at found
    split at found
    · next entry there =>
      have same : entry.1 = name := by simpa using List.find?_some there
      exact same ▸ List.mem_map_of_mem (List.mem_of_find?_eq_some there)
    · cases found
  exact listed

/-- What an element declares with actions that are there stays as it is. -/
theorem declarations {ν : Type} (h : SameDeclarations doc doc') {el : ElementId}
    {prepared : List (Declaration × Query × Action ν)}
    (read : Bindings.prepareEach .builtin (doc.declarations el .standard) = .ok prepared) :
    doc'.declarations el .standard = doc.declarations el .standard := by
  obtain ⟨same, each⟩ := Bindings.prepareEach_ok read
  have known : ∀ d ∈ doc.declarations el .standard,
      d.action ∈ (ActionTable.builtin : ActionTable Unit).names := by
    intro d mem
    rw [← same] at mem
    obtain ⟨p, there, rfl⟩ := List.mem_map.mp mem
    exact mem_names_of_get (each p there).2
  unfold Document.declarations at known ⊢
  rw [h.attributeOrEmpty el (by decide), h.attributeOrEmpty el (by decide)]
  apply h.withParameters el _ []
  intro p mem
  have listed := List.mem_map_of_mem (f := (·.2)) mem
  rw [← map_withParameters (doc.attributes el) .standard _ []] at listed
  obtain ⟨d, there, action⟩ := List.mem_map.mp listed
  exact action ▸ known d there

/-- So does the text by which its observers are told from those of other declarations. -/
theorem declarationSignature {ν : Type} (h : SameDeclarations doc doc') {el : ElementId}
    {prepared : List (Declaration × Query × Action ν)}
    (read : Bindings.prepareEach .builtin (doc.declarations el .standard) = .ok prepared) :
    doc'.declarationSignature el .standard = doc.declarationSignature el .standard := by
  unfold Document.declarationSignature
  dsimp only
  rw [h.declarations read, h.attributeOrEmpty el (by decide), h.attributeOrEmpty el (by decide),
    h.attributeOrEmpty el (by decide), h.hasAttribute el (by decide), h.hasAttribute el (by decide)]

end SameDeclarations

end Document

end FormDependencies
