import Mathlib.Data.List.Basic
import Mathlib.Data.Prod.Basic
import FormDependencies.Binding.Observer
import FormDependencies.Proofs.Declaration.Naming

/-!
What the text says that decides whether the observers of an element are kept: the declarations of an
element are told apart by it as long as no action is declared twice and the separating characters do
not stand in what they separate.
-/

namespace FormDependencies

/-- All that makes up an observer, apart from its identity and its action. -/
structure Blueprint where
  query : String
  action : String
  parameters : KeyedList String
  negated : Bool
  skipsInitial : Bool
  target : Except DependencyError (Option Selector)

def Observer.blueprint {ν : Type} (o : Observer ν) : Blueprint where
  query := o.query.text
  action := o.actionName
  parameters := o.parameters
  negated := o.negated
  skipsInitial := o.skipsInitial
  target := .ok o.target

namespace Document

def blueprints (doc : Document) (el : ElementId) (config : Config) : List Blueprint :=
  (doc.declarations el config).map fun d =>
    { query := d.query, action := d.action, parameters := d.parameters
      negated := doc.hasAttribute el config.negateAttribute
      skipsInitial := doc.hasAttribute el config.skipInitialAttribute
      target := Bindings.targetOf doc el config }

end Document

namespace Declaration

def settings (ds : List Declaration) : List (String × String × String) :=
  ds.flatMap fun d => d.parameters.map fun entry => (d.action, entry)

def settingText (setting : String × String × String) : String :=
  setting.1 ++ ":" ++ setting.2.1 ++ "=" ++ setting.2.2

/-- Whether the signs behind the action and behind the name of a setting are the first of their
kind. -/
structure Legible (setting : String × String × String) : Prop where
  action : ':' ∉ setting.1.toList
  name : '=' ∉ setting.2.1.toList

theorem eq_of_append_cons {c : Char} {before before' after after' : List Char}
    (absent : c ∉ before) (absent' : c ∉ before')
    (same : before ++ c :: after = before' ++ c :: after') : before = before' ∧ after = after' := by
  induction before generalizing before' with
  | nil =>
    cases before' with
    | nil => exact ⟨rfl, List.tail_eq_of_cons_eq same⟩
    | cons d rest =>
      obtain rfl : c = d := List.head_eq_of_cons_eq same
      exact absurd List.mem_cons_self absent'
  | cons d rest ih =>
    cases before' with
    | nil =>
      obtain rfl : d = c := List.head_eq_of_cons_eq same
      exact absurd List.mem_cons_self absent
    | cons d' rest' =>
      simp only [List.cons_append, List.cons.injEq] at same
      have rest := ih (fun mem => absent (List.mem_cons_of_mem _ mem))
        (fun mem => absent' (List.mem_cons_of_mem _ mem)) same.2
      exact ⟨by rw [same.1, rest.1], rest.2⟩

theorem toList_settingText (setting : String × String × String) :
    (settingText setting).toList =
      setting.1.toList ++ ':' :: (setting.2.1.toList ++ '=' :: setting.2.2.toList) := by
  simp [settingText]

theorem settingText_inj {setting setting' : String × String × String} (clear : Legible setting)
    (clear' : Legible setting') (same : settingText setting = settingText setting') :
    setting = setting' := by
  have same := congrArg String.toList same
  rw [toList_settingText, toList_settingText] at same
  obtain ⟨action, rest⟩ := eq_of_append_cons clear.action clear'.action same
  obtain ⟨name, value⟩ := eq_of_append_cons clear.name clear'.name rest
  ext1
  · exact String.toList_inj.mp action
  · ext1
    · exact String.toList_inj.mp name
    · exact String.toList_inj.mp value

theorem map_settingText_inj {settings settings' : List (String × String × String)}
    (clear : ∀ setting ∈ settings, Legible setting)
    (clear' : ∀ setting ∈ settings', Legible setting)
    (same : settings.map settingText = settings'.map settingText) : settings = settings' := by
  induction settings generalizing settings' with
  | nil => exact (List.map_eq_nil_iff.mp same.symm).symm
  | cons first rest ih =>
    cases settings' with
    | nil => simp at same
    | cons first' rest' =>
      simp only [List.map_cons, List.cons.injEq] at same
      obtain ⟨legible, legibles⟩ := List.forall_mem_cons.mp clear
      obtain ⟨legible', legibles'⟩ := List.forall_mem_cons.mp clear'
      rw [settingText_inj legible legible' same.1, ih legibles legibles' same.2]

theorem action_of_mem_settings {ds : List Declaration} {setting : String × String × String}
    (mem : setting ∈ settings ds) : setting.1 ∈ ds.map (·.action) := by
  obtain ⟨d, there, mem⟩ := List.mem_flatMap.mp mem
  obtain ⟨entry, -, rfl⟩ := List.mem_map.mp mem
  exact List.mem_map_of_mem there

/-- The settings of the first declaration come first, and none of the others has its action. -/
theorem filter_settings {d : Declaration} {rest : List Declaration}
    (other : d.action ∉ rest.map (·.action)) :
    (settings (d :: rest)).filter (fun setting => setting.1 == d.action) =
        d.parameters.map (fun entry => (d.action, entry)) ∧
      (settings (d :: rest)).filter (fun setting => setting.1 != d.action) = settings rest := by
  have apart : ∀ setting ∈ settings rest, setting.1 ≠ d.action := fun setting mem same =>
    other (same ▸ action_of_mem_settings mem)
  have own : ∀ setting ∈ d.parameters.map (fun entry => (d.action, entry)),
      setting.1 = d.action := by
    intro setting mem
    obtain ⟨entry, -, rfl⟩ := List.mem_map.mp mem
    rfl
  change (d.parameters.map _ ++ settings rest).filter _ = _ ∧
    (d.parameters.map _ ++ settings rest).filter _ = _
  constructor
  · rw [List.filter_append, List.filter_eq_self.mpr fun setting mem => by simp [own setting mem],
      List.filter_eq_nil_iff.mpr fun setting mem => by simp [apart setting mem], List.append_nil]
  · rw [List.filter_append, List.filter_eq_nil_iff.mpr fun setting mem => by simp [own setting mem],
      List.filter_eq_self.mpr fun setting mem => by simp [apart setting mem], List.nil_append]

/-- When no action comes twice, the settings say which declaration each parameter belongs to. -/
theorem eq_of_settings {ds ds' : List Declaration} (distinct : (ds.map (·.action)).Nodup)
    (pairs : ds.map (fun d => (d.query, d.action)) = ds'.map fun d => (d.query, d.action))
    (same : settings ds = settings ds') : ds = ds' := by
  induction ds generalizing ds' with
  | nil => exact (List.map_eq_nil_iff.mp pairs.symm).symm
  | cons d rest ih =>
    cases ds' with
    | nil => simp at pairs
    | cons d' rest' =>
      simp only [List.map_cons, List.cons.injEq, Prod.mk.injEq] at pairs
      obtain ⟨⟨query, action⟩, pairs⟩ := pairs
      obtain ⟨other, distinct⟩ := List.nodup_cons.mp distinct
      have actions : rest.map (·.action) = rest'.map (·.action) := by
        simpa [Function.comp_def] using congrArg (List.map Prod.snd) pairs
      have own := filter_settings other
      have other' : d'.action ∉ rest'.map (·.action) := by rwa [← actions, ← action]
      have own' := filter_settings other'
      rw [same, action] at own
      have parameters : d.parameters = d'.parameters := by
        have blocks := own.1.symm.trans own'.1
        exact (Prod.mk_right_injective d'.action).list_map blocks
      have first : d = d' := by
        cases d
        cases d'
        simp_all
      rw [first, ih distinct pairs (own.2.symm.trans own'.2)]

end Declaration

/-! ## The signature -/

namespace Document

/-- Whether the signature of an element can be read back: no sign that separates stands in what it
separates, and no action is declared twice. -/
structure Unambiguous (doc : Document) (el : ElementId) (config : Config) : Prop where
  query : '\x1f' ∉ (doc.attributeOrEmpty el config.queryAttribute).toList
  action : '\x1f' ∉ (doc.attributeOrEmpty el config.actionAttribute).toList
  target : '\x1f' ∉ (doc.attributeOrEmpty el config.targetAttribute).toList
  settings : ∀ setting ∈ Declaration.settings (doc.declarations el config),
    Declaration.Legible setting ∧ '\x1f' ∉ (Declaration.settingText setting).toList
  distinct : ((doc.declarations el config).map (·.action)).Nodup

def signatureParts (doc : Document) (el : ElementId) (config : Config) : List String :=
  let flag (name : String) : String := if doc.hasAttribute el name then "true" else "false"
  [doc.attributeOrEmpty el config.queryAttribute, doc.attributeOrEmpty el config.actionAttribute,
    flag config.negateAttribute, flag config.skipInitialAttribute,
    doc.attributeOrEmpty el config.targetAttribute] ++
      (Declaration.settings (doc.declarations el config)).map Declaration.settingText

theorem declarationSignature_eq (doc : Document) (el : ElementId) (config : Config) :
    doc.declarationSignature el config = "\x1f".intercalate (doc.signatureParts el config) := by
  simp [declarationSignature, signatureParts, Declaration.settings, Declaration.settingText,
    List.map_flatMap, Function.comp_def]

section
variable {doc doc' : Document} {el : ElementId} {config : Config}

theorem Unambiguous.not_mem_part (h : doc.Unambiguous el config) {part : String}
    (mem : part ∈ doc.signatureParts el config) : '\x1f' ∉ part.toList := by
  have flag : ∀ name, '\x1f' ∉ (if doc.hasAttribute el name then "true" else "false").toList := by
    intro name
    split <;> decide
  rcases List.mem_append.mp mem with mem | mem
  · simp only [List.mem_cons, List.not_mem_nil, or_false] at mem
    rcases mem with rfl | rfl | rfl | rfl | rfl
    · exact h.query
    · exact h.action
    · exact flag _
    · exact flag _
    · exact h.target
  · obtain ⟨setting, there, rfl⟩ := List.mem_map.mp mem
    exact (h.settings setting there).2

/-- The signature can be cut into its pieces again. -/
theorem Unambiguous.parts_eq (h : doc.Unambiguous el config) :
    (doc.declarationSignature el config).toList.splitOn '\x1f' =
      (doc.signatureParts el config).map String.toList := by
  rw [declarationSignature_eq, String.toList_intercalate]
  apply List.splitOn_intercalate
  · intro piece mem
    obtain ⟨part, there, rfl⟩ := List.mem_map.mp mem
    exact h.not_mem_part there
  · simp [signatureParts]

/-- Elements with one signature declare the same. -/
theorem Unambiguous.blueprints_eq (h : doc.Unambiguous el config)
    (h' : doc'.Unambiguous el config)
    (same : doc.declarationSignature el config = doc'.declarationSignature el config) :
    doc.blueprints el config = doc'.blueprints el config := by
  have parts : doc.signatureParts el config = doc'.signatureParts el config := by
    have injective : Function.Injective String.toList := fun _ _ => String.toList_injective
    apply injective.list_map
    rw [← h.parts_eq, ← h'.parts_eq, same]
  simp only [signatureParts, List.cons_append, List.nil_append, List.cons.injEq] at parts
  obtain ⟨query, action, negate, skip, target, texts⟩ := parts
  have flag : ∀ b b' : Bool, (if b then "true" else "false") = (if b' then "true" else "false") →
      b = b' := by decide
  have settings := Declaration.map_settingText_inj (fun s mem => (h.settings s mem).1)
    (fun s mem => (h'.settings s mem).1) texts
  have declarations : doc.declarations el config = doc'.declarations el config := by
    apply Declaration.eq_of_settings h.distinct _ settings
    unfold Document.declarations
    rw [Declaration.pairs_withParameters, Declaration.pairs_withParameters, query, action]
  unfold blueprints Bindings.targetOf
  rw [declarations, flag _ _ negate, flag _ _ skip, target]

end

end Document

end FormDependencies
