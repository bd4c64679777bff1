import Mathlib.Data.List.Induction
import Mathlib.Data.List.Nodup
import FormDependencies.Proofs.Query.Reading
import FormDependencies.Proofs.Selector.Recognition

/-!
Which texts are queries and which references they read. The references of a text are told apart by
their keys, so that every reference is kept where it first appears.
-/

namespace FormDependencies

namespace QueryGrammar

open QueryParser

variable {cs : List Char}

/-! ## Keys -/

/-- A reference as it is read from a text: what its name says of its kind, and a scope that its text
stands for. -/
structure Regular (token : ReferenceToken) : Prop where
  name : ReferenceName.isValid token.name = true
  kind : token.kind = .group ∨ token.kind = kindOf false token.name
  scope : ∀ s ∈ token.scope, Selector.parse s.source = .ok s

theorem Scope.regular {selector : Option Selector} (h : Scope cs selector) :
    ∀ s ∈ selector, Selector.parse s.source = .ok s := by
  intro s mem
  cases h with
  | absent => cases mem
  | given balanced read =>
    cases mem
    exact Selector.parse_source read

theorem Reference.regular {token : ReferenceToken} (h : Reference cs token) : Regular token := by
  cases h with
  | simple valid other isScope => exact ⟨valid, .inr (kindOf_other other).symm, isScope.regular⟩
  | group valid isScope => exact ⟨valid, .inl rfl, isScope.regular⟩
  | this => exact ⟨by decide, .inr rfl, fun s mem => (by cases mem)⟩

/-- What holds of every reference that is read holds of all references among the pieces. -/
theorem Scans.forall_tokens {P : ReferenceToken → Prop} {tokens : List ReferenceToken}
    {rest : List Char} (each : ∀ {piece token}, Reference piece token → P token)
    (h : Scans cs tokens rest) : ∀ token ∈ tokens, P token := by
  induction h with
  | done => simp
  | ordinary _ _ _ _ _ ih => exact ih
  | literal _ _ ih => exact ih
  | reference isReference _ _ ih => exact List.forall_mem_cons.mpr ⟨each isReference, ih⟩

theorem Scans.regular {tokens : List ReferenceToken} {rest : List Char}
    (h : Scans cs tokens rest) : ∀ token ∈ tokens, Regular token :=
  h.forall_tokens Reference.regular

/-- The element's own value has no scope. -/
theorem Reference.scope_of_this {token : ReferenceToken} (h : Reference cs token)
    (own : token.kind = .this) : token.scope = none := by
  cases h with
  | simple => cases own
  | group => cases own
  | this => rfl

theorem Regular.letters {token : ReferenceToken} (h : Regular token) :
    token.name.toList.head?.any ReferenceName.isStart = true ∧
      ∀ c ∈ token.name.toList, ReferenceName.isPart c = true :=
  isValid_iff.mp (by simpa using h.name)

def scopeText : Option Selector → List Char
  | none => []
  | some s => '(' :: (s.source.toList ++ [')'])

theorem stops_scopeText (scope : Option Selector) :
    Text.Stops ReferenceName.isPart (scopeText scope) := by
  cases scope with
  | none => exact Text.stops_nil
  | some s => exact Text.stops_cons rfl

theorem toList_key (token : ReferenceToken) :
    token.key.toList =
      (if token.kind = .group then ['@'] else []) ++ (token.name.toList ++ scopeText token.scope) := by
  obtain ⟨kind, name, scope⟩ := token
  cases kind <;> cases scope <;> simp [ReferenceToken.key, scopeText]

theorem Regular.group_iff {token : ReferenceToken} (h : Regular token) :
    token.kind = .group ↔ token.key.toList.head? = some '@' := by
  rw [toList_key]
  constructor
  · intro group
    simp [group]
  · intro first
    by_contra single
    have start := h.letters.1
    rw [if_neg single, List.nil_append, List.head?_append] at first
    cases front : token.name.toList.head? with
    | none => simp [front] at start
    | some c =>
      rw [front] at start first
      obtain rfl : c = '@' := by simpa using first
      cases start

theorem Regular.eq_of_key_eq {token other : ReferenceToken} (h : Regular token)
    (h' : Regular other) (same : token.key = other.key) : token = other := by
  have sameGroup : token.kind = .group ↔ other.kind = .group := by
    rw [h.group_iff, h'.group_iff, same]
  have sameText : token.name.toList ++ scopeText token.scope =
      other.name.toList ++ scopeText other.scope := by
    have texts := congrArg String.toList same
    simpa only [toList_key, sameGroup, List.append_cancel_left_eq] using texts
  have sameName : token.name.toList = other.name.toList := by
    rw [← Text.takeWhile_run h.letters.2 (stops_scopeText token.scope), sameText,
      Text.takeWhile_run h'.letters.2 (stops_scopeText other.scope)]
  rw [sameName, List.append_cancel_left_eq] at sameText
  obtain ⟨kind, name, scope⟩ := token
  obtain ⟨kind', name', scope'⟩ := other
  obtain rfl : name = name' := String.toList_inj.mp sameName
  obtain rfl : scope = scope' := by
    cases scope with
    | none =>
      cases scope' with
      | none => rfl
      | some s => cases sameText
    | some s =>
      cases scope' with
      | none => cases sameText
      | some s' =>
        have sources : s.source = s'.source :=
          String.toList_inj.mp (by simpa [scopeText] using sameText)
        have read := h.scope s rfl
        rw [sources, h'.scope s' rfl] at read
        rw [Except.ok.inj read]
  have sameKind : kind = kind' := by
    rcases h.kind with group | single
    · exact group.trans (sameGroup.mp group).symm
    · rcases h'.kind with group' | single'
      · exact (sameGroup.mpr group').trans group'.symm
      · exact single.trans single'.symm
  rw [sameKind]

theorem nodup_eraseDups (tokens : List ReferenceToken) : tokens.eraseDups.Nodup := by
  induction tokens using List.reverseRecOn with
  | nil => exact List.Pairwise.nil
  | append_singleton tokens token ih =>
    rw [List.eraseDups_append]
    by_cases mem : token ∈ tokens
    · simpa [List.removeAll, mem] using ih
    · have fresh : ∀ other ∈ tokens, other ≠ token := fun other listed same => mem (same ▸ listed)
      simpa [List.removeAll, mem, List.eraseDups_cons, List.nodup_append] using ⟨ih, fresh⟩

theorem distinct_eq_eraseDups {tokens : List ReferenceToken}
    (regular : ∀ token ∈ tokens, Regular token) : distinct tokens = tokens.eraseDups := by
  induction tokens using List.reverseRecOn with
  | nil => rfl
  | append_singleton tokens token ih =>
    obtain ⟨others, last⟩ := List.forall_mem_append.mp regular
    have known : (distinct tokens).any (fun k => k.key == token.key) = true ↔ token ∈ tokens := by
      rw [ih others, List.any_eq_true]
      constructor
      · rintro ⟨kept, mem, same⟩
        have mem' := List.mem_eraseDups.mp mem
        rwa [← (others kept mem').eq_of_key_eq (last token (by simp)) (beq_iff_eq.mp same)]
      · intro mem
        exact ⟨token, List.mem_eraseDups.mpr mem, beq_self_eq_true _⟩
    have step : distinct (tokens ++ [token]) =
        if (distinct tokens).any (fun k => k.key == token.key) then distinct tokens
        else distinct tokens ++ [token] := by
      rw [distinct, List.foldl_append]
      rfl
    rw [step, List.eraseDups_append, ← ih others]
    by_cases mem : token ∈ tokens
    · rw [if_pos (known.mpr mem)]
      simp [List.removeAll, mem]
    · rw [if_neg (mt known.mp mem)]
      simp [List.removeAll, mem, List.eraseDups_cons]

end QueryGrammar

namespace Query

open QueryGrammar QueryParser

variable {text : String}

theorem parse_eq_ok {q : Query} :
    Query.parse text = .ok q ↔ q.text = text ∧
      ∃ tokens, Divides text.toList tokens ∧ q.references = tokens.eraseDups := by
  have describes := references_describes (Nat.le_refl text.toList.length)
  unfold Query.parse
  constructor
  · intro read
    split at read
    · next tokens found =>
      cases read
      rw [found] at describes
      exact ⟨rfl, tokens, describes, distinct_eq_eraseDups (Scans.regular describes)⟩
    · cases read
  · rintro ⟨same, tokens, divides, kept⟩
    rw [references_complete divides (Nat.le_refl _)]
    simp only [distinct_eq_eraseDups (Scans.regular divides), Except.ok.injEq]
    rw [← same, ← kept]

/-! ## Keys of a query -/

section
variable {text' : String} {q q' : Query}

theorem regular_of_parse (read : Query.parse text = .ok q) :
    ∀ token ∈ q.references, Regular token := by
  obtain ⟨-, tokens, divides, kept⟩ := parse_eq_ok.mp read
  intro token mem
  exact divides.regular token (List.mem_eraseDups.mp (kept ▸ mem))

theorem scope_of_this (read : Query.parse text = .ok q) {token : ReferenceToken}
    (mem : token ∈ q.references) (own : token.kind = .this) : token.scope = none := by
  obtain ⟨-, tokens, divides, kept⟩ := parse_eq_ok.mp read
  exact divides.forall_tokens (P := fun token => token.kind = .this → token.scope = none)
    Reference.scope_of_this token (List.mem_eraseDups.mp (kept ▸ mem)) own

/-- Keys tell references apart, whatever queries they belong to. -/
theorem key_eq_iff (read : Query.parse text = .ok q) (read' : Query.parse text' = .ok q')
    {token token' : ReferenceToken} (mem : token ∈ q.references) (mem' : token' ∈ q'.references) :
    token.key = token'.key ↔
      token.kind = token'.kind ∧ token.name = token'.name ∧ token.scope = token'.scope := by
  constructor
  · intro same
    obtain rfl := (regular_of_parse read token mem).eq_of_key_eq
      (regular_of_parse read' token' mem') same
    exact ⟨rfl, rfl, rfl⟩
  · rintro ⟨kind, name, scope⟩
    unfold ReferenceToken.key
    rw [kind, name, scope]

theorem nodup_keys (read : Query.parse text = .ok q) : (q.references.map (·.key)).Nodup := by
  obtain ⟨-, tokens, divides, kept⟩ := parse_eq_ok.mp read
  have distinct : q.references.Nodup := kept ▸ nodup_eraseDups tokens
  refine List.Nodup.map_on (fun token mem token' mem' same => ?_) distinct
  exact (regular_of_parse read token mem).eq_of_key_eq (regular_of_parse read token' mem') same

end

/-! ## Recognition -/

theorem parse_malformed {query : String} {offset : Nat} {flaw : QueryFlaw}
    (failed : Query.parse text = .error (.malformedQuery query offset flaw)) :
    query = text ∧ ∃ before place, text = before ++ place ∧ offset = before.utf8ByteSize ∧
      ∃ tokens after, Scans text.toList tokens after ∧ Flawed flaw after place.toList := by
  have describes := references_describes (Nat.le_refl text.toList.length)
  unfold Query.parse at failed
  split at failed
  · cases failed
  · next fault found =>
    rw [found] at describes
    cases fault with
    | badScope cause => cases failed
    | flawed flaw place =>
      cases failed
      obtain ⟨tokens, after, scans, flawed⟩ := describes
      obtain ⟨before, same⟩ := flawed.suffix.trans scans.suffix
      refine ⟨rfl, String.ofList before, String.ofList place, ?_, ?_, tokens, after, scans, ?_⟩
      · rw [← String.ofList_append, same, String.ofList_toList]
      · rw [← same, Text.offset_append, Text.byteLength_eq_utf8ByteSize]
      · rwa [String.toList_ofList]

/-- A text is a query exactly when it divides into string literals, references as long as they can
be and other characters. It divides in one way, and the query keeps the text and its references, all
with valid names, in order and each once. What is malformed is told with the place of the piece that
cannot be completed, by the number of bytes that are before it. -/
theorem parse_recognizes_references :
    (∀ text q, Query.parse text = .ok q ↔ q.text = text ∧
      ∃ tokens, Divides text.toList tokens ∧ q.references = tokens.eraseDups) ∧
    (∀ cs tokens tokens', Divides cs tokens → Divides cs tokens' → tokens = tokens') ∧
    (∀ text q, Query.parse text = .ok q →
      ∀ token ∈ q.references, ReferenceName.isValid token.name = true) ∧
    ∀ text query offset flaw, Query.parse text = .error (.malformedQuery query offset flaw) →
      query = text ∧ ∃ before place, text = before ++ place ∧ offset = before.utf8ByteSize ∧
        ∃ tokens after, Scans text.toList tokens after ∧ Flawed flaw after place.toList := by
  refine ⟨fun _ _ => parse_eq_ok, ?_, ?_, fun _ _ _ _ failed => parse_malformed failed⟩
  · intro cs tokens tokens' divides divides'
    have enough := Nat.le_refl cs.length
    exact Except.ok.inj
      ((references_complete divides enough).symm.trans (references_complete divides' enough))
  · intro text q read token mem
    obtain ⟨_, tokens, divides, same⟩ := parse_eq_ok.mp read
    rw [same] at mem
    exact (Scans.regular divides token (List.mem_eraseDups.mp mem)).name

def rowTotal : Query where
  text := "@rate * @@row-1( .a b ) + '\\'@no' + @rate"
  references := [⟨.simple, "rate", none⟩,
    ⟨.group, "row-1", some ⟨".a b", [[{ classes := ["a"] }, { tag := some "b" }]]⟩⟩]

theorem parse_recognizes_references_rowTotal :
    Query.parse rowTotal.text = .ok rowTotal ∧
    (∃ tokens, Divides rowTotal.text.toList tokens ∧ rowTotal.references = tokens.eraseDups) ∧
    (∀ token ∈ rowTotal.references, ReferenceName.isValid token.name = true) ∧
    Query.parse "é + @this(.a)" = .error (.malformedQuery "é + @this(.a)" 5 .scopedThis) ∧
    ∃ before place, "é + @this(.a)" = before ++ place ∧ 5 = before.utf8ByteSize ∧
      ∃ tokens after, Scans "é + @this(.a)".toList tokens after ∧
        Flawed .scopedThis after place.toList := by
  have read : Query.parse rowTotal.text = .ok rowTotal := rfl
  have failed : Query.parse "é + @this(.a)" =
    .error (.malformedQuery "é + @this(.a)" 5 .scopedThis) := rfl
  obtain ⟨iff, _, valid, malformed⟩ := parse_recognizes_references
  exact ⟨read, ((iff _ _).mp read).2, valid _ _ read, failed, (malformed _ _ _ _ failed).2⟩

end Query

end FormDependencies
