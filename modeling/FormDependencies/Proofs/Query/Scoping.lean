import FormDependencies.Proofs.Query.Recognition

/-!
Which selectors can be the scope of a reference. Where a scope ends is found by its parentheses
alone, those inside the quoted values of a selector included.
-/

namespace FormDependencies

namespace SelectorGrammar

open SelectorParser (isIdentChar)
open Text (Blank)

/-- Characters in which parentheses stand in closed quotes only. -/
inductive Sheltered : List Char → Prop
  | nil : Sheltered []
  | plain {c : Char} {rest : List Char} : c ≠ '"' → c ≠ '\x27' → c ≠ '(' → c ≠ ')' →
      Sheltered rest → Sheltered (c :: rest)
  | quoted {quote : Char} {text rest : List Char} : quote = '"' ∨ quote = '\x27' →
      quote ∉ text → Sheltered rest → Sheltered (quote :: (text ++ quote :: rest))

namespace Sheltered
variable {cs rest : List Char}

theorem append (first : Sheltered cs) (second : Sheltered rest) : Sheltered (cs ++ rest) := by
  induction first with
  | nil => exact second
  | plain noDouble noSingle noOpen noClose _ ih => exact .plain noDouble noSingle noOpen noClose ih
  | quoted isQuote closed _ ih =>
    rw [List.cons_append, List.append_assoc, List.cons_append]
    exact .quoted isQuote closed ih

/-- The first quote of its kind closes a quoted text, so that both say the same. -/
theorem quoted_inj {quote : Char} {text text' after after' : List Char} (closed : quote ∉ text)
    (closed' : quote ∉ text') (same : text ++ quote :: after = text' ++ quote :: after') :
    after = after' := by
  have run {text : List Char} (closed : quote ∉ text) (after : List Char) :
      (text ++ quote :: after).dropWhile (· != quote) = quote :: after :=
    Text.dropWhile_run (fun c mem => bne_iff_ne.mpr fun own => closed (own ▸ mem))
      (Text.stops_cons (by simp))
  have rests : quote :: after = quote :: after' := by
    rw [← run closed after, same, run closed' after']
  exact (List.cons.inj rests).2

theorem of_plain {c : Char} (h : Sheltered (c :: cs)) (noDouble : c ≠ '"') (noSingle : c ≠ '\x27') :
    c ≠ ')' ∧ Sheltered cs := by
  cases h with
  | plain _ _ _ noClose others => exact ⟨noClose, others⟩
  | quoted isQuote => exact absurd isQuote (not_or.mpr ⟨noDouble, noSingle⟩)

theorem of_quoted {quote : Char} {text : List Char} (isQuote : quote = '"' ∨ quote = '\x27')
    (closed : quote ∉ text) (h : Sheltered (quote :: (text ++ quote :: rest))) :
    Sheltered rest := by
  generalize tail : text ++ quote :: rest = cs at h
  cases h with
  | plain noDouble noSingle => exact absurd isQuote (not_or.mpr ⟨noDouble, noSingle⟩)
  | quoted _ closed' others => exact quoted_inj closed closed' tail ▸ others

/-- Behind closed quotes no parenthesis follows. -/
theorem not_closing (h : Sheltered cs) : ¬Sheltered (cs ++ ')' :: rest) := by
  induction h with
  | nil => exact fun whole => (whole.of_plain (by decide) (by decide)).1 rfl
  | plain noDouble noSingle _ _ _ ih => exact fun whole => ih (whole.of_plain noDouble noSingle).2
  | quoted isQuote closed _ ih =>
    intro whole
    rw [List.cons_append, List.append_assoc, List.cons_append] at whole
    exact ih (whole.of_quoted isQuote closed)

/-! ## Every rule -/

theorem of_forall {p : Char → Bool} (all : ∀ c ∈ cs, p c = true)
    (ordinary : ['"', '\x27', '(', ')'].any p = false) : Sheltered cs := by
  induction cs with
  | nil => exact .nil
  | cons c cs ih =>
    obtain ⟨first, others⟩ := List.forall_mem_cons.mp all
    have other {sign : Char} (mem : sign ∈ ['"', '\x27', '(', ')']) : c ≠ sign := by
      rintro rfl
      exact List.any_eq_false.mp ordinary c mem first
    exact .plain (other (by simp)) (other (by simp)) (other (by simp)) (other (by simp)) (ih others)

theorem sign {c : Char} (h : Sheltered rest) (ordinary : c ∈ ['[', ']', '=', '.', ',', '*']) :
    Sheltered (c :: rest) := by
  have single : Sheltered [c] :=
    of_forall (p := fun c => ['[', ']', '=', '.', ',', '*'].contains c) (by simpa using ordinary)
      (by decide)
  exact single.append h

theorem blank (h : Blank cs) : Sheltered cs := of_forall h (by decide)

theorem identifier (all : ∀ c ∈ cs, isIdentChar c = true) : Sheltered cs :=
  of_forall all (by decide)

theorem value {text : String} (h : Value cs text) : Sheltered cs := by
  cases h with
  | ident word =>
    obtain ⟨_, all⟩ := word
    exact identifier all
  | quoted isQuote closed => exact .quoted isQuote closed .nil

theorem expected {text : Option String} (h : Expected cs text) : Sheltered cs := by
  cases h with
  | absent => exact .nil
  | given before given after =>
    exact sign (((blank before).append (value given)).append (blank after)) (by decide)

theorem test {test : AttributeTest} (h : Test cs test) : Sheltered cs := by
  obtain ⟨before, ⟨_, all⟩, after, given⟩ := h
  have inside := (((blank before).append (identifier all)).append (blank after)).append
    (expected given)
  exact sign (inside.append (sign .nil (by decide))) (by decide)

theorem tests {classes : List String} {attributes : List AttributeTest}
    (h : Tests cs classes attributes) : Sheltered cs := by
  induction h with
  | nil => exact .nil
  | classTest word _ ih =>
    obtain ⟨_, all⟩ := word
    exact sign ((identifier all).append ih) (by decide)
  | attributeTest first _ ih => exact (test first).append ih

theorem compound {c : Compound} (h : IsCompound cs c) : Sheltered cs := by
  obtain ⟨tagged, tested, _⟩ := h
  refine append ?_ (tests tested)
  cases tagged with
  | absent => exact .nil
  | any => exact sign .nil (by decide)
  | word _ all => exact identifier all

theorem descent {chain : Chain} (h : Descent cs chain) : Sheltered cs := by
  induction h with
  | nil => exact .nil
  | cons blanks _ first _ ih => exact ((blank blanks).append (compound first)).append ih

theorem alternatives {alternatives : List Chain} (h : Alternatives cs alternatives) :
    Sheltered cs := by
  have padded {before cs after : List Char} {chain : Chain} (leading : Blank before)
      (isChain : IsChain cs chain) (trailing : Blank after) :
      Sheltered (before ++ cs ++ after) := by
    obtain ⟨first, others⟩ := isChain
    exact ((blank leading).append ((compound first).append (descent others))).append
      (blank trailing)
  induction h with
  | single leading isChain trailing => exact padded leading isChain trailing
  | cons leading isChain trailing _ ih =>
    exact (padded leading isChain trailing).append (sign ih (by decide))

end Sheltered

end SelectorGrammar

namespace Query

open QueryGrammar QueryParser

/-- A reference to a group or to the nearest element, as it is written without a scope. -/
def mention (group : Bool) (name : String) : String :=
  (if group then "@@" else "@") ++ name

def withScope (group : Bool) (name scope : String) : String :=
  mention group name ++ "(" ++ scope ++ ")"

def scopedToken (group : Bool) (name : String) (scope : Option Selector) : ReferenceToken :=
  ⟨if group then .group else .simple, name, scope⟩

section
variable {group : Bool} {name : String}

theorem toList_mention :
    (mention group name).toList = (if group then ['@', '@'] else ['@']) ++ name.toList := by
  unfold mention
  cases group <;> simp

theorem toList_withScope (scope : String) :
    (withScope group name scope).toList =
      (mention group name).toList ++ '(' :: (scope.toList ++ [')']) := by
  simp [withScope]

theorem exists_toList_withScope (group : Bool) (name scope : String) :
    ∃ rest, (withScope group name scope).toList = '@' :: rest := by
  rw [toList_withScope, toList_mention]
  cases group <;> exact ⟨_, rfl⟩

theorem named_scoped (valid : ReferenceName.isValid name = true)
    (noThis : group = false → name ≠ "this") (whole cs : List Char) :
    named whole group (name.toList ++ '(' :: cs) =
      (scope? ('(' :: cs)).map fun found => (scopedToken group name found.1, found.2) := by
  have valid' : ReferenceName.isValid (String.ofList name.toList) = true := by
    rwa [String.ofList_toList]
  obtain ⟨start, parts⟩ := isValid_iff.mp valid'
  have start' : (name.toList ++ '(' :: cs).head?.any ReferenceName.isStart = true := by
    cases letters : name.toList with
    | nil => simp [letters] at start
    | cons c rest => simpa [letters] using start
  have stop : Text.Stops ReferenceName.isPart ('(' :: cs) := Text.stops_cons rfl
  have isKind : kindOf group name = if group then .group else .simple := by
    cases group with
    | true => rfl
    | false => exact kindOf_other (noThis rfl)
  have other : (if group then ReferenceKind.group else .simple) ≠ .this := by
    cases group <;> decide
  unfold named
  rw [Text.takeWhile_run parts stop, Text.dropWhile_run parts stop, if_pos start',
    String.ofList_toList]
  cases scope? ('(' :: cs) with
  | error fault => rfl
  | ok found => simp [bind, Except.bind, pure, Except.pure, Except.map, other, isKind, scopedToken]

theorem reference_scoped (valid : ReferenceName.isValid name = true)
    (noThis : group = false → name ≠ "this") (cs : List Char) :
    reference ((mention group name).toList ++ '(' :: cs) =
      (scope? ('(' :: cs)).map fun found => (scopedToken group name found.1, found.2) := by
  rw [toList_mention]
  cases group with
  | true => exact named_scoped valid noThis _ cs
  | false =>
    refine (reference_single ?_).trans (named_scoped valid noThis _ cs)
    cases letters : name.toList with
    | nil => simp
    | cons c rest =>
      intro sign
      obtain rfl : c = '@' := by simpa using sign
      simp [ReferenceName.isValid, letters, ReferenceName.isStart] at valid

variable {scope : String}

theorem parse_of_scope? (valid : ReferenceName.isValid name = true)
    (noThis : group = false → name ≠ "this") {fault : Fault}
    (failed : scope? ('(' :: (scope.toList ++ [')'])) = .error fault) :
    Query.parse (withScope group name scope) =
      .error (fault.toError (withScope group name scope)) := by
  have first := reference_scoped valid noThis (scope.toList ++ [')'])
  rw [failed, ← toList_withScope] at first
  obtain ⟨rest, chars⟩ := exists_toList_withScope group name scope
  rw [chars] at first
  have failed : QueryParser.references (rest.length + 1) ('@' :: rest) = .error fault := by
    rw [QueryParser.references, if_neg (by decide), if_pos rfl, first]
    rfl
  simp only [Query.parse, chars, List.length_cons, failed]

theorem parse_balanced (valid : ReferenceName.isValid name = true)
    (noThis : group = false → name ≠ "this") {s : Selector} (read : Selector.parse scope = .ok s)
    (balanced : Balanced scope.toList) :
    Query.parse (withScope group name scope) =
      .ok ⟨withScope group name scope, [scopedToken group name (some s)]⟩ := by
  have inner : scope? ('(' :: (scope.toList ++ [')'])) = .ok (some s, []) := by
    have isScope : Scope ('(' :: (scope.toList ++ [')'])) (some s) :=
      .given balanced (by rwa [String.ofList_toList])
    rw [← List.append_nil ('(' :: (scope.toList ++ [')']))]
    exact scope?_complete isScope (by simp)
  have first := reference_scoped valid noThis (scope.toList ++ [')'])
  rw [inner, ← toList_withScope] at first
  obtain ⟨rest, chars⟩ := exists_toList_withScope group name scope
  rw [chars] at first
  obtain ⟨piece, isReference, longest, same⟩ := reference_sound first
  refine parse_eq_ok.mpr ⟨rfl, [scopedToken group name (some s)], ?_, rfl⟩
  rw [Divides, chars, same]
  exact .reference isReference longest .done

/-- What stands before a parenthesis inside a selector is no selector: the parenthesis stands in
quotes that are still open there. -/
theorem parse_front {front after : String} {s : Selector}
    (read : Selector.parse (front ++ ")" ++ after) = .ok s) :
    ∃ cause, Selector.parse front = .error cause := by
  cases alone : Selector.parse front with
  | error cause => exact ⟨cause, rfl⟩
  | ok s' =>
    have whole := SelectorGrammar.Sheltered.alternatives (Selector.parse_eq_ok.mp read).1
    have closed := SelectorGrammar.Sheltered.alternatives (Selector.parse_eq_ok.mp alone).1
    simp only [String.toList_append, List.append_assoc] at whole
    exact absurd whole closed.not_closing

/-- A text is balanced, or has too early a closing parenthesis, or an open one is left over at its
end. -/
theorem balanced_cases (scope : String) :
    Balanced scope.toList ∨
    (∃ front after, Balanced front.toList ∧ scope = front ++ ")" ++ after) ∨
    closingParenthesis? 0 (scope.toList ++ [')']) = none := by
  cases closing : closingParenthesis? 0 (scope.toList ++ [')']) with
  | none => exact .inr (.inr rfl)
  | some found =>
    obtain ⟨body, rest⟩ := found
    obtain ⟨balanced, same⟩ := closingParenthesis?_eq_some.mp closing
    rcases List.eq_nil_or_concat rest with rfl | ⟨after, last, rfl⟩
    · exact .inl ((List.append_inj' same rfl).1 ▸ balanced)
    · rw [List.concat_eq_append, ← List.cons_append, ← List.append_assoc] at same
      refine .inr (.inl ⟨String.ofList body, String.ofList after, by simpa using balanced, ?_⟩)
      apply String.toList_inj.mp
      simpa using (List.append_inj' same rfl).1

end

/-- A text that is a selector can be the scope of a reference exactly when its parentheses, those in
quoted values included, have their matches. Then the query has the one reference, with the scope
that the text stands for. Otherwise there is no query: either the text is cut at a parenthesis, and
what is left before it is no selector, or the scope has no end. -/
theorem parse_withScope (group : Bool) {name scope : String} {s : Selector}
    (valid : ReferenceName.isValid name = true) (noThis : group = false → name ≠ "this")
    (read : Selector.parse scope = .ok s) :
    let text := withScope group name scope
    (Balanced scope.toList →
      Query.parse text = .ok ⟨text, [⟨if group then .group else .simple, name, some s⟩]⟩) ∧
    (∀ front after, Balanced front.toList → scope = front ++ ")" ++ after →
      ∃ cause, Selector.parse front = .error cause ∧
        Query.parse text = .error (.invalidSelector (.queryScope text) cause)) ∧
    (¬Balanced scope.toList →
      (∀ front after, Balanced front.toList → scope ≠ front ++ ")" ++ after) →
      Query.parse text =
        .error (.malformedQuery text (mention group name).utf8ByteSize .unterminatedScope)) ∧
    ((∃ q, Query.parse text = .ok q) ↔ Balanced scope.toList) := by
  intro text
  have given := parse_balanced valid noThis read
  have cut {front after : String} (balanced : Balanced front.toList)
      (same : scope = front ++ ")" ++ after) :
      ∃ cause, Selector.parse front = .error cause ∧
        Query.parse text = .error (.invalidSelector (.queryScope text) cause) := by
    obtain ⟨cause, failed⟩ := parse_front (same ▸ read)
    have closing : closingParenthesis? 0 (scope.toList ++ [')']) =
        some (front.toList, after.toList ++ [')']) :=
      closingParenthesis?_eq_some.mpr ⟨balanced, by simp [same]⟩
    have bad : scope? ('(' :: (scope.toList ++ [')'])) = .error (.badScope cause) := by
      simp [scope?, closing, failed]
    exact ⟨cause, failed, parse_of_scope? valid noThis bad⟩
  have unclosed (closing : closingParenthesis? 0 (scope.toList ++ [')']) = none) :
      Query.parse text =
        .error (.malformedQuery text (mention group name).utf8ByteSize .unterminatedScope) := by
    have failed : scope? ('(' :: (scope.toList ++ [')'])) =
        .error (.flawed .unterminatedScope ('(' :: (scope.toList ++ [')']))) := by
      simp [scope?, closing]
    rw [parse_of_scope? valid noThis failed, Fault.toError, toList_withScope, Text.offset_append,
      Text.byteLength_eq_utf8ByteSize, String.ofList_toList]
  refine ⟨given, fun _ _ => cut, fun unbalanced uncut => ?_, ?_⟩
  · rcases balanced_cases scope with balanced | ⟨front, after, balanced, same⟩ | closing
    · exact absurd balanced unbalanced
    · exact absurd same (uncut front after balanced)
    · exact unclosed closing
  · refine ⟨?_, fun balanced => ⟨_, given balanced⟩⟩
    rintro ⟨q, parsed⟩
    rcases balanced_cases scope with balanced | ⟨front, after, balanced, same⟩ | closing
    · exact balanced
    · obtain ⟨_, _, failed⟩ := cut balanced same
      rw [failed] at parsed
      cases parsed
    · rw [unclosed closing] at parsed
      cases parsed

/-- Parentheses in the value of an attribute: one that closes, both, and one that opens. -/
theorem parse_withScope_quotedParentheses :
    (ReferenceName.isValid "n" = true ∧ "n" ≠ "this") ∧
    (Selector.parse "[a=')']" = .ok ⟨"[a=')']", [[{ attributes := [⟨"a", some ")"⟩] }]]⟩ ∧
      ∃ cause, Selector.parse "[a='" = .error cause ∧
        Query.parse "@n([a=')'])" = .error (.invalidSelector (.queryScope "@n([a=')'])") cause)) ∧
    (Selector.parse "[a='()']" = .ok ⟨"[a='()']", [[{ attributes := [⟨"a", some "()"⟩] }]]⟩ ∧
      Query.parse "@@n([a='()'])" = .ok ⟨"@@n([a='()'])",
        [⟨.group, "n", some ⟨"[a='()']", [[{ attributes := [⟨"a", some "()"⟩] }]]⟩⟩]⟩) ∧
    Selector.parse "[a='(']" = .ok ⟨"[a='(']", [[{ attributes := [⟨"a", some "("⟩] }]]⟩ ∧
      ¬∃ q, Query.parse "@n([a='('])" = .ok q := by
  have valid : ReferenceName.isValid "n" = true := by decide
  have other : "n" ≠ "this" := by decide
  have closes : Selector.parse "[a=')']" =
    .ok ⟨"[a=')']", [[{ attributes := [⟨"a", some ")"⟩] }]]⟩ := rfl
  have matched : Selector.parse "[a='()']" =
    .ok ⟨"[a='()']", [[{ attributes := [⟨"a", some "()"⟩] }]]⟩ := rfl
  have opens : Selector.parse "[a='(']" =
    .ok ⟨"[a='(']", [[{ attributes := [⟨"a", some "("⟩] }]]⟩ := rfl
  have cut : closingParenthesis? 0 "[a=')']".toList = some ("[a='".toList, "']".toList) := rfl
  have whole : closingParenthesis? 0 "[a='()'])".toList = some ("[a='()']".toList, []) := rfl
  have front : Balanced "[a='".toList := (closingParenthesis?_eq_some.mp cut).1
  have balanced : Balanced "[a='()']".toList := (closingParenthesis?_eq_some.mp whole).1
  refine ⟨⟨valid, other⟩, ⟨closes, ?_⟩, ⟨matched, ?_⟩, opens, ?_⟩
  · exact (parse_withScope false valid (fun _ => other) closes).2.1 "[a='" "']" front rfl
  · exact (parse_withScope true valid (fun _ => other) matched).1 balanced
  · intro parsed
    have all := (parse_withScope false valid (fun _ => other) opens).2.2.2.mp parsed
    have read : closingParenthesis? 0 "[a='('])".toList = some ("[a='(']".toList, []) :=
      closingParenthesis?_eq_some.mpr ⟨all, rfl⟩
    cases read

end Query

end FormDependencies
