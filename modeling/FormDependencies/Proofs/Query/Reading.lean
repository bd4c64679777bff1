import FormDependencies.Proofs.Query.Grammar

/-!
Dividing the text of a query. What the readers take off the front of a text are pieces of the
grammar, each as long as it can be, and where they give up stands a piece that cannot be completed.
-/

namespace FormDependencies.QueryGrammar

open QueryParser
open Text (Stops stops_cons)

variable {cs rest : List Char}

/-! ## String literals -/

theorem afterString?_sound {quote : Char} (read : afterString? quote cs = some rest) :
    ∃ body, LiteralBody quote body ∧ cs = body ++ quote :: rest := by
  fun_induction afterString? quote cs with
  | case1 => cases read
  | case2 => cases read
  | case3 c following ih =>
    obtain ⟨body, inside, rfl⟩ := ih read
    exact ⟨_, .escaped inside, rfl⟩
  | case4 following =>
    obtain rfl := Option.some.inj read
    exact ⟨[], .nil, rfl⟩
  | case5 c following lone escape other ih =>
    obtain ⟨body, inside, rfl⟩ := ih read
    refine ⟨c :: body, .plain ?_ other inside, rfl⟩
    rintro rfl
    cases body with
    | nil => exact escape _ _ rfl rfl
    | cons d body => exact escape _ _ rfl rfl

theorem isQuote_iff {c : Char} : isQuote c = true ↔ c = '"' ∨ c = '\x27' ∨ c = '\x60' := by
  simp [isQuote, or_assoc]

theorem afterString?_complete {quote : Char} (isQuote : isQuote quote = true) {body : List Char}
    (h : LiteralBody quote body) : afterString? quote (body ++ quote :: rest) = some rest := by
  have ordinary : quote ≠ '\\' := by
    rintro rfl
    cases isQuote
  induction h with
  | nil =>
    rw [List.nil_append, afterString?.eq_4]
    · simp
    · simp [ordinary]
    · simp [ordinary]
  | escaped inside ih => simpa [afterString?] using ih
  | plain noEscape other inside ih =>
    rw [List.cons_append, afterString?.eq_4]
    · simpa [other] using ih
    · simp [noEscape]
    · simp [noEscape]

/-! ## Scopes -/

/-- What stands before the parenthesis that closes `depth` open ones besides its own. -/
inductive Closes : Nat → List Char → Prop
  | last {body : List Char} : Balanced body → Closes 0 body
  | inner {depth : Nat} {body outer : List Char} : Balanced body → Closes depth outer →
      Closes (depth + 1) (body ++ ')' :: outer)

theorem Closes.nested {depth : Nat} {body outer : List Char} (inside : Balanced body)
    (h : Closes depth outer) : Closes depth ('(' :: (body ++ ')' :: outer)) := by
  cases h with
  | last balanced => exact .last (.nested inside balanced)
  | inner balanced others =>
    have closes := Closes.inner (.nested inside balanced) others
    simpa using closes

theorem Closes.other {depth : Nat} {body : List Char} {c : Char} (noOpen : c ≠ '(')
    (noClose : c ≠ ')') (h : Closes depth body) : Closes depth (c :: body) := by
  cases h with
  | last balanced => exact .last (.other noOpen noClose balanced)
  | inner balanced others => exact Closes.inner (.other noOpen noClose balanced) others

theorem closingParenthesis?_sound {depth : Nat} {body : List Char}
    (read : closingParenthesis? depth cs = some (body, rest)) :
    Closes depth body ∧ cs = body ++ ')' :: rest := by
  fun_induction closingParenthesis? depth cs generalizing body with
  | case1 => cases read
  | case2 depth following ih =>
    obtain ⟨⟨deeper, _⟩, found, same⟩ := Option.map_eq_some_iff.mp read
    cases same
    obtain ⟨closes, rfl⟩ := ih found
    cases closes with
    | inner balanced others => exact ⟨others.nested balanced, rfl⟩
  | case3 following =>
    cases read
    exact ⟨.last .nil, rfl⟩
  | case4 depth following ih =>
    obtain ⟨⟨outer, _⟩, found, same⟩ := Option.map_eq_some_iff.mp read
    cases same
    obtain ⟨closes, rfl⟩ := ih found
    exact ⟨Closes.inner .nil closes, rfl⟩
  | case5 depth c following noOpen noCloseZero noClose ih =>
    obtain ⟨⟨shorter, _⟩, found, same⟩ := Option.map_eq_some_iff.mp read
    cases same
    obtain ⟨closes, rfl⟩ := ih found
    refine ⟨closes.other noOpen ?_, rfl⟩
    rintro rfl
    cases depth with
    | zero => exact noCloseZero rfl rfl
    | succ depth => exact noClose depth rfl rfl

theorem closingParenthesis?_balanced {body : List Char} (h : Balanced body) (depth : Nat)
    (cs : List Char) :
    closingParenthesis? depth (body ++ cs) =
      (closingParenthesis? depth cs).map fun (more, rest) => (body ++ more, rest) := by
  induction h generalizing depth cs with
  | nil => simp
  | @other c rest noOpen noClose balanced ih =>
    rw [List.cons_append, closingParenthesis?.eq_5 _ _ _ (by simpa using noOpen)
      (by simp [noClose]) (by simp [noClose]), ih]
    simp [Function.comp_def]
  | @nested inner rest insideBalanced balanced insideIh ih =>
    have same : '(' :: (inner ++ ')' :: rest) ++ cs = '(' :: (inner ++ ')' :: (rest ++ cs)) := by
      simp
    rw [same, closingParenthesis?, insideIh, closingParenthesis?, ih]
    simp [Function.comp_def]

theorem closingParenthesis?_eq_some {body : List Char} :
    closingParenthesis? 0 cs = some (body, rest) ↔ Balanced body ∧ cs = body ++ ')' :: rest := by
  constructor
  · intro read
    obtain ⟨closes, rfl⟩ := closingParenthesis?_sound read
    cases closes with
    | last balanced => exact ⟨balanced, rfl⟩
  · rintro ⟨balanced, rfl⟩
    simp [closingParenthesis?_balanced balanced, closingParenthesis?]

theorem scope?_sound {selector : Option Selector} (read : scope? cs = .ok (selector, rest)) :
    ∃ scope, Scope scope selector ∧ (selector = none → rest.head? ≠ some '(') ∧
      cs = scope ++ rest := by
  unfold scope? at read
  split at read
  · next inside =>
    split at read
    · cases read
    · next body after closing =>
      obtain ⟨balanced, rfl⟩ := closingParenthesis?_eq_some.mp closing
      split at read
      · next s parsed =>
        cases read
        exact ⟨_, .given balanced parsed, by simp, by simp⟩
      · cases read
  · next noOpen =>
    cases read
    refine ⟨[], .absent, fun _ first => ?_, rfl⟩
    obtain ⟨after, rfl⟩ := List.head?_eq_some_iff.mp first
    exact noOpen _ rfl

theorem scope?_complete {scope : List Char} {selector : Option Selector}
    (h : Scope scope selector) (noOpen : selector = none → rest.head? ≠ some '(') :
    scope? (scope ++ rest) = .ok (selector, rest) := by
  cases h with
  | absent =>
    rw [List.nil_append, scope?.eq_2]
    rintro after rfl
    exact noOpen rfl rfl
  | @given body s balanced read =>
    have closing : closingParenthesis? 0 (body ++ ')' :: rest) = some (body, rest) :=
      closingParenthesis?_eq_some.mpr ⟨balanced, rfl⟩
    simp [scope?, closing, read]

theorem scope?_flawed {flaw : QueryFlaw} {place : List Char}
    (failed : scope? cs = .error (.flawed flaw place)) :
    flaw = .unterminatedScope ∧ place = cs ∧ ∃ inside, cs = '(' :: inside ∧
      ∀ body after, Balanced body → inside ≠ body ++ ')' :: after := by
  unfold scope? at failed
  split at failed
  · next inside =>
    split at failed
    · next closing =>
      cases failed
      refine ⟨rfl, rfl, inside, rfl, fun body after balanced same => ?_⟩
      rw [closingParenthesis?_eq_some.mpr ⟨balanced, same⟩] at closing
      cases closing
    · split at failed <;> cases failed
  · cases failed

/-! ## References -/

theorem isPart_of_isStart {c : Char} (h : ReferenceName.isStart c = true) :
    ReferenceName.isPart c = true := by
  simp only [ReferenceName.isStart, ReferenceName.isPart, Char.isAlphanum, Bool.or_eq_true] at *
  exact .inl (h.imp_left (Or.imp_left .inl))

theorem isValid_iff {name : List Char} :
    ReferenceName.isValid (String.ofList name) = true ↔
      (name.head?.any ReferenceName.isStart = true ∧
        ∀ c ∈ name, ReferenceName.isPart c = true) := by
  cases name with
  | nil => simp [ReferenceName.isValid]
  | cons c name =>
    simp only [ReferenceName.isValid, String.toList_ofList, Bool.and_eq_true, List.all_eq_true,
      List.head?_cons, Option.any_some, List.forall_mem_cons, and_congr_right_iff]
    exact fun start => ⟨fun all => ⟨isPart_of_isStart start, all⟩, fun all => all.2⟩

theorem isValid_takeWhile {tail : List Char}
    (start : tail.head?.any ReferenceName.isStart = true) :
    ReferenceName.isValid (String.ofList (tail.takeWhile ReferenceName.isPart)) = true := by
  refine isValid_iff.mpr ⟨?_, fun c mem => List.all_eq_true.mp List.all_takeWhile c mem⟩
  cases tail with
  | nil => exact start
  | cons c tail =>
    have part : ReferenceName.isPart c = true := isPart_of_isStart start
    simpa [part] using start

theorem kindOf_other {name : String} (other : name ≠ "this") : kindOf false name = .simple := by
  simp [kindOf, other]

theorem kindOf_eq_this {group : Bool} {name : String} :
    kindOf group name = .this ↔ group = false ∧ name = "this" := by
  cases group <;> simp [kindOf]

section
variable {whole tail place : List Char} {group : Bool} {token : ReferenceToken} {flaw : QueryFlaw}

theorem named_sound (read : named whole group tail = .ok (token, rest)) :
    ∃ name scope, ReferenceName.isValid (String.ofList name) = true ∧ Scope scope token.scope ∧
      tail = name ++ (scope ++ rest) ∧ Longest token rest ∧ token.name = String.ofList name ∧
      token.kind = kindOf group token.name ∧ (token.kind = .this → token.scope = none) := by
  unfold named at read
  split at read
  · next start =>
    obtain ⟨⟨selector, after⟩, inner, read⟩ := bind_eq_ok.mp read
    obtain ⟨scope, isScope, noOpen, same⟩ := scope?_sound inner
    simp only at read
    split at read
    · cases read
    · next unscoped =>
      cases read
      refine ⟨_, scope, isValid_takeWhile start, isScope, ?_, ?_, rfl, rfl, ?_⟩
      · rw [← same, List.takeWhile_append_dropWhile]
      · rintro rfl c first
        cases isScope
        have stop := Text.stops_dropWhile ReferenceName.isPart tail
        rw [same] at stop
        refine ⟨stop c first, ?_⟩
        rintro rfl
        exact noOpen rfl first
      · intro this
        exact Option.not_isSome_iff_eq_none.mp fun given => unscoped ⟨this, given⟩
  · cases read

theorem named_complete (whole : List Char) (group : Bool) {name scope : List Char}
    {selector : Option Selector}
    (valid : ReferenceName.isValid (String.ofList name) = true) (isScope : Scope scope selector)
    (longest : Longest ⟨kindOf group (String.ofList name), String.ofList name, selector⟩ rest)
    (unscoped : kindOf group (String.ofList name) = .this → selector = none) :
    named whole group (name ++ (scope ++ rest)) =
      .ok (⟨kindOf group (String.ofList name), String.ofList name, selector⟩, rest) := by
  obtain ⟨start, parts⟩ := isValid_iff.mp valid
  have start' : (name ++ (scope ++ rest)).head?.any ReferenceName.isStart = true := by
    cases name with
    | nil => cases start
    | cons c name => exact start
  have stop : Stops ReferenceName.isPart (scope ++ rest) := by
    cases isScope with
    | absent => exact fun c first => (longest rfl c first).1
    | given => exact stops_cons rfl
  have inner : scope? (scope ++ rest) = .ok (selector, rest) := by
    refine scope?_complete isScope fun none first => ?_
    exact (longest none _ first).2 rfl
  unfold named
  rw [Text.takeWhile_run parts stop, Text.dropWhile_run parts stop, inner, if_pos start']
  have plain : ¬(kindOf group (String.ofList name) = .this ∧ selector.isSome = true) := by
    rintro ⟨this, some⟩
    simp [unscoped this] at some
  simp [bind, Except.bind, pure, Except.pure, plain]

theorem named_flawed (failed : named whole group tail = .error (.flawed flaw place)) :
    (flaw = .missingName ∧ place = whole ∧ ∀ c ∈ tail.head?, ReferenceName.isStart c = false) ∨
    (flaw = .unterminatedScope ∧ ∃ name inside,
      ReferenceName.isValid (String.ofList name) = true ∧ place = '(' :: inside ∧
      tail = name ++ place ∧ ∀ body after, Balanced body → inside ≠ body ++ ')' :: after) ∨
    (flaw = .scopedThis ∧ place = whole ∧ group = false ∧
      ∃ scope s after, Scope scope (some s) ∧ tail = "this".toList ++ scope ++ after) := by
  unfold named at failed
  split at failed
  · next start =>
    right
    cases inner : scope? (tail.dropWhile ReferenceName.isPart) with
    | error fault =>
      rw [inner] at failed
      cases failed
      obtain ⟨rfl, rfl, inside, same, unclosed⟩ := scope?_flawed inner
      refine .inl ⟨rfl, _, inside, isValid_takeWhile start, same, ?_, unclosed⟩
      rw [List.takeWhile_append_dropWhile]
    | ok found =>
      obtain ⟨selector, after⟩ := found
      obtain ⟨scope, isScope, _, same⟩ := scope?_sound inner
      simp only [inner, bind, Except.bind] at failed
      split at failed
      · next this =>
        cases failed
        obtain ⟨single, name⟩ := kindOf_eq_this.mp this.1
        obtain ⟨s, rfl⟩ := Option.isSome_iff_exists.mp this.2
        refine .inr ⟨rfl, rfl, single, scope, s, after, isScope, ?_⟩
        rw [← name, String.toList_ofList, List.append_assoc, ← same,
          List.takeWhile_append_dropWhile]
      · cases failed
  · next noStart =>
    cases failed
    refine .inl ⟨rfl, rfl, fun c first => ?_⟩
    rw [Option.mem_def.mp first] at noStart
    simpa using noStart

theorem reference_single (single : tail.head? ≠ some '@') :
    reference ('@' :: tail) = named ('@' :: tail) false tail := by
  unfold reference
  split
  · next same =>
    obtain rfl : tail = _ := same
    exact absurd rfl single
  · rfl

theorem reference_sound (read : reference ('@' :: tail) = .ok (token, rest)) :
    ∃ piece, Reference piece token ∧ Longest token rest ∧ '@' :: tail = piece ++ rest := by
  obtain ⟨kind, name, selector⟩ := token
  by_cases single : tail.head? = some '@'
  · obtain ⟨tail, rfl⟩ := List.head?_eq_some_iff.mp single
    obtain ⟨word, scope, valid, isScope, rfl, longest, same, isKind, _⟩ := named_sound read
    cases same
    cases isKind
    exact ⟨_, .group valid isScope, longest, by simp⟩
  · rw [reference_single single] at read
    obtain ⟨word, scope, valid, isScope, rfl, longest, same, isKind, unscoped⟩ := named_sound read
    cases same
    by_cases this : String.ofList word = "this"
    · obtain rfl : kind = .this := isKind.trans (kindOf_eq_this.mpr ⟨rfl, this⟩)
      obtain rfl : selector = none := unscoped rfl
      cases isScope
      have letters : word = ['t', 'h', 'i', 's'] := by
        rw [← String.toList_ofList (l := word), this]
        rfl
      subst letters
      exact ⟨_, .this, longest, rfl⟩
    · obtain rfl : kind = .simple := isKind.trans (kindOf_other this)
      exact ⟨_, .simple valid this isScope, longest, by simp⟩

theorem reference_complete {piece : List Char} (h : Reference piece token)
    (longest : Longest token rest) : reference (piece ++ rest) = .ok (token, rest) := by
  have noSign {name after : List Char}
      (valid : ReferenceName.isValid (String.ofList name) = true) :
      (name ++ after).head? ≠ some '@' := by
    obtain ⟨start, _⟩ := isValid_iff.mp valid
    cases name with
    | nil => cases start
    | cons c name =>
      intro first
      obtain rfl : c = '@' := by simpa using first
      cases start
  cases h with
  | @simple name scope selector valid other isScope =>
    have isKind := kindOf_other other
    have read := named_complete ('@' :: (name ++ (scope ++ rest))) false valid
      isScope (by rwa [isKind]) (by simp [isKind])
    rw [isKind] at read
    simpa [reference_single (noSign valid)] using read
  | @group name scope selector valid isScope =>
    have read := named_complete ('@' :: '@' :: (name ++ (scope ++ rest))) true valid
      isScope longest (by simp [kindOf])
    simpa [reference, kindOf] using read
  | this =>
    have valid : ReferenceName.isValid (String.ofList ['t', 'h', 'i', 's']) = true := by decide
    exact named_complete _ false valid .absent longest (fun _ => rfl)

theorem reference_flawed (failed : reference ('@' :: tail) = .error (.flawed flaw place)) :
    Flawed flaw ('@' :: tail) place := by
  by_cases single : tail.head? = some '@'
  · obtain ⟨tail, rfl⟩ := List.head?_eq_some_iff.mp single
    rcases named_flawed failed with ⟨rfl, rfl, noStart⟩ |
      ⟨rfl, name, inside, valid, rfl, rfl, unclosed⟩ | ⟨_, _, simple, _⟩
    · exact @Flawed.missingName ['@', '@'] _ (.inr rfl) noStart
    · exact @Flawed.unterminatedScope ['@', '@'] _ _ (.inr rfl) valid unclosed
    · cases simple
  · rw [reference_single single] at failed
    rcases named_flawed failed with ⟨rfl, rfl, noStart⟩ |
      ⟨rfl, name, inside, valid, rfl, rfl, unclosed⟩ | ⟨rfl, rfl, _, scope, s, after, isScope, rfl⟩
    · exact @Flawed.missingName ['@'] _ (.inl ⟨rfl, single⟩) noStart
    · exact @Flawed.unterminatedScope ['@'] _ _ (.inl rfl) valid unclosed
    · exact .scopedThis isScope

end

/-! ## Texts -/

def Describes (cs : List Char) : Except Fault (List ReferenceToken) → Prop
  | .ok tokens => Divides cs tokens
  | .error (.flawed flaw place) =>
    ∃ tokens after, Scans cs tokens after ∧ Flawed flaw after place
  | .error (.badScope _) => True

theorem Describes.piece {result : Except Fault (List ReferenceToken)} (h : Describes cs result)
    (front : List Char) (found : List ReferenceToken)
    (step : ∀ {tokens after}, Scans cs tokens after → Scans (front ++ cs) (found ++ tokens) after) :
    Describes (front ++ cs) (result.map (found ++ ·)) := by
  match result, h with
  | .ok tokens, divides => exact step divides
  | .error (.flawed flaw place), ⟨tokens, after, scans, flawed⟩ =>
    exact ⟨_, after, step scans, flawed⟩
  | .error (.badScope _), _ => trivial

theorem Reference.sign {piece : List Char} {token : ReferenceToken} (h : Reference piece token) :
    ∃ tail, piece = '@' :: tail := by
  cases h <;> exact ⟨_, rfl⟩

theorem references_describes {fuel : Nat} (enough : cs.length ≤ fuel) :
    Describes cs (references fuel cs) := by
  induction fuel generalizing cs with
  | zero =>
    obtain rfl : cs = [] := List.eq_nil_of_length_eq_zero (Nat.le_zero.mp enough)
    exact .done
  | succ fuel ih =>
    cases cs with
    | nil => exact .done
    | cons c cs =>
      have enough' : cs.length ≤ fuel := Nat.le_of_succ_le_succ enough
      rw [references]
      split
      · next quote =>
        split
        · next unclosed =>
          refine ⟨[], _, .done, .unterminatedString (isQuote_iff.mp quote) ?_⟩
          rintro piece after ⟨_, inside⟩ same
          simp only [List.cons_append, List.append_assoc, List.nil_append, List.cons.injEq] at same
          obtain ⟨rfl, rfl⟩ := same
          rw [afterString?_complete quote inside] at unclosed
          cases unclosed
        · next after closing =>
          obtain ⟨body, inside, rfl⟩ := afterString?_sound closing
          have isLiteral : Literal (c :: (body ++ [c])) := .mk (isQuote_iff.mp quote) inside
          have describes : Describes after (references fuel after) :=
            ih (by simp at enough'; omega)
          have longer : Describes _ (Except.map id (references fuel after)) :=
            describes.piece _ [] (Scans.literal isLiteral)
          simpa [Except.map_id] using longer
      · next noQuote =>
        rw [isQuote_iff, not_or, not_or] at noQuote
        split
        · next sign =>
          subst sign
          cases first : reference ('@' :: cs) with
          | error fault =>
            cases fault with
            | flawed => exact ⟨[], _, .done, reference_flawed first⟩
            | badScope => trivial
          | ok found =>
            obtain ⟨token, after⟩ := found
            obtain ⟨piece, isReference, longest, same⟩ := reference_sound first
            have shorter : after.length ≤ fuel := by
              obtain ⟨tail, rfl⟩ := isReference.sign
              rw [same] at enough
              simp only [List.cons_append, List.length_cons, List.length_append] at enough
              omega
            rw [same]
            exact (ih shorter).piece _ [token] (Scans.reference isReference longest)
        · next noSign =>
          have longer : Describes _ (Except.map id (references fuel cs)) :=
            (ih enough').piece [c] []
              (Scans.ordinary noSign noQuote.1 noQuote.2.1 noQuote.2.2)
          simpa [Except.map_id] using longer

theorem references_complete {fuel : Nat} {tokens : List ReferenceToken} (h : Divides cs tokens)
    (enough : cs.length ≤ fuel) : references fuel cs = .ok tokens := by
  rw [Divides] at h
  generalize left : [] = rest at h
  induction h generalizing fuel with
  | done =>
    subst left
    cases fuel <;> rfl
  | @ordinary c cs rest tokens noSign noDouble noSingle noBack others ih =>
    cases fuel with
    | zero => cases enough
    | succ fuel =>
      have noQuote : ¬isQuote c = true := by simp [isQuote_iff, noDouble, noSingle, noBack]
      rw [references, if_neg noQuote, if_neg noSign]
      exact ih (Nat.le_of_succ_le_succ enough) left
  | @literal piece cs rest tokens isLiteral others ih =>
    obtain ⟨quote, inside⟩ := isLiteral
    rw [← isQuote_iff] at quote
    cases fuel with
    | zero => cases enough
    | succ fuel =>
      simp only [List.cons_append, List.append_assoc, List.nil_append, List.length_cons,
        List.length_append] at enough ⊢
      rw [references, if_pos quote, afterString?_complete quote inside]
      exact ih (by omega) left
  | @reference piece cs rest token tokens isReference longest others ih =>
    obtain ⟨tail, rfl⟩ := isReference.sign
    cases fuel with
    | zero => cases enough
    | succ fuel =>
      have first := reference_complete isReference longest
      simp only [List.cons_append, List.length_cons, List.length_append] at first enough ⊢
      rw [references, if_neg (by decide), if_pos rfl, first]
      simp [bind, Except.bind, pure, Except.pure, @ih fuel (by omega) left]

theorem Scans.suffix {tokens : List ReferenceToken} (h : Scans cs tokens rest) : rest <:+ cs := by
  induction h with
  | done => exact List.suffix_refl _
  | ordinary _ _ _ _ _ ih => exact ih.trans (List.suffix_cons _ _)
  | literal _ _ ih => exact ih.trans (List.suffix_append _ _)
  | reference _ _ _ ih => exact ih.trans (List.suffix_append _ _)

theorem Flawed.suffix {flaw : QueryFlaw} {place : List Char} (h : Flawed flaw cs place) :
    place <:+ cs := by
  cases h with
  | unterminatedString => exact List.suffix_refl _
  | missingName => exact List.suffix_refl _
  | unterminatedScope => exact List.suffix_append _ _
  | scopedThis => exact List.suffix_refl _

end FormDependencies.QueryGrammar
