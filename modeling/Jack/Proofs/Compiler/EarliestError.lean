import Mathlib
import Jack.Proofs.Compiler.Language
import Jack.Proofs.Lockstep.Class
import Jack.Proofs.Lockstep.Shared
import Jack.Proofs.Prediction.Class

namespace Jack

/-!
# Errors are reported as early as possible

Compilation stops at the first token that no class can have in its place.  What is reported there
depends on the tokens up to this one alone, although two functions look one token further ahead: one
behind a name, where the name itself is no error, and one behind a `return`.
-/

variable {options : Options} {source source' : List Char} {e : CompileError}

/-! ## Tokens that a class can start with -/

/-- Some class starts with the tokens. -/
def StartsClass (tokens : List Token) : Prop :=
  ∃ c : ClassTree, tokens.map Token.lexeme <+: c.lexemes

/-- Tokens start a class if their lexemes start some text of the language. -/
theorem startsClass_iff_viable {tokens : List Token} :
    StartsClass tokens ↔ Viable (languageOf ClassTree.lexemes) (tokens.map Token.lexeme) := by
  constructor
  · rintro ⟨c, rest, same⟩
    exact ⟨rest, c, same.symm⟩
  · rintro ⟨rest, c, same⟩
    exact ⟨c, rest, same.symm⟩

/-- What starts a class goes on being a start when it is cut. -/
theorem StartsClass.of_append {before behind : List Token}
    (starts : StartsClass (before ++ behind)) : StartsClass before := by
  rcases starts with ⟨c, isPrefix⟩
  rw [List.map_append] at isPrefix
  exact ⟨c, (List.prefix_append _ _).trans isPrefix⟩

/-- Whether tokens start a class does not depend on their places. -/
theorem startsClass_congr {tokens tokens' : List Token}
    (alike : List.Forall₂ Token.Alike tokens tokens') :
    StartsClass tokens ↔ StartsClass tokens' := by
  rw [StartsClass, StartsClass, map_lexeme_eq alike]

/-- There is only one first token that spoils a property of the tokens in front. -/
theorem first_unique {P : List Token → Prop}
    (closed : ∀ before behind, P (before ++ behind) → P before)
    {before before' : List Token} {t t' : Token} {behind behind' : List Item}
    (same : before.map .ok ++ .ok t :: behind = before'.map .ok ++ .ok t' :: behind')
    (fine : P before) (fine' : P before') (spoilt : ¬ P (before ++ [t]))
    (spoilt' : ¬ P (before' ++ [t'])) : before = before' ∧ t = t' := by
  induction before generalizing before' P with
  | nil =>
      cases before' with
      | nil =>
          cases same
          exact ⟨rfl, rfl⟩
      | cons u rest =>
          cases same
          exact absurd (closed [t] rest fine') spoilt
  | cons u rest inductionHypothesis =>
      cases before' with
      | nil =>
          cases same
          exact absurd (closed [t'] rest fine) spoilt'
      | cons u' rest' =>
          rw [List.map_cons, List.map_cons, List.cons_append, List.cons_append, List.cons.injEq,
            Except.ok.injEq] at same
          rcases same with ⟨rfl, same⟩
          rcases inductionHypothesis (P := fun tokens => P (u :: tokens))
            (fun before behind => closed (u :: before) behind) same fine fine' spoilt spoilt' with
            ⟨rfl, rfl⟩
          exact ⟨rfl, rfl⟩

/-! ## The place of an error -/

/-- The token is the first one that no class can have in its place, and these are the tokens in
front of it. -/
structure FirstImpossible (source : List Char) (before : List Token) (t : Token) : Prop where
  items : ∃ behind, (Lexer.ofSource source).items = before.map .ok ++ .ok t :: behind
  starts : StartsClass before
  impossible : ¬ StartsClass (before ++ [t])

/-- There is at most one first impossible token, and at most one run of tokens before it. -/
theorem FirstImpossible.unique {before before' : List Token} {t t' : Token}
    (first : FirstImpossible source before t) (first' : FirstImpossible source before' t') :
    before = before' ∧ t = t' := by
  rcases first.items with ⟨behind, items⟩
  rcases first'.items with ⟨behind', items'⟩
  exact first_unique (fun _ _ => StartsClass.of_append) (items.symm.trans items') first.starts
    first'.starts first.impossible first'.impossible

/-- A run that fails for a syntax error stops at the first impossible token. -/
theorem firstImpossible_of_run {fault : SyntaxError} {p : Progress}
    (run : Step.wholeClass options (stepBound source) (Progress.ofSource source) =
      .error (.failed (.token (.syntactic fault))) p)
    (unlimited : ¬ fault.IsLimit) :
    ∃ before, FirstImpossible source before fault.token ∧ p.stream.position = before.length := by
  rcases Step.faults_wholeClass _ p run with
    (limit | misspells) | ⟨w, reads, current, viable, impossible⟩
  · exact absurd limit unlimited
  · exact absurd misspells (TokenStream.not_misspells_ofSource source)
  · rcases reads.exists_items (TokenStream.standsAt_ofSource source) with
      ⟨before, l, items, rfl, stands⟩
    rcases stands.items_of_ok current with ⟨behind, rest⟩
    refine ⟨before, ⟨⟨behind, by rw [items, rest]⟩, startsClass_iff_viable.mpr viable, ?_⟩, ?_⟩
    · rwa [startsClass_iff_viable, List.map_append]
    · rw [reads.position_eq, List.length_map]
      exact Nat.zero_add _

/-- A run that fails for a lexical fault has seen nothing impossible before. -/
theorem startsClass_of_run {fault : LexError} {p : Progress}
    (run : Step.wholeClass options (stepBound source) (Progress.ofSource source) =
      .error (.failed (.token (.lexical fault))) p) :
    ∃ tokens, (Lexer.ofSource source).items = tokens.map .ok ++ [.error fault] ∧
      StartsClass tokens := by
  rcases Step.faults_wholeClass _ p run with ⟨w, s, reads, current, viable⟩
  rcases reads.exists_items (TokenStream.standsAt_ofSource source) with
    ⟨tokens, l, items, rfl, stands⟩
  exact ⟨tokens, by rw [items, stands.items_of_error current], startsClass_iff_viable.mpr viable⟩

/-- A syntax error depends on the tokens up to the first impossible one alone. -/
theorem exists_failed_of_alike {before before' : List Token} {t' : Token} {fault : SyntaxError}
    {behind' : List Item} {p : Progress}
    (run : Step.wholeClass options (stepBound source) (Progress.ofSource source) =
      .error (.failed (.token (.syntactic fault))) p)
    (unlimited : ¬ fault.IsLimit) (first : FirstImpossible source before fault.token)
    (place : p.stream.position = before.length)
    (items' : (Lexer.ofSource source').items = before'.map .ok ++ .ok t' :: behind')
    (alike : List.Forall₂ Token.Alike before before') (alikeLast : fault.token.Alike t') :
    ∃ fault', (compileClass options source').result = .error (.token (.syntactic fault')) ∧
      fault'.expected = fault.expected ∧ fault'.token = t' := by
  have alikeAll : List.Forall₂ Token.Alike (before ++ [fault.token]) (before' ++ [t']) :=
    List.rel_append alike (.cons alikeLast .nil)
  have streams : TokenStream.AlikeUpTo before.length (.ofSource source) (.ofSource source') := by
    rcases first.items with ⟨behind, items⟩
    refine ⟨_, _, List.append_ne_nil_of_right_ne_nil _ (List.cons_ne_nil _ _),
      ⟨_, behind, TokenStream.standsAt_ofSource source, ?_⟩,
      ⟨_, behind', TokenStream.standsAt_ofSource source', ?_⟩, alikeAll, ?_⟩
    · rw [items, List.map_append, List.append_assoc, List.map_singleton, List.singleton_append]
    · rw [items', List.map_append, List.append_assoc, List.map_singleton, List.singleton_append]
    · rw [List.length_append, List.length_singleton]
      exact Nat.zero_add _
  have within : ¬ before.length < p.stream.position := by
    rw [place]
    exact Nat.lt_irrefl _
  rcases compileClass_corresponds_of_failed (.upTo before.length) rfl (.inl rfl) streams run within
    (fun ignored => ignored fault rfl) with ⟨e', failed', errors⟩
  rcases errors fault rfl with ⟨fault', rfl, expected⟩
  rcases compileClass_eq_error_iff_run.mp failed' with ⟨p', run'⟩
  have unlimited' : ¬ fault'.IsLimit := by
    rwa [SyntaxError.IsLimit, expected]
  rcases firstImpossible_of_run run' unlimited' with ⟨before'', first'', -⟩
  have first' : FirstImpossible source' before' t' :=
    { items := ⟨behind', items'⟩
      starts := (startsClass_congr alike).mp first.starts
      impossible := fun starts => first.impossible ((startsClass_congr alikeAll).mpr starts) }
  exact ⟨fault', failed', expected, (first''.unique first').2⟩

/-! ## Errors are reported at the earliest token -/

/-- A syntax error is reported at the first token that no class can have in its place, unless it is
about a limit.  It is the same in every source with tokens of the same kinds and texts up to this
one, whatever comes behind.  A lexical error is the first fault of the source, and some class starts
with the tokens in front of it. -/
theorem compileClass_earliest (failed : (compileClass options source).result = .error e) :
    (∀ fault, e = .token (.syntactic fault) → ¬ fault.IsLimit →
      ∃ before, FirstImpossible source before fault.token ∧
        ∀ source' before' t' behind',
          (Lexer.ofSource source').items = before'.map .ok ++ .ok t' :: behind' →
          List.Forall₂ Token.Alike before before' → fault.token.Alike t' →
          ∃ fault', (compileClass options source').result = .error (.token (.syntactic fault')) ∧
            fault'.expected = fault.expected ∧ fault'.token = t') ∧
    ∀ fault, e = .token (.lexical fault) →
      ∃ tokens, (Lexer.ofSource source).items = tokens.map .ok ++ [.error fault] ∧
        StartsClass tokens := by
  rcases compileClass_eq_error_iff_run.mp failed with ⟨p, run⟩
  constructor
  · rintro fault rfl unlimited
    rcases firstImpossible_of_run run unlimited with ⟨before, first, place⟩
    refine ⟨before, first, fun source' before' t' behind' items' alike alikeLast => ?_⟩
    exact exists_failed_of_alike run unlimited first place items' alike alikeLast
  · rintro fault rfl
    exact startsClass_of_run run

/-- A parenthesis behind the name of a class, in two sources.  In the second one the tokens stand at
other places, and a lexical fault follows. -/
theorem compileClass_earliest_parenthesis :
    ∃ fault, (compileClass {} "class A(".toList).result = .error (.token (.syntactic fault)) ∧
      FirstImpossible "class A(".toList
        [⟨.keyword .«class», "class", ⟨0, 1, 1⟩⟩, ⟨.identifier, "A", ⟨6, 1, 7⟩⟩] fault.token ∧
      ∃ fault', (compileClass {} "class\nA ( \"".toList).result =
          .error (.token (.syntactic fault')) ∧
        fault'.expected = "symbol '\x7b'" ∧
        fault'.token = ⟨.symbol .leftParen, "(", ⟨8, 2, 3⟩⟩ := by
  have failed : (compileClass {} "class A(".toList).result =
      .error (.token (.syntactic
        ⟨"symbol '\x7b'", ⟨.symbol .leftParen, "(", ⟨7, 1, 8⟩⟩, "class A(\n       ^"⟩)) :=
    compileClass_of_failure _ _ (by cbv)
  have unlimited : "symbol '\x7b'" ∉
      [Step.tooManyArguments, "shorter string constant", "character with code up to 32767"] := by
    decide
  rcases (compileClass_earliest failed).1 _ rfl unlimited with ⟨before, first, transfer⟩
  have known : before =
      [⟨.keyword .«class», "class", ⟨0, 1, 1⟩⟩, ⟨.identifier, "A", ⟨6, 1, 7⟩⟩] := by
    rcases first.items with ⟨behind, items⟩
    have evaluated : (Lexer.ofSource "class A(".toList).items =
        [.ok ⟨.keyword .«class», "class", ⟨0, 1, 1⟩⟩, .ok ⟨.identifier, "A", ⟨6, 1, 7⟩⟩,
          .ok ⟨.symbol .leftParen, "(", ⟨7, 1, 8⟩⟩, .ok ⟨.endOfFile, "", ⟨8, 1, 9⟩⟩] := by
      cbv
    rw [evaluated] at items
    rcases before with _ | ⟨t, _ | ⟨u, _ | ⟨v, _ | ⟨_, _⟩⟩⟩⟩ <;> simp at items
    rw [items.1, items.2.1]
  subst known
  have items' : (Lexer.ofSource "class\nA ( \"".toList).items =
      [⟨.keyword .«class», "class", ⟨0, 1, 1⟩⟩, ⟨.identifier, "A", ⟨6, 2, 1⟩⟩].map .ok ++
        .ok ⟨.symbol .leftParen, "(", ⟨8, 2, 3⟩⟩ ::
          [.error ⟨.unterminatedString, ⟨10, 2, 5⟩, "A ( \"\n    ^"⟩] := by
    cbv
  rcases transfer _ _ _ _ items' (.cons ⟨rfl, rfl⟩ (.cons ⟨rfl, rfl⟩ .nil)) ⟨rfl, rfl⟩ with
    ⟨fault', failed', expected, token⟩
  exact ⟨_, failed, first, fault', failed', expected, token⟩

end Jack
