import Jack.Proofs.Prediction.Grammar
import Jack.Proofs.Prediction.Step

namespace Jack

open Computability

open Grammar

/-!
# Expressions are predicted

The functions on expressions know which lexemes are possible in front of them.  An expression stops
where no operator follows, so what may stand behind it must not begin with one, and neither may what
stands behind a name begin like the rest of a longer term.
-/

/-- What follows a term of an expression is an operator, or it closes the expression. -/
theorem begins_followsTerm {K : Language Lexeme}
    (closed : BeginsWith TokenKind.closesExpression K) :
    BeginsWith TokenKind.followsTerm ((⨆ o, operations o)∗ * K) := by
  apply BeginsWith.kstar_mul
  · refine selects_operations.beginsWith.mono fun k operator => ?_
    rw [TokenKind.followsTerm, operator, Bool.true_or]
  · exact closed.mono fun k => TokenKind.followsTerm_of_closesExpression

namespace Step

variable {p : Progress} {K : Language Lexeme} {className : String} {bound : Nat}

/-- The constant has been read.  Its limits are none of the grammar. -/
theorem predicts_stringConstant (t : Token) : (stringConstant t).Predicts p K K := by
  unfold stringConstant
  split
  · exact predicts_limit t (by simp)
  · split
    · exact predicts_limit t (by simp)
    · exact (quiet_emit _).predicts

/-- The text of an integer constant spells a word wherever the lexer has made the token. -/
theorem predicts_integerConstant {t : Token} (current : p.stream.current = .ok t)
    (number : t.kind = .integer) :
    (do
      skip
      integerConstant t).Predicts p (ofKind .integer * K) K := by
  cases spells : Token.word? t.text.toList with
  | some value =>
      simp only [integerConstant, spells]
      exact (predicts_skip_ofKind current number (by simp)).bind fun _ q => (quiet_emit _).predicts
  | none =>
      simp only [integerConstant, spells]
      refine .inl (.inr ⟨[], p.stream, .nil _, fun spelled => ?_⟩)
      rcases (spelled t current).integer number with ⟨value, same⟩
      rw [spells] at same
      cases same

/-- The name of what is called is one identifier, or two with a dot between them.  The parenthesis
behind it must be possible, so that a dot tells that there is a second one. -/
theorem predicts_callee [Productive K]
    (opens : BeginsWith (fun k => k = .symbol .leftParen) K) :
    (callee className).Predicts p (ofKind .identifier * (memberRests * K)) K := by
  rw [callee_eq, memberRests, add_mul, one_mul, mul_assoc]
  refine (predicts_consume (by simp)).bind fun first q => ?_
  refine predicts_accept_bind (by simp) ?_ (fun q => ?_) ?_
  · exact opens.mono fun k same => by simp [of_decide_eq_true same]
  · refine (predicts_consume (by simp)).bind fun member q => ?_
    refine (quiet_symbol? _).predicts.bind fun object q => ?_
    cases object with
    | none => exact predicts_pure _
    | some object => exact (quiet_emit _).predicts.bind fun _ q => predicts_pure _
  · exact (quiet_emit _).predicts.bind fun _ q => predicts_pure _

variable {l : Lexeme}

/-- A bracket behind a name is part of an array element. -/
theorem narrows_elementRests (follows : BeginsWith TokenKind.followsTerm K)
    (kind : l.kind = .symbol .leftBracket) : Narrows l (nameRests * K) (elementRests * K) := by
  rw [nameRests, add_mul, add_mul, one_mul]
  refine (Narrows.left (beginsWith_callRests.mul.not_viable ?_)).trans
    (.right (follows.not_viable ?_)) <;> rw [kind] <;> rfl

/-- A parenthesis or a dot behind a name is part of a call. -/
theorem narrows_callRests (follows : BeginsWith TokenKind.followsTerm K)
    (kind : l.kind = .symbol .leftParen ∨ l.kind = .symbol .dot) :
    Narrows l (nameRests * K) (callRests * K) := by
  rw [nameRests, add_mul, add_mul, one_mul, add_comm K, add_assoc]
  refine (Narrows.right (beginsWith_elementRests.mul.not_viable ?_)).trans
    (.right (follows.not_viable ?_)) <;> rcases kind with kind | kind <;> rw [kind] <;> rfl

/-- Anything else behind a name comes behind the term. -/
theorem narrows_plain (element : l.kind ≠ .symbol .leftBracket)
    (call : l.kind ≠ .symbol .leftParen) (member : l.kind ≠ .symbol .dot) :
    Narrows l (nameRests * K) K := by
  rw [nameRests, add_mul, add_mul, one_mul]
  refine (Narrows.left (beginsWith_callRests.mul.not_viable ?_)).trans
    (.left (beginsWith_elementRests.mul.not_viable ?_))
  · rw [decide_eq_false member, decide_eq_false call, Bool.or_false]
  · exact decide_eq_false element

/-- The functions on expressions predict under a given bound, in front of anything that may follow
them. -/
structure PredictExpressions (className : String) (bound : Nat) : Prop where
  expression : ∀ (p : Progress) (K : Language Lexeme) [Productive K],
    BeginsWith TokenKind.closesExpression K →
    (expression className bound).Predicts p (expressions * K) K
  operators : ∀ (p : Progress) (K : Language Lexeme) [Productive K],
    BeginsWith TokenKind.closesExpression K →
    (operators className bound).Predicts p ((⨆ o, operations o)∗ * K) K
  term : ∀ (p : Progress) (K : Language Lexeme) [Productive K],
    BeginsWith TokenKind.followsTerm K → (term className bound).Predicts p (terms * K) K
  element : ∀ (p : Progress) (K : Language Lexeme) [Productive K],
    (element className bound).Predicts p (ofKind .identifier * (elementRests * K)) K
  call : ∀ (p : Progress) (K : Language Lexeme) [Productive K],
    (call className bound).Predicts p (ofKind .identifier * (callRests * K)) K
  arguments : ∀ (p : Progress) (K : Language Lexeme) [Productive K],
    BeginsWith (fun k => k = .symbol .rightParen) K →
    (arguments className bound).Predicts p (argumentLists * K) K
  argumentsBehind : ∀ (p : Progress) (count : Nat) (K : Language Lexeme) [Productive K],
    BeginsWith (fun k => k = .symbol .rightParen) K →
    (argumentsBehind className bound count).Predicts p
      (separated (.symbol .comma) expressions * K) K

/-- Nothing is said without a bound. -/
theorem predictExpressions_zero : PredictExpressions className 0 where
  expression p K _ _ := by rw [Step.expression]; exact predicts_exhausted
  operators p K _ _ := by rw [Step.operators]; exact predicts_exhausted
  term p K _ _ := by rw [Step.term]; exact predicts_exhausted
  element p K _ := by rw [Step.element]; exact predicts_exhausted
  call p K _ := by rw [Step.call]; exact predicts_exhausted
  arguments p K _ _ := by rw [Step.arguments]; exact predicts_exhausted
  argumentsBehind p count K _ _ := by rw [Step.argumentsBehind]; exact predicts_exhausted

namespace PredictExpressions

variable (below : PredictExpressions className bound)

include below

theorem expression_succ [Productive K] (closed : BeginsWith TokenKind.closesExpression K) :
    (Step.expression className (bound + 1)).Predicts p (expressions * K) K := by
  rw [Step.expression, expressions_eq, mul_assoc]
  exact (below.term p _ (begins_followsTerm closed)).bind fun _ q => below.operators q K closed

/-- An operator tells that the chain goes on.  No operator closes an expression, and so nothing else
is possible behind it. -/
theorem operators_succ [Productive K] (closed : BeginsWith TokenKind.closesExpression K) :
    (Step.operators className (bound + 1)).Predicts p ((⨆ o, operations o)∗ * K) K := by
  rw [operators_eq]
  refine predicts_peek_bind fun t current => ?_
  cases operator : t.kind.binaryOperator? with
  | none =>
      rw [← Token.kind_lexeme] at operator
      exact (predicts_pure _).widen current (selects_operations.narrows_end operator)
  | some o =>
      have isOperator := TokenKind.eq_of_binaryOperator? operator
      rw [← Token.kind_lexeme] at operator
      have other : ¬ Viable K [t.lexeme] := by
        apply closed.not_viable
        rw [Token.kind_lexeme, isOperator]
        cases o <;> rfl
      refine Predicts.widen ?_ current (selects_operations.narrows_kstar_mul operator other)
      rw [operations, mul_assoc]
      refine (predicts_skip_ofKind current isOperator (by simp)).bind fun _ q => ?_
      refine (below.term _ _ ?_).bind fun _ q => ?_
      · exact begins_followsTerm closed
      · exact (quiet_emit _).predicts.bind fun _ q => below.operators q K closed

/-- The first lexeme of a term selects its form, and for a name the lexeme behind it selects one of
three forms. -/
theorem term_succ [Productive K] (follows : BeginsWith TokenKind.followsTerm K) :
    (Step.term className (bound + 1)).Predicts p (terms * K) K := by
  rw [Step.term]
  refine predicts_peek_bind fun t current => ?_
  cases start : t.kind.termKind? with
  | none =>
      apply predicts_unexpected _ current
      apply beginsWith_terms.mul.not_viable
      rw [Token.kind_lexeme, start, Option.isSome_none]
  | some form =>
      have kind := TokenKind.eq_of_termKind? start
      rw [← Token.kind_lexeme] at start
      rw [terms_eq]
      refine Predicts.widen ?_ current (selects_termForms.narrows_mul start)
      cases form with
      | integer =>
          exact predicts_integerConstant current kind
      | string =>
          exact (predicts_skip_ofKind current kind (by simp)).bind fun _ q =>
            predicts_stringConstant t
      | constant k =>
          exact (predicts_skip_ofKind current kind (by simp)).bind fun _ q =>
            (quiet_emit _).predicts
      | unary o =>
          rw [termForms, mul_assoc]
          refine (predicts_skip_ofKind current kind (by simp)).bind fun _ q => ?_
          exact (below.term q K follows).bind fun _ q => (quiet_emit _).predicts
      | parenthesis =>
          rw [termForms, mul_assoc, mul_assoc]
          refine (predicts_skip_ofKind current kind (by simp)).bind fun _ q => ?_
          refine (below.expression q _ ?_).bind fun _ q => predicts_symbol _
          exact (beginsWith_ofKind rfl).mul
      | name =>
          rw [termForms, mul_assoc]
          have kind : t.kind = .identifier := kind
          have viable : Viable (ofKind .identifier * (nameRests * K)) [t.lexeme] :=
            viable_of_kind (by rw [Token.kind_lexeme, kind])
          refine predicts_peekNext_bind current (by simp [kind]) viable fun u next => ?_
          have moves : BeginsWith (fun k => !decide (k = .identifier)) K := by
            refine follows.mono fun k follows => ?_
            cases k <;> first | rfl | cases follows
          rw [← Token.kind_lexeme u]
          split
          · rename_i bracket
            exact (below.element p K).widen_next current kind next
              (narrows_elementRests follows bracket) moves
          · rename_i parenthesis
            exact (below.call p K).widen_next current kind next
              (narrows_callRests follows (.inl parenthesis)) moves
          · rename_i dot
            exact (below.call p K).widen_next current kind next
              (narrows_callRests follows (.inr dot)) moves
          · rename_i notElement notCall notMember
            refine Predicts.widen_next ?_ current kind next
              (narrows_plain notElement notCall notMember) moves
            refine (predicts_consume (by simp)).bind fun name q => ?_
            exact (quiet_resolve _).predicts.bind fun s q => (quiet_emit _).predicts

theorem element_succ [Productive K] :
    (Step.element className (bound + 1)).Predicts p (ofKind .identifier * (elementRests * K))
      K := by
  rw [Step.element, elementRests, mul_assoc, mul_assoc]
  refine (predicts_consume (by simp)).bind fun name q => ?_
  refine (quiet_resolve _).predicts.bind fun array q => ?_
  refine (predicts_symbol _).bind fun _ q => ?_
  refine (quiet_emit _).predicts.bind fun _ q => ?_
  refine (below.expression q _ (beginsWith_ofKind rfl).mul).bind fun _ q => ?_
  exact (predicts_symbol _).bind fun _ q => (quiet_emit _).predicts

theorem call_succ [Productive K] :
    (Step.call className (bound + 1)).Predicts p (ofKind .identifier * (callRests * K)) K := by
  rw [Step.call, callRests, mul_assoc, mul_assoc, mul_assoc]
  refine (predicts_callee (beginsWith_ofKind (by rfl)).mul).bind fun target q => ?_
  refine (predicts_symbol _).bind fun _ q => ?_
  refine (below.arguments q _ (beginsWith_ofKind (by rfl)).mul).bind fun listed q => ?_
  refine (predicts_consume (by simp)).bind fun close q => ?_
  dsimp only
  split
  · exact predicts_limit _ (by simp)
  · exact (quiet_emit _).predicts

/-- There may be no arguments, and the closing parenthesis tells so. -/
theorem arguments_succ [Productive K]
    (closes : BeginsWith (fun k => k = .symbol .rightParen) K) :
    (Step.arguments className (bound + 1)).Predicts p (argumentLists * K) K := by
  rw [Step.arguments, argumentLists_eq, add_mul, one_mul]
  refine predicts_peek_bind fun t current => ?_
  split
  · rename_i close
    refine (predicts_pure _).widen current (.left ?_)
    apply (beginsWith_expressions.mul (M := _)).mul.not_viable
    rw [Token.kind_lexeme, close]
    rfl
  · rename_i more
    refine (below.argumentsBehind p 0 K closes).widen current (.right ?_)
    apply closes.not_viable
    rw [Token.kind_lexeme, decide_eq_false more]

/-- That there are too many arguments is no matter of the grammar. -/
theorem argumentsBehind_succ (count : Nat) [Productive K]
    (closes : BeginsWith (fun k => k = .symbol .rightParen) K) :
    (Step.argumentsBehind className (bound + 1) count).Predicts p
      (separated (.symbol .comma) expressions * K) K := by
  rw [Step.argumentsBehind]
  refine predicts_peek_bind fun first current => ?_
  split
  · exact predicts_limit _ (by simp)
  · rw [separated, mul_assoc]
    refine (below.expression p _ ?_).bind fun _ q => ?_
    · refine (beginsWith_ofKind rfl).mul.kstar_mul (closes.mono fun k same => ?_)
      rw [of_decide_eq_true same]
      rfl
    · rw [kstar_separated_mul]
      refine predicts_accept_bind (by simp) ?_ (fun q => ?_) (predicts_pure _)
      · refine closes.mono fun k same => ?_
        rw [of_decide_eq_true same]
        rfl
      · exact below.argumentsBehind q (count + 1) K closes

end PredictExpressions

/-- Expressions are predicted. -/
theorem predictExpressions (className : String) (bound : Nat) :
    PredictExpressions className bound := by
  induction bound with
  | zero => exact predictExpressions_zero
  | succ bound below =>
      exact
        { expression := fun _ _ _ => below.expression_succ
          operators := fun _ _ _ => below.operators_succ
          term := fun _ _ _ => below.term_succ
          element := fun _ _ _ => below.element_succ
          call := fun _ _ _ => below.call_succ
          arguments := fun _ _ _ => below.arguments_succ
          argumentsBehind := fun _ count _ _ => below.argumentsBehind_succ count }

theorem predicts_expression [Productive K] (closed : BeginsWith TokenKind.closesExpression K) :
    (expression className bound).Predicts p (expressions * K) K :=
  (predictExpressions className bound).expression p K closed

theorem predicts_call [Productive K] :
    (call className bound).Predicts p (languageOf Call.lexemes * K) K := by
  rw [calls_eq, mul_assoc]
  exact (predictExpressions className bound).call p K

end Step

end Jack
