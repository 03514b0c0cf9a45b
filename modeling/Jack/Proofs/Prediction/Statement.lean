import Jack.Compiler.Statement
import Jack.Proofs.Prediction.Expression

namespace Jack

open Computability

open Grammar

/-!
# Statements are predicted

The first word of a statement tells its form, and one more token tells whether a `let` statement has
an index and whether an `if` statement has a second block.  Behind a `return`, the compiler may look
at the next token without need; this does no harm, since a lexical fault there stands behind a
complete statement.
-/

namespace Step

variable {p : Progress} {t : Token} {K : Language Lexeme} {f : Frame} {bound : Nat}

theorem predicts_letStatement [Productive K] (current : p.stream.current = .ok t)
    (word : t.kind = .keyword .«let») :
    (letStatement f bound).Predicts p (statementForms .«let» * K) K := by
  have assigning (q : Progress) (rest : Step Unit) (quiet : rest.Quiet) :
      (do symbol .equal; expression f.className bound; symbol .semicolon; rest : Step Unit).Predicts
        q (ofKind (.symbol .equal) * (expressions * (ofKind (.symbol .semicolon) * K))) K := by
    refine (predicts_symbol _).bind fun _ q => ?_
    refine (predicts_expression (beginsWith_ofKind rfl).mul).bind fun _ q => ?_
    exact (predicts_symbol _).bind fun _ q => quiet.predicts
  simp only [statementForms, statementRests, mul_assoc, add_mul]
  refine (predicts_skip_ofKind current word (by simp)).bind fun _ q => ?_
  refine (predicts_consume (by simp)).bind fun name q => ?_
  refine (quiet_resolve _).predicts.bind fun target q => ?_
  refine predicts_accept_bind (by simp) (beginsWith_ofKind rfl).mul (fun q => ?_) ?_
  · refine (quiet_emit _).predicts.bind fun _ q => ?_
    refine (predicts_expression (beginsWith_ofKind rfl).mul).bind fun _ q => ?_
    refine (predicts_symbol _).bind fun _ q => ?_
    refine (quiet_emit _).predicts.bind fun _ q => ?_
    exact assigning q _ (quiet_emit _)
  · exact assigning q _ (quiet_emit _)

theorem predicts_doStatement [Productive K] (current : p.stream.current = .ok t)
    (word : t.kind = .keyword .«do») :
    (doStatement f bound).Predicts p (statementForms .«do» * K) K := by
  simp only [statementForms, statementRests, mul_assoc]
  refine (predicts_skip_ofKind current word (by simp)).bind fun _ q => ?_
  refine predicts_call.bind fun _ q => ?_
  exact (predicts_symbol _).bind fun _ q => (quiet_emit _).predicts

/-- There may be no value, and the semicolon tells so. -/
theorem predicts_returnValue [Productive K]
    (closes : BeginsWith (fun k => k = .symbol .semicolon) K) :
    (returnValue f bound).Predicts p ((1 + expressions) * K) K := by
  rw [add_mul, one_mul]
  refine predicts_peek_bind fun t current => ?_
  split
  · rename_i semicolon
    refine (predicts_pure _).widen current (.left (beginsWith_expressions.mul.not_viable ?_))
    rw [Token.kind_lexeme, semicolon]
    rfl
  · rename_i more
    refine Predicts.widen ?_ current (.right (closes.not_viable ?_))
    · refine predicts_expression (closes.mono fun k same => ?_)
      rw [of_decide_eq_true same]
      rfl
    · rw [Token.kind_lexeme, decide_eq_false more]

/-- A look behind the statement may find a lexical fault there. -/
theorem predicts_needsJump [Productive K] (nested : Bool) :
    (needsJump f nested).Predicts p K K := by
  unfold needsJump
  split
  · exact predicts_peek_bind fun _ _ => predicts_pure _
  · exact predicts_pure _

theorem predicts_returnStatement [Productive K] (nested : Bool)
    (current : p.stream.current = .ok t) (word : t.kind = .keyword .«return») :
    (returnStatement f bound nested).Predicts p (statementForms .«return» * K) K := by
  simp only [statementForms, statementRests, mul_assoc]
  refine (predicts_skip_ofKind current word (by simp)).bind fun _ q => ?_
  refine (predicts_returnValue (beginsWith_ofKind (by rfl)).mul).bind fun _ q => ?_
  refine (predicts_symbol _).bind fun _ q => ?_
  refine (predicts_needsJump nested).bind fun jumps q => ?_
  cases jumps with
  | true => exact (quiet_emit _).predicts.bind fun _ q => predicts_pure _
  | false => exact predicts_pure _

/-- The functions on statements predict under a given bound, in front of anything that may follow
them. -/
structure PredictStatements (f : Frame) (bound : Nat) : Prop where
  statements : ∀ (p : Progress) (nested jumps : Bool) (K : Language Lexeme) [Productive K],
    BeginsWith TokenKind.closesBlock K →
    (statements f bound nested jumps).Predicts p (statementLists * K) K
  statement : ∀ {p : Progress} {t : Token} (nested : Bool) (form : StatementKind)
    (K : Language Lexeme) [Productive K], p.stream.current = .ok t → t.kind = .keyword form.word →
    BeginsWith TokenKind.followsStatement K →
    (statement f bound nested form).Predicts p (statementForms form * K) K
  block : ∀ (p : Progress) (K : Language Lexeme) [Productive K],
    (block f bound).Predicts p (blocks * K) K
  ifStatement : ∀ {p : Progress} {t : Token} (K : Language Lexeme) [Productive K],
    p.stream.current = .ok t → t.kind = .keyword .«if» → BeginsWith TokenKind.followsStatement K →
    (ifStatement f bound).Predicts p (statementForms .«if» * K) K
  whileStatement : ∀ {p : Progress} {t : Token} (K : Language Lexeme) [Productive K],
    p.stream.current = .ok t → t.kind = .keyword .«while» →
    (whileStatement f bound).Predicts p (statementForms .«while» * K) K

/-- Nothing is said without a bound. -/
theorem predictStatements_zero : PredictStatements f 0 where
  statements p nested jumps K _ _ := by rw [Step.statements]; exact predicts_exhausted
  statement nested form K _ _ _ _ := by rw [Step.statement]; exact predicts_exhausted
  block p K _ := by rw [Step.block]; exact predicts_exhausted
  ifStatement K _ _ _ _ := by rw [Step.ifStatement]; exact predicts_exhausted
  whileStatement K _ _ _ := by rw [Step.whileStatement]; exact predicts_exhausted

namespace PredictStatements

variable (below : PredictStatements f bound)

include below

/-- A word tells that there is another statement.  What closes a block starts none. -/
theorem statements_succ (nested jumps : Bool) [Productive K]
    (closes : BeginsWith TokenKind.closesBlock K) :
    (Step.statements f (bound + 1) nested jumps).Predicts p (statementLists * K) K := by
  rw [Step.statements, statementLists_eq]
  refine predicts_peek_bind fun t current => ?_
  cases start : t.kind.statementKind? with
  | none =>
      rw [← Token.kind_lexeme] at start
      exact (predicts_pure _).widen current (selects_statementForms.narrows_end start)
  | some form =>
      have word := TokenKind.eq_of_statementKind? start
      rw [← Token.kind_lexeme] at start
      have other : ¬ Viable K [t.lexeme] := by
        apply closes.not_viable
        rw [Token.kind_lexeme, word]
        rfl
      refine Predicts.widen ?_ current (selects_statementForms.narrows_kstar_mul start other)
      refine (below.statement nested form _ current word ?_).bind fun jumpsHere q => ?_
      · apply BeginsWith.kstar_mul
        · refine selects_statementForms.beginsWith.mono fun k statement => ?_
          rw [TokenKind.followsStatement, statement, Bool.true_or]
        · refine closes.mono fun k closes => ?_
          rw [TokenKind.followsStatement, closes, Bool.or_true]
      · rw [← statementLists_eq]
        exact below.statements q nested _ K closes

theorem block_succ [Productive K] :
    (Step.block f (bound + 1)).Predicts p (blocks * K) K := by
  rw [Step.block, blocks, mul_assoc, mul_assoc]
  refine (predicts_symbol _).bind fun _ q => ?_
  refine (below.statements q true false _ (beginsWith_ofKind rfl).mul).bind fun jumps q => ?_
  exact (predicts_symbol _).bind fun _ q => predicts_pure _

/-- What follows the statement does not start with `else`, so that this word tells of a second
block. -/
theorem ifStatement_succ [Productive K] (current : p.stream.current = .ok t)
    (word : t.kind = .keyword .«if») (follows : BeginsWith TokenKind.followsStatement K) :
    (Step.ifStatement f (bound + 1)).Predicts p (statementForms .«if» * K) K := by
  rw [Step.ifStatement]
  simp only [statementForms, statementRests, mul_assoc, elseRests, add_mul, one_mul]
  refine (predicts_skip_ofKind current word (by simp)).bind fun _ q => ?_
  refine (predicts_symbol _).bind fun _ q => ?_
  refine (predicts_expression (beginsWith_ofKind rfl).mul).bind fun _ q => ?_
  refine (predicts_symbol _).bind fun _ q => ?_
  refine quiet_freshLabel.predicts.bind fun id q => ?_
  refine (quiet_emit _).predicts.bind fun _ q => ?_
  refine (below.block q _).bind fun jumpsThen q => ?_
  refine predicts_accept_bind (by simp) ?_ (fun q => ?_) ?_
  · refine follows.mono fun k follows => ?_
    cases k with
    | keyword w => cases w <;> first | rfl | cases follows
    | _ => rfl
  · refine (quiet_emit _).predicts.bind fun _ q => ?_
    refine (below.block q _).bind fun jumpsElse q => ?_
    exact (quiet_emit _).predicts.bind fun _ q => predicts_pure _
  · exact (quiet_emit _).predicts.bind fun _ q => predicts_pure _

theorem whileStatement_succ [Productive K] (current : p.stream.current = .ok t)
    (word : t.kind = .keyword .«while») :
    (Step.whileStatement f (bound + 1)).Predicts p (statementForms .«while» * K) K := by
  rw [Step.whileStatement]
  simp only [statementForms, statementRests, mul_assoc]
  refine (predicts_skip_ofKind current word (by simp)).bind fun _ q => ?_
  refine quiet_freshLabel.predicts.bind fun id q => ?_
  refine (quiet_emit _).predicts.bind fun _ q => ?_
  refine (predicts_symbol _).bind fun _ q => ?_
  refine (predicts_expression (beginsWith_ofKind rfl).mul).bind fun _ q => ?_
  refine (predicts_symbol _).bind fun _ q => ?_
  refine (quiet_emit _).predicts.bind fun _ q => ?_
  refine (below.block q _).bind fun jumps q => ?_
  exact (quiet_emit _).predicts.bind fun _ q => predicts_pure _

/-- The word in front has selected the form. -/
theorem statement_succ (nested : Bool) (form : StatementKind) [Productive K]
    (current : p.stream.current = .ok t) (word : t.kind = .keyword form.word)
    (follows : BeginsWith TokenKind.followsStatement K) :
    (Step.statement f (bound + 1) nested form).Predicts p (statementForms form * K) K := by
  cases form <;> rw [Step.statement]
  case «let» => exact (predicts_letStatement current word).bind fun _ q => predicts_pure _
  case «do» => exact (predicts_doStatement current word).bind fun _ q => predicts_pure _
  case «return» => exact predicts_returnStatement nested current word
  case «if» => exact below.ifStatement K current word follows
  case «while» => exact below.whileStatement K current word

end PredictStatements

/-- Statements are predicted. -/
theorem predictStatements (f : Frame) (bound : Nat) : PredictStatements f bound := by
  induction bound with
  | zero => exact predictStatements_zero
  | succ bound below =>
      exact
        { statements := fun _ nested jumps _ _ => below.statements_succ nested jumps
          statement := fun nested form _ _ => below.statement_succ nested form
          block := fun _ _ _ => below.block_succ
          ifStatement := fun _ _ => below.ifStatement_succ
          whileStatement := fun _ _ => below.whileStatement_succ }

end Step

end Jack
