import Jack.Compiler.Statement
import Jack.Proofs.Compiler.ExpressionSuccess

namespace Jack

/-!
# Acceptable statements compile

In front of the lexemes of acceptable statements, the functions on statements succeed and stop
behind them.  A block is closed by its brace, and a statement is followed by another one or by that
brace.  Whether a `return` jumps is of no concern here.
-/

/-- What follows a statement of a block. -/
theorem Statements.begins_followsStatement (statements : Statements) (rest : List Lexeme) :
    Begins TokenKind.followsStatement (statements.lexemes ++ .symbol .rightBrace :: rest) :=
  (statements.heads_followsStatement rest).begins
    (List.append_ne_nil_of_right_ne_nil _ (List.cons_ne_nil _ _))

namespace TokenKind

/-- What follows a statement does not continue a branch. -/
theorem ne_else_of_followsStatement {k : TokenKind} (follows : k.followsStatement = true) :
    decide (k ≠ .keyword .«else») = true := by
  apply decide_eq_true
  intro same
  rw [same] at follows
  cases follows

end TokenKind

namespace Step

variable {p : Progress} {symbols : SymbolTable} {rest : List Lexeme} {s : TokenStream}
  {f : Frame} {bound : Nat}

/-- An acceptable assignment to a variable is read to its semicolon. -/
theorem succeeds_letVariable {target : String} {value : Expression}
    (acceptable : (Statement.letVariable target value).Acceptable symbols.get?)
    (front : p.InFront symbols ((Statement.letVariable target value).lexemes ++ rest) s) :
    (letStatement f bound).Succeeds p fun _ q => q.InFront symbols rest s := by
  rw [Statement.lexemes, List.cons_append, List.cons_append, List.cons_append, List.append_assoc,
    List.singleton_append] at front
  rcases acceptable with ⟨declared, acceptable⟩
  apply (succeeds_skip front).bind
  intro _ p₁ front
  apply (succeeds_consume_identifier front).bind
  rintro name p₂ ⟨sameName, front⟩
  apply (succeeds_resolve front (sameName ▸ declared)).bind
  intro symbol p₃ front
  apply (succeeds_accept_other front (begins_cons.mpr rfl)).bind
  rintro _ p₄ ⟨rfl, front⟩
  apply (succeeds_symbol front).bind
  intro _ p₅ front
  apply (value.succeeds acceptable bound front (begins_cons.mpr rfl)).bind
  intro _ p₆ front
  apply (succeeds_symbol front).bind
  intro _ p₇ front
  exact succeeds_emit front

/-- An acceptable assignment to an element is read to its semicolon.  Both expressions are closed by
tokens of the statement. -/
theorem succeeds_letElement {array : String} {index value : Expression}
    (acceptable : (Statement.letElement array index value).Acceptable symbols.get?)
    (front : p.InFront symbols ((Statement.letElement array index value).lexemes ++ rest) s) :
    (letStatement f bound).Succeeds p fun _ q => q.InFront symbols rest s := by
  simp only [Statement.lexemes, List.cons_append, List.append_assoc, List.nil_append] at front
  rcases acceptable with ⟨declared, acceptableIndex, acceptableValue⟩
  apply (succeeds_skip front).bind
  intro _ p₁ front
  apply (succeeds_consume_identifier front).bind
  rintro name p₂ ⟨sameName, front⟩
  apply (succeeds_resolve front (sameName ▸ declared)).bind
  intro symbol p₃ front
  apply (succeeds_accept front rfl).bind
  rintro _ p₄ ⟨rfl, front⟩
  apply (succeeds_emit front).bind
  intro _ p₅ front
  apply (index.succeeds acceptableIndex bound front (begins_cons.mpr rfl)).bind
  intro _ p₆ front
  apply (succeeds_symbol front).bind
  intro _ p₇ front
  apply (succeeds_emit front).bind
  intro _ p₈ front
  apply (succeeds_symbol front).bind
  intro _ p₉ front
  apply (value.succeeds acceptableValue bound front (begins_cons.mpr rfl)).bind
  intro _ p₁₀ front
  apply (succeeds_symbol front).bind
  intro _ p₁₁ front
  exact succeeds_emit front

/-- An acceptable `do` statement is read to its semicolon. -/
theorem succeeds_doStatement {c : Call} (acceptable : c.Acceptable symbols.get?)
    (front : p.InFront symbols ((Statement.doCall c).lexemes ++ rest) s) :
    (doStatement f bound).Succeeds p fun _ q => q.InFront symbols rest s := by
  rw [Statement.lexemes, List.cons_append, List.append_assoc, List.singleton_append] at front
  apply (succeeds_skip front).bind
  intro _ p₁ front
  apply (c.succeeds acceptable bound front).bind
  intro _ p₂ front
  apply (succeeds_symbol front).bind
  intro _ p₃ front
  exact succeeds_emit front

/-- A value is read up to the semicolon, if there is one. -/
theorem succeeds_returnValue {value : Option Expression}
    (acceptable : (Statement.returnValue value).Acceptable symbols.get?)
    (front : p.InFront symbols ((Statement.returnValue value).lexemes.tail ++ rest) s) :
    (returnValue f bound).Succeeds p fun _ q =>
      q.InFront symbols (.symbol .semicolon :: rest) s := by
  cases value with
  | none =>
      rcases front.current with ⟨t, current, -, same, -⟩
      apply succeeds_peek_bind current
      have closed : t.kind = .symbol .semicolon := Token.kind_of_lexeme_eq same
      rw [if_pos closed]
      exact succeeds_pure front
  | some value =>
      rw [Statement.lexemes, List.tail_cons, List.append_assoc, List.singleton_append] at front
      rcases value.lexemes_eq_cons with ⟨l, more, written, start⟩
      have front' := front
      rw [written, List.cons_append] at front'
      rcases front'.current with ⟨t, current, -, same, -⟩
      have notClosed : t.kind ≠ .symbol .semicolon := by
        intro closed
        rw [← Token.kind_of_lexeme_eq same, closed] at start
        cases start
      apply succeeds_peek_bind current
      rw [if_neg notClosed]
      exact value.succeeds acceptable bound front (begins_cons.mpr rfl)

/-- The look at the token behind a `return` statement cannot fail, since a token is there. -/
theorem succeeds_needsJump {nested : Bool} {allowed : TokenKind → Bool}
    (front : p.InFront symbols rest s) (begins : Begins allowed rest) :
    (needsJump f nested).Succeeds p fun _ q => q.InFront symbols rest s := by
  rcases begins with ⟨l, more, rfl, -⟩
  rcases front.current with ⟨t, current, -⟩
  unfold needsJump
  split
  · apply succeeds_peek_bind current
    exact succeeds_pure front
  · exact succeeds_pure front

/-- An acceptable `return` statement is read to its semicolon.  Whether it has a value is not
compared with the result type of the subroutine. -/
theorem succeeds_returnStatement {nested : Bool} {value : Option Expression}
    (acceptable : (Statement.returnValue value).Acceptable symbols.get?)
    (front : p.InFront symbols ((Statement.returnValue value).lexemes ++ rest) s)
    (follows : Begins TokenKind.followsStatement rest) :
    (returnStatement f bound nested).Succeeds p fun _ q => q.InFront symbols rest s := by
  have word : (Statement.returnValue value).lexemes =
      .keyword .«return» :: (Statement.returnValue value).lexemes.tail := by
    cases value with
    | none => rfl
    | some value => rfl
  rw [word, List.cons_append] at front
  apply (succeeds_skip front).bind
  intro _ p₁ front
  apply (succeeds_returnValue acceptable front).bind
  intro _ p₂ front
  apply (succeeds_symbol front).bind
  intro _ p₃ front
  apply (succeeds_needsJump front follows).bind
  intro needed p₄ front
  cases needed with
  | true =>
      apply (succeeds_emit front).bind
      intro _ p₅ front
      exact succeeds_pure front
  | false => exact succeeds_pure front

/-- The statements that the lexemes write are read in a block, up to the brace that closes it.  This
is what the forms with blocks ask for. -/
def ReadsInBlock (f : Frame) (symbols : SymbolTable) (s : TokenStream) (inner : List Lexeme) :
    Prop :=
  ∀ (rest : List Lexeme) (bound : Nat) (p : Progress),
    p.InFront symbols (inner ++ .symbol .rightBrace :: rest) s →
      (statements f bound true false).Succeeds p fun _ q =>
        q.InFront symbols (.symbol .rightBrace :: rest) s

/-- A block succeeds if its statements do. -/
theorem succeeds_block {inner : List Lexeme} (bound : Nat) (reads : ReadsInBlock f symbols s inner)
    (front : p.InFront symbols (braced inner ++ rest) s) :
    (block f bound).Succeeds p fun _ q => q.InFront symbols rest s := by
  cases bound with
  | zero => exact succeeds_exhausted
  | succ bound =>
      rw [braced_append] at front
      rw [Step.block]
      apply (succeeds_symbol front).bind
      intro _ p₁ front
      apply (reads rest bound p₁ front).bind
      intro jumps p₂ front
      apply (succeeds_symbol front).bind
      intro _ p₃ front
      exact succeeds_pure front

/-- An `if` statement up to its first block, in front of what decides whether there is a second. -/
theorem succeeds_ifStatement {condition : Expression} {inner : List Lexeme} (bound : Nat)
    {post : Bool → Progress → Prop} (acceptable : condition.Acceptable symbols.get?)
    (front : p.InFront symbols (.keyword .«if» :: .symbol .leftParen ::
      (condition.lexemes ++ .symbol .rightParen :: (braced inner ++ rest))) s)
    (reads : ReadsInBlock f symbols s inner)
    (behind : ∀ id bound jumpsThen (q : Progress), q.InFront symbols rest s →
      (do
        if ← accept (.keyword .«else») then
          emit [.goto (Code.ifEndLabel id), .label (Code.ifFalseLabel id)]
          let jumpsElse ← block f bound
          emit [.label (Code.ifEndLabel id)]
          return jumpsThen || jumpsElse
        else
          emit [.label (Code.ifFalseLabel id)]
          return jumpsThen : Step Bool).Succeeds q post) :
    (ifStatement f bound).Succeeds p post := by
  cases bound with
  | zero => exact succeeds_exhausted
  | succ bound =>
      rw [Step.ifStatement]
      apply (succeeds_skip front).bind
      intro _ p₁ front
      apply (succeeds_symbol front).bind
      intro _ p₂ front
      apply (condition.succeeds acceptable bound front (begins_cons.mpr rfl)).bind
      intro _ p₃ front
      apply (succeeds_symbol front).bind
      intro _ p₄ front
      apply (succeeds_freshLabel front).bind
      intro id p₅ front
      apply (succeeds_emit front).bind
      intro _ p₆ front
      apply (succeeds_block bound reads front).bind
      intro jumpsThen p₇ front
      exact behind id bound jumpsThen p₇ front

/-- An acceptable `if` statement with one block is read to its end, if its block is. -/
theorem succeeds_ifThen {condition : Expression} {thenBlock : Statements} (bound : Nat)
    (acceptable : condition.Acceptable symbols.get?)
    (reads : ReadsInBlock f symbols s thenBlock.lexemes)
    (front : p.InFront symbols ((Statement.ifThen condition thenBlock).lexemes ++ rest) s)
    (follows : Begins TokenKind.followsStatement rest) :
    (ifStatement f bound).Succeeds p fun _ q => q.InFront symbols rest s := by
  simp only [Statement.lexemes, List.cons_append, List.append_assoc] at front
  apply succeeds_ifStatement bound acceptable front reads
  intro id bound jumpsThen q front
  -- What follows the statement is no `else`, and so there is no second block.
  apply (succeeds_accept_other front
    (follows.mono fun _ => TokenKind.ne_else_of_followsStatement)).bind
  rintro _ p₁ ⟨rfl, front⟩
  apply (succeeds_emit front).bind
  intro _ p₂ front
  exact succeeds_pure front

/-- An acceptable `if` statement with two blocks is read to its end, if both blocks are. -/
theorem succeeds_ifElse {condition : Expression} {thenBlock elseBlock : Statements} (bound : Nat)
    (acceptable : condition.Acceptable symbols.get?)
    (readsThen : ReadsInBlock f symbols s thenBlock.lexemes)
    (readsElse : ReadsInBlock f symbols s elseBlock.lexemes)
    (front : p.InFront symbols
      ((Statement.ifElse condition thenBlock elseBlock).lexemes ++ rest) s) :
    (ifStatement f bound).Succeeds p fun _ q => q.InFront symbols rest s := by
  simp only [Statement.lexemes, List.cons_append, List.append_assoc] at front
  apply succeeds_ifStatement bound acceptable front readsThen
  intro id bound jumpsThen q front
  apply (succeeds_accept front rfl).bind
  rintro _ p₁ ⟨rfl, front⟩
  apply (succeeds_emit front).bind
  intro _ p₂ front
  apply (succeeds_block bound readsElse front).bind
  intro jumpsElse p₃ front
  apply (succeeds_emit front).bind
  intro _ p₄ front
  exact succeeds_pure front

/-- An acceptable loop is read to its end, if its block is. -/
theorem succeeds_whileLoop {condition : Expression} {inside : Statements} (bound : Nat)
    (acceptable : condition.Acceptable symbols.get?)
    (reads : ReadsInBlock f symbols s inside.lexemes)
    (front : p.InFront symbols ((Statement.whileLoop condition inside).lexemes ++ rest) s) :
    (whileStatement f bound).Succeeds p fun _ q => q.InFront symbols rest s := by
  cases bound with
  | zero => exact succeeds_exhausted
  | succ bound =>
      simp only [Statement.lexemes, List.cons_append, List.append_assoc] at front
      rw [Step.whileStatement]
      apply (succeeds_skip front).bind
      intro _ p₁ front
      apply (succeeds_freshLabel front).bind
      intro id p₂ front
      apply (succeeds_emit front).bind
      intro _ p₃ front
      apply (succeeds_symbol front).bind
      intro _ p₄ front
      apply (condition.succeeds acceptable bound front (begins_cons.mpr rfl)).bind
      intro _ p₅ front
      apply (succeeds_symbol front).bind
      intro _ p₆ front
      apply (succeeds_emit front).bind
      intro _ p₇ front
      apply (succeeds_block bound reads front).bind
      intro _ p₈ front
      apply (succeeds_emit front).bind
      intro _ p₉ front
      exact succeeds_pure front

end Step

open Step

variable {symbols : SymbolTable} {s : TokenStream} {f : Frame}

mutual

/-- An acceptable statement is read to its end.  Behind an `if` statement without an `else`, the
word `else` would be taken for a part of it, and so it may not follow. -/
theorem Statement.succeeds (first : Statement) (acceptable : first.Acceptable symbols.get?)
    {p : Progress} {rest : List Lexeme} (bound : Nat) (nested : Bool)
    (front : p.InFront symbols (first.lexemes ++ rest) s)
    (follows : Begins TokenKind.followsStatement rest) :
    (Step.statement f bound nested first.form).Succeeds p fun _ q => q.InFront symbols rest s := by
  cases bound with
  | zero => exact succeeds_exhausted
  | succ bound =>
      cases first with
      | letVariable target value =>
          rw [Statement.form, Step.statement]
          apply (succeeds_letVariable acceptable front).bind
          intro _ p₁ front
          exact succeeds_pure front
      | letElement array index value =>
          rw [Statement.form, Step.statement]
          apply (succeeds_letElement acceptable front).bind
          intro _ p₁ front
          exact succeeds_pure front
      | doCall c =>
          rw [Statement.form, Step.statement]
          apply (succeeds_doStatement acceptable front).bind
          intro _ p₁ front
          exact succeeds_pure front
      | returnValue value =>
          rw [Statement.form, Step.statement]
          exact succeeds_returnStatement acceptable front follows
      | ifThen condition thenBlock =>
          rw [Statement.form, Step.statement]
          exact succeeds_ifThen bound acceptable.1
            (fun _ bound _ => thenBlock.succeeds acceptable.2 bound true false) front follows
      | ifElse condition thenBlock elseBlock =>
          rw [Statement.form, Step.statement]
          exact succeeds_ifElse bound acceptable.1
            (fun _ bound _ => thenBlock.succeeds acceptable.2.1 bound true false)
            (fun _ bound _ => elseBlock.succeeds acceptable.2.2 bound true false) front
      | whileLoop condition block =>
          rw [Statement.form, Step.statement]
          exact succeeds_whileLoop bound acceptable.1
            (fun _ bound _ => block.succeeds acceptable.2 bound true false) front

/-- Acceptable statements are read up to the brace that closes them. -/
theorem Statements.succeeds (statements : Statements)
    (acceptable : statements.Acceptable symbols.get?) {p : Progress} {rest : List Lexeme}
    (bound : Nat) (nested jumps : Bool)
    (front : p.InFront symbols (statements.lexemes ++ .symbol .rightBrace :: rest) s) :
    (Step.statements f bound nested jumps).Succeeds p fun _ q =>
      q.InFront symbols (.symbol .rightBrace :: rest) s := by
  cases statements with
  | nil =>
      cases bound with
      | zero => exact succeeds_exhausted
      | succ bound =>
          rw [Statements.lexemes, List.nil_append] at front
          rcases front.current with ⟨t, current, -, same, -⟩
          rw [Step.statements]
          apply succeeds_peek_bind current
          rw [Token.kind_of_lexeme_eq same]
          exact succeeds_pure front
  | cons first others =>
      cases bound with
      | zero => exact succeeds_exhausted
      | succ bound =>
          rw [Statements.lexemes, List.append_assoc] at front
          rcases first.lexemes_eq_cons with ⟨l, more, written, form⟩
          have front' := front
          rw [written, List.cons_append] at front'
          rcases front'.current with ⟨t, current, -, same, -⟩
          rw [Step.statements]
          apply succeeds_peek_bind current
          rw [Token.kind_of_lexeme_eq same, form]
          apply (first.succeeds acceptable.1 bound nested front
            (others.begins_followsStatement rest)).bind
          intro jumpsHere p₁ front
          exact others.succeeds acceptable.2 bound nested (jumps || jumpsHere) front

end

end Jack
