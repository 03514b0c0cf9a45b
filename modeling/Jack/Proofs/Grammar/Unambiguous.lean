import Jack.Proofs.Grammar.Follow

namespace Jack

/-!
# The grammar is unambiguous

Two trees that write the same lexemes are equal.  The statement is proved for every form of the
grammar in front of any lexemes that cannot continue it, because the parts of a tree are followed by
the rest of the tree.
-/

/-- Different binary operators have different symbols.  Some unary operator may share one. -/
theorem BinaryOperator.symbol_inj {o o' : BinaryOperator} (same : o.symbol = o'.symbol) :
    o = o' := by
  cases o <;> cases o' <;> first | rfl | cases same

theorem UnaryOperator.symbol_inj {o o' : UnaryOperator} (same : o.symbol = o'.symbol) :
    o = o' := by
  cases o <;> cases o' <;> first | rfl | cases same

/-- Different constants have different words. -/
theorem KeywordConstant.word_inj {k k' : KeywordConstant} (same : k.word = k'.word) : k = k' := by
  cases k <;> cases k' <;> first | rfl | cases same

/-- Different kinds of subroutines have different words. -/
theorem SubroutineKind.word_inj {k k' : SubroutineKind} (same : k.word = k'.word) : k = k' := by
  cases k <;> cases k' <;> first | rfl | cases same

/-- An operator does not end an expression. -/
theorem not_heads_closesExpression_operator {o : BinaryOperator} {rest : List Lexeme} :
    ¬ Heads TokenKind.closesExpression (.symbol o.symbol :: rest) := by
  rw [heads_cons]
  cases o <;> exact Bool.false_ne_true

/-- Terms in front of any lexemes have the same form if they write the same lexemes. -/
theorem Term.form_eq_of_append_eq {t t' : Term} {rest rest' : List Lexeme}
    (same : t.lexemes ++ rest = t'.lexemes ++ rest') : t.form = t'.form := by
  rcases t.lexemes_eq_cons with ⟨first, more, written, start⟩
  rcases t'.lexemes_eq_cons with ⟨first', more', written', start'⟩
  rw [written, written', List.cons_append, List.cons_append] at same
  have sameFirst := (List.cons.inj same).1
  rw [← sameFirst, start] at start'
  exact Option.some.inj start'

/-- An expression does not start with a symbol that starts no term. -/
theorem Expression.append_ne_symbol (e : Expression) {p : Punctuation}
    (starts : (TokenKind.symbol p).termKind? = none) (more rest : List Lexeme) :
    e.lexemes ++ more ≠ .symbol p :: rest := by
  intro same
  rcases e.lexemes_eq_cons with ⟨first, behind, written, start⟩
  rw [written, List.cons_append] at same
  rw [(List.cons.inj same).1, Lexeme.kind, starts] at start
  exact Bool.false_ne_true start

/-- A name in front of what follows a term is the whole term: the longer terms that start with a
name continue it with a bracket, a parenthesis or a dot. -/
theorem Term.eq_plain {t : Term} {name : String} {rest rest' : List Lexeme}
    (same : t.lexemes ++ rest' = .identifier name :: rest)
    (follows : Heads TokenKind.followsTerm rest) : t = .plain name := by
  have sameForm : t.form = (Term.plain name).form := by
    have sameLexemes : t.lexemes ++ rest' = (Term.plain name).lexemes ++ rest := by
      rw [same, lexemes, List.cons_append, List.nil_append]
    exact Term.form_eq_of_append_eq sameLexemes
  cases t with
  | plain name' =>
      rw [lexemes, List.cons_append] at same
      rw [Lexeme.identifier.inj (List.cons.inj same).1]
  | element array index =>
      rw [lexemes, List.cons_append, List.cons_append] at same
      rw [← (List.cons.inj same).2, heads_cons] at follows
      exact absurd follows Bool.false_ne_true
  | call c =>
      rcases c with ⟨target, listed⟩
      rw [lexemes, Call.lexemes, List.append_assoc] at same
      cases target with
      | own name' =>
          rw [← (List.cons.inj same).2] at follows
          exact absurd (heads_cons.mp follows) Bool.false_ne_true
      | qualified object member =>
          rw [← (List.cons.inj same).2] at follows
          exact absurd (heads_cons.mp follows) Bool.false_ne_true
  | _ => simp only [form, reduceCtorEq] at sameForm

/-- An array element is not a call. -/
theorem Term.element_append_ne_call (array : String) (index : Expression) (c : Call)
    (rest rest' : List Lexeme) :
    (Term.element array index).lexemes ++ rest ≠ (Term.call c).lexemes ++ rest' := by
  intro same
  rcases c with ⟨target, listed⟩
  cases target <;> simp only [Term.lexemes, Call.lexemes, CallTarget.lexemes, List.cons_append,
    List.nil_append, List.cons.injEq, Lexeme.symbol.injEq, reduceCtorEq, false_and,
    and_false] at same

/-- The parenthesis behind the target of a call tells the two forms of a target apart. -/
theorem CallTarget.append_inj (target target' : CallTarget) {rest rest' : List Lexeme}
    (same : target.lexemes ++ .symbol .leftParen :: rest =
      target'.lexemes ++ .symbol .leftParen :: rest') : target = target' ∧ rest = rest' := by
  cases target with
  | own name =>
      cases target' with
      | own name' =>
          simp only [lexemes, List.cons_append, List.nil_append, List.cons.injEq,
            Lexeme.identifier.injEq, true_and] at same
          exact ⟨by rw [same.1], same.2⟩
      | qualified object' member' => cases (List.cons.inj (List.cons.inj same).2).1
  | qualified object member =>
      cases target' with
      | own name' => cases (List.cons.inj (List.cons.inj same).2).1
      | qualified object' member' =>
          simp only [lexemes, List.cons_append, List.nil_append, List.cons.injEq,
            Lexeme.identifier.injEq, true_and] at same
          exact ⟨by rw [same.1, same.2.1], same.2.2⟩

mutual

/-- Where an expression is followed by something that closes it, there is only one way to read it
and only one place where it ends. -/
theorem Expression.append_inj (e e' : Expression) {rest rest' : List Lexeme}
    (same : e.lexemes ++ rest = e'.lexemes ++ rest')
    (closed : Heads TokenKind.closesExpression rest)
    (closed' : Heads TokenKind.closesExpression rest') : e = e' ∧ rest = rest' := by
  cases e with
  | chain first operators =>
      cases e' with
      | chain first' operators' =>
          rw [Expression.lexemes, Expression.lexemes, List.append_assoc, List.append_assoc] at same
          rcases first.append_inj first' same
              (operators.heads_followsTerm closed) (operators'.heads_followsTerm closed') with
            ⟨sameFirst, same⟩
          rcases operators.append_inj operators' same closed closed' with ⟨sameOperators, same⟩
          exact ⟨by rw [sameFirst, sameOperators], same⟩

/-- A chain of operators ends where no operator follows, so it is told by its lexemes. -/
theorem Operators.append_inj (operators operators' : Operators) {rest rest' : List Lexeme}
    (same : operators.lexemes ++ rest = operators'.lexemes ++ rest')
    (closed : Heads TokenKind.closesExpression rest)
    (closed' : Heads TokenKind.closesExpression rest') :
    operators = operators' ∧ rest = rest' := by
  cases operators with
  | nil =>
      cases operators' with
      | nil => exact ⟨rfl, same⟩
      | cons o' operand' more' =>
          rw [Operators.lexemes, Operators.lexemes, List.nil_append, List.cons_append] at same
          rw [same] at closed
          exact absurd closed not_heads_closesExpression_operator
  | cons o operand more =>
      cases operators' with
      | nil =>
          rw [Operators.lexemes, Operators.lexemes, List.nil_append, List.cons_append] at same
          rw [← same] at closed'
          exact absurd closed' not_heads_closesExpression_operator
      | cons o' operand' more' =>
          rw [Operators.lexemes, Operators.lexemes, List.cons_append, List.cons_append,
            List.append_assoc, List.append_assoc] at same
          rcases List.cons.inj same with ⟨sameSymbol, same⟩
          rcases operand.append_inj operand' same
              (more.heads_followsTerm closed) (more'.heads_followsTerm closed') with
            ⟨sameOperand, same⟩
          rcases more.append_inj more' same closed closed' with ⟨sameMore, same⟩
          have sameOperator := BinaryOperator.symbol_inj (Lexeme.symbol.inj sameSymbol)
          exact ⟨by rw [sameOperator, sameOperand, sameMore], same⟩

/-- A name may be a variable, the beginning of an element or that of a call.  What follows a term is
none of the three symbols that tell these apart. -/
theorem Term.append_inj (t t' : Term) {rest rest' : List Lexeme}
    (same : t.lexemes ++ rest = t'.lexemes ++ rest')
    (follows : Heads TokenKind.followsTerm rest)
    (follows' : Heads TokenKind.followsTerm rest') : t = t' ∧ rest = rest' := by
  have sameForm := Term.form_eq_of_append_eq same
  cases t with
  | integer digits =>
      cases t' with
      | integer digits' =>
          simpa only [Term.lexemes, List.cons_append, List.nil_append, List.cons.injEq,
            Lexeme.integer.injEq, Term.integer.injEq] using same
      | _ => simp only [Term.form, reduceCtorEq] at sameForm
  | string text =>
      cases t' with
      | string text' =>
          simpa only [Term.lexemes, List.cons_append, List.nil_append, List.cons.injEq,
            Lexeme.string.injEq, Term.string.injEq] using same
      | _ => simp only [Term.form, reduceCtorEq] at sameForm
  | constant k =>
      cases t' with
      | constant k' =>
          rcases List.cons.inj same with ⟨sameWord, same⟩
          exact ⟨by rw [KeywordConstant.word_inj (Lexeme.keyword.inj sameWord)], same⟩
      | _ => simp only [Term.form, reduceCtorEq] at sameForm
  | unary o operand =>
      cases t' with
      | unary o' operand' =>
          rcases List.cons.inj same with ⟨sameSymbol, same⟩
          rcases operand.append_inj operand' same follows follows' with ⟨sameOperand, same⟩
          exact ⟨by rw [UnaryOperator.symbol_inj (Lexeme.symbol.inj sameSymbol), sameOperand], same⟩
      | _ => simp only [Term.form, reduceCtorEq] at sameForm
  | parenthesis inner =>
      cases t' with
      | parenthesis inner' =>
          rw [Term.lexemes, Term.lexemes, List.cons_append, List.cons_append, List.append_assoc,
            List.append_assoc] at same
          rcases inner.append_inj inner' (List.cons.inj same).2
              (heads_cons.mpr rfl) (heads_cons.mpr rfl) with ⟨sameInner, same⟩
          exact ⟨by rw [sameInner], (List.cons.inj same).2⟩
      | _ => simp only [Term.form, reduceCtorEq] at sameForm
  | plain name =>
      rw [Term.lexemes, List.cons_append, List.nil_append] at same
      have plain := Term.eq_plain same.symm follows
      subst plain
      rw [Term.lexemes, List.cons_append, List.nil_append] at same
      exact ⟨rfl, (List.cons.inj same).2⟩
  | element array index =>
      cases t' with
      | plain name' =>
          exact absurd (Term.eq_plain same follows')
            (by simp only [reduceCtorEq, not_false_eq_true])
      | element array' index' =>
          rw [Term.lexemes, Term.lexemes, List.cons_append, List.cons_append, List.cons_append,
            List.cons_append, List.append_assoc, List.append_assoc] at same
          rcases List.cons.inj same with ⟨sameArray, same⟩
          rcases index.append_inj index' (List.cons.inj same).2
              (heads_cons.mpr rfl) (heads_cons.mpr rfl) with ⟨sameIndex, same⟩
          exact ⟨by rw [Lexeme.identifier.inj sameArray, sameIndex], (List.cons.inj same).2⟩
      | call c' => exact absurd same (Term.element_append_ne_call array index c' rest rest')
      | _ => simp only [Term.form, reduceCtorEq] at sameForm
  | call c =>
      cases t' with
      | plain name' =>
          exact absurd (Term.eq_plain same follows')
            (by simp only [reduceCtorEq, not_false_eq_true])
      | element array' index' =>
          exact absurd same.symm (Term.element_append_ne_call array' index' c rest' rest)
      | call c' =>
          rw [Term.lexemes, Term.lexemes] at same
          rcases c.append_inj c' same with ⟨sameCall, same⟩
          exact ⟨by rw [sameCall], same⟩
      | _ => simp only [Term.form, reduceCtorEq] at sameForm

/-- A call ends with its closing parenthesis, so anything may follow it. -/
theorem Call.append_inj (c c' : Call) {rest rest' : List Lexeme}
    (same : c.lexemes ++ rest = c'.lexemes ++ rest') : c = c' ∧ rest = rest' := by
  cases c with
  | invoke target listed =>
      cases c' with
      | invoke target' listed' =>
          simp only [Call.lexemes, List.append_assoc, List.cons_append, List.nil_append] at same
          rcases target.append_inj target' same with ⟨sameTarget, same⟩
          rcases listed.append_inj listed' same with ⟨sameListed, same⟩
          exact ⟨by rw [sameTarget, sameListed], same⟩

/-- Arguments end at the closing parenthesis, and a parenthesis inside of them has its own one. -/
theorem Arguments.append_inj (listed listed' : Arguments) {rest rest' : List Lexeme}
    (same : listed.lexemes ++ .symbol .rightParen :: rest =
      listed'.lexemes ++ .symbol .rightParen :: rest') : listed = listed' ∧ rest = rest' := by
  cases listed with
  | nil =>
      cases listed' with
      | nil => exact ⟨rfl, (List.cons.inj same).2⟩
      | cons first' more' =>
          rw [Arguments.lexemes, Arguments.lexemes, List.append_assoc] at same
          exact absurd same.symm (first'.append_ne_symbol rfl _ _)
  | cons first more =>
      cases listed' with
      | nil =>
          rw [Arguments.lexemes, Arguments.lexemes, List.append_assoc] at same
          exact absurd same (first.append_ne_symbol rfl _ _)
      | cons first' more' =>
          rw [Arguments.lexemes, Arguments.lexemes, List.append_assoc, List.append_assoc] at same
          rcases first.append_inj first' same
              (more.heads_closesExpression (heads_cons.mpr rfl))
              (more'.heads_closesExpression (heads_cons.mpr rfl)) with ⟨sameFirst, same⟩
          rcases more.behind_append_inj more' same with ⟨sameMore, same⟩
          exact ⟨by rw [sameFirst, sameMore], same⟩

/-- The same of the arguments that have a comma in front of them. -/
theorem Arguments.behind_append_inj (listed listed' : Arguments) {rest rest' : List Lexeme}
    (same : listed.behind ++ .symbol .rightParen :: rest =
      listed'.behind ++ .symbol .rightParen :: rest') : listed = listed' ∧ rest = rest' := by
  cases listed with
  | nil =>
      cases listed' with
      | nil => exact ⟨rfl, (List.cons.inj same).2⟩
      | cons first' more' => cases (List.cons.inj same).1
  | cons first more =>
      cases listed' with
      | nil => cases (List.cons.inj same).1
      | cons first' more' =>
          rw [Arguments.behind, Arguments.behind, List.cons_append, List.cons_append,
            List.append_assoc, List.append_assoc] at same
          rcases first.append_inj first' (List.cons.inj same).2
              (more.heads_closesExpression (heads_cons.mpr rfl))
              (more'.heads_closesExpression (heads_cons.mpr rfl)) with ⟨sameFirst, same⟩
          rcases more.behind_append_inj more' same with ⟨sameMore, same⟩
          exact ⟨by rw [sameFirst, sameMore], same⟩

end

/-! ## Statements -/

/-- The first word tells the form of a statement. -/
theorem Statement.form_eq_of_append_eq {s s' : Statement} {rest rest' : List Lexeme}
    (same : s.lexemes ++ rest = s'.lexemes ++ rest') : s.form = s'.form := by
  rcases s.lexemes_eq_cons with ⟨first, more, written, start⟩
  rcases s'.lexemes_eq_cons with ⟨first', more', written', start'⟩
  rw [written, written', List.cons_append, List.cons_append] at same
  rw [← (List.cons.inj same).1, start] at start'
  exact Option.some.inj start'

/-- What follows a statement does not give an `if` statement a second block. -/
theorem not_heads_followsStatement_else (rest : List Lexeme) :
    ¬ Heads TokenKind.followsStatement (.keyword .«else» :: rest) := by
  rw [heads_cons]
  exact Bool.false_ne_true

/-- Whether a `return` statement has a value is told by the lexeme behind the word, as no expression
starts with a semicolon. -/
theorem Statement.returned_append_inj (value value' : Option Expression)
    {rest rest' : List Lexeme}
    (same : (Statement.returnValue value).lexemes ++ rest =
      (Statement.returnValue value').lexemes ++ rest') : value = value' ∧ rest = rest' := by
  cases value with
  | none =>
      cases value' with
      | none =>
          simp only [lexemes, List.cons_append, List.nil_append, List.cons.injEq, true_and] at same
          exact ⟨rfl, same⟩
      | some value' =>
          simp only [lexemes, List.cons_append, List.nil_append, List.append_assoc,
            List.cons.injEq, true_and] at same
          exact absurd same.symm (value'.append_ne_symbol rfl _ _)
  | some value =>
      cases value' with
      | none =>
          simp only [lexemes, List.cons_append, List.nil_append, List.append_assoc,
            List.cons.injEq, true_and] at same
          exact absurd same (value.append_ne_symbol rfl _ _)
      | some value' =>
          simp only [lexemes, List.cons_append, List.nil_append, List.append_assoc,
            List.cons.injEq, true_and] at same
          rcases value.append_inj value' same (heads_cons.mpr rfl) (heads_cons.mpr rfl) with
            ⟨sameValue, same⟩
          exact ⟨by rw [sameValue], (List.cons.inj same).2⟩

/-- No statement starts with the brace that ends a block. -/
theorem Statement.append_ne_rightBrace (s : Statement) (more rest : List Lexeme) :
    s.lexemes ++ more ≠ .symbol .rightBrace :: rest := by
  intro same
  rcases s.lexemes_eq_cons with ⟨first, behind, written, start⟩
  rw [written, List.cons_append] at same
  rw [(List.cons.inj same).1] at start
  simp only [Lexeme.kind, TokenKind.statementKind?, reduceCtorEq] at start

/-- In front of the brace that closes it, the block is told by its lexemes. -/
def Statements.IsToldByLexemes (block : Statements) : Prop :=
  ∀ (block' : Statements) (rest rest' : List Lexeme),
    block.lexemes ++ .symbol .rightBrace :: rest =
      block'.lexemes ++ .symbol .rightBrace :: rest' → block = block' ∧ rest = rest'

/-- A condition in parentheses and the block behind it. -/
theorem Expression.block_append_inj {condition condition' : Expression} {block block' : Statements}
    {rest rest' : List Lexeme}
    (same : condition.lexemes ++ .symbol .rightParen :: (braced block.lexemes ++ rest) =
      condition'.lexemes ++ .symbol .rightParen :: (braced block'.lexemes ++ rest'))
    (told : block.IsToldByLexemes) :
    condition = condition' ∧ block = block' ∧ rest = rest' := by
  rcases condition.append_inj condition' same (heads_cons.mpr rfl) (heads_cons.mpr rfl) with
    ⟨sameCondition, same⟩
  simp only [braced_append, List.cons.injEq, true_and] at same
  exact ⟨sameCondition, told block' rest rest' same⟩

/-! Each form is held to any statement that writes the same lexemes.  The blocks inside are taken to
be told by their lexemes, which is what the induction on statements gives. -/

namespace Statement

variable {s' : Statement} {rest rest' : List Lexeme}

/-- An assignment to a variable is told from one to an element by the lexeme behind the name. -/
theorem letVariable_append_inj {target : String} {value : Expression}
    (same : (letVariable target value).lexemes ++ rest = s'.lexemes ++ rest') :
    letVariable target value = s' ∧ rest = rest' := by
  have sameForm := form_eq_of_append_eq same
  cases s' with
  | letVariable target' value' =>
      simp only [lexemes, List.cons_append, List.append_assoc, List.nil_append,
        List.cons.injEq, Lexeme.identifier.injEq, true_and] at same
      rcases same with ⟨sameTarget, same⟩
      rcases value.append_inj value' same (heads_cons.mpr rfl) (heads_cons.mpr rfl) with
        ⟨sameValue, same⟩
      exact ⟨by rw [sameTarget, sameValue], (List.cons.inj same).2⟩
  | letElement array' index' value' =>
      simp only [lexemes, List.cons_append, List.cons.injEq, Lexeme.symbol.injEq,
        reduceCtorEq, false_and, and_false] at same
  | _ => simp only [form, reduceCtorEq] at sameForm

/-- An assignment to an element is told from one to a variable by the lexeme behind the name. -/
theorem letElement_append_inj {array : String} {index value : Expression}
    (same : (letElement array index value).lexemes ++ rest = s'.lexemes ++ rest') :
    letElement array index value = s' ∧ rest = rest' := by
  have sameForm := form_eq_of_append_eq same
  cases s' with
  | letVariable target' value' =>
      simp only [lexemes, List.cons_append, List.cons.injEq, Lexeme.symbol.injEq,
        reduceCtorEq, false_and, and_false] at same
  | letElement array' index' value' =>
      simp only [lexemes, List.cons_append, List.append_assoc, List.nil_append,
        List.cons.injEq, Lexeme.identifier.injEq, true_and] at same
      rcases same with ⟨sameArray, same⟩
      rcases index.append_inj index' same (heads_cons.mpr rfl) (heads_cons.mpr rfl) with
        ⟨sameIndex, same⟩
      simp only [List.cons.injEq, true_and] at same
      rcases value.append_inj value' same (heads_cons.mpr rfl) (heads_cons.mpr rfl) with
        ⟨sameValue, same⟩
      exact ⟨by rw [sameArray, sameIndex, sameValue], (List.cons.inj same).2⟩
  | _ => simp only [form, reduceCtorEq] at sameForm

/-- What follows the statement is no second block. -/
theorem ifThen_append_inj {condition : Expression} {thenBlock : Statements}
    (told : thenBlock.IsToldByLexemes) (follows : Heads TokenKind.followsStatement rest)
    (same : (ifThen condition thenBlock).lexemes ++ rest = s'.lexemes ++ rest') :
    ifThen condition thenBlock = s' ∧ rest = rest' := by
  have sameForm := form_eq_of_append_eq same
  cases s' with
  | ifThen condition' thenBlock' =>
      simp only [lexemes, List.cons_append, List.append_assoc, List.cons.injEq,
        true_and] at same
      rcases Expression.block_append_inj same told with ⟨sameCondition, sameThen, same⟩
      exact ⟨by rw [sameCondition, sameThen], same⟩
  | ifElse condition' thenBlock' elseBlock' =>
      simp only [lexemes, List.cons_append, List.append_assoc, List.cons.injEq,
        true_and] at same
      rcases Expression.block_append_inj same told with ⟨-, -, same⟩
      rw [same] at follows
      exact absurd follows (not_heads_followsStatement_else _)
  | _ => simp only [form, reduceCtorEq] at sameForm

/-- An `else` belongs to the statement if there is one.  The word may not follow a statement, and so
there is no second way to read it. -/
theorem ifElse_append_inj {condition : Expression} {thenBlock elseBlock : Statements}
    (toldThen : thenBlock.IsToldByLexemes) (toldElse : elseBlock.IsToldByLexemes)
    (follows' : Heads TokenKind.followsStatement rest')
    (same : (ifElse condition thenBlock elseBlock).lexemes ++ rest = s'.lexemes ++ rest') :
    ifElse condition thenBlock elseBlock = s' ∧ rest = rest' := by
  have sameForm := form_eq_of_append_eq same
  cases s' with
  | ifThen condition' thenBlock' =>
      simp only [lexemes, List.cons_append, List.append_assoc, List.cons.injEq,
        true_and] at same
      rcases Expression.block_append_inj same toldThen with ⟨-, -, same⟩
      rw [← same] at follows'
      exact absurd follows' (not_heads_followsStatement_else _)
  | ifElse condition' thenBlock' elseBlock' =>
      simp only [lexemes, List.cons_append, List.append_assoc, List.cons.injEq,
        true_and] at same
      rcases Expression.block_append_inj same toldThen with ⟨sameCondition, sameThen, same⟩
      simp only [braced_append, List.cons.injEq, true_and] at same
      rcases toldElse elseBlock' _ _ same with ⟨sameElse, same⟩
      exact ⟨by rw [sameCondition, sameThen, sameElse], same⟩
  | _ => simp only [form, reduceCtorEq] at sameForm

/-- A loop is told by its lexemes if its block is. -/
theorem whileLoop_append_inj {condition : Expression} {block : Statements}
    (told : block.IsToldByLexemes)
    (same : (whileLoop condition block).lexemes ++ rest = s'.lexemes ++ rest') :
    whileLoop condition block = s' ∧ rest = rest' := by
  have sameForm := form_eq_of_append_eq same
  cases s' with
  | whileLoop condition' block' =>
      simp only [lexemes, List.cons_append, List.append_assoc, List.cons.injEq,
        true_and] at same
      rcases Expression.block_append_inj same told with ⟨sameCondition, sameBlock, same⟩
      exact ⟨by rw [sameCondition, sameBlock], same⟩
  | _ => simp only [form, reduceCtorEq] at sameForm

/-- A `do` statement is told by its lexemes. -/
theorem doCall_append_inj {c : Call}
    (same : (doCall c).lexemes ++ rest = s'.lexemes ++ rest') :
    doCall c = s' ∧ rest = rest' := by
  have sameForm := form_eq_of_append_eq same
  cases s' with
  | doCall c' =>
      simp only [lexemes, List.cons_append, List.append_assoc, List.cons.injEq,
        true_and] at same
      rcases c.append_inj c' same with ⟨sameCall, same⟩
      exact ⟨by rw [sameCall], (List.cons.inj same).2⟩
  | _ => simp only [form, reduceCtorEq] at sameForm

/-- A `return` statement is told by its lexemes. -/
theorem returnValue_append_inj {value : Option Expression}
    (same : (returnValue value).lexemes ++ rest = s'.lexemes ++ rest') :
    returnValue value = s' ∧ rest = rest' := by
  have sameForm := form_eq_of_append_eq same
  cases s' with
  | returnValue value' =>
      rcases returned_append_inj value value' same with ⟨sameValue, same⟩
      exact ⟨by rw [sameValue], same⟩
  | _ => simp only [form, reduceCtorEq] at sameForm

end Statement

mutual

/-- Where a statement is followed by something that may follow it, there is only one way to read it.
The cases are the forms, and the blocks in them are smaller. -/
theorem Statement.append_inj (s s' : Statement) {rest rest' : List Lexeme}
    (same : s.lexemes ++ rest = s'.lexemes ++ rest')
    (follows : Heads TokenKind.followsStatement rest)
    (follows' : Heads TokenKind.followsStatement rest') : s = s' ∧ rest = rest' := by
  cases s with
  | letVariable target value => exact Statement.letVariable_append_inj same
  | letElement array index value => exact Statement.letElement_append_inj same
  | ifThen condition thenBlock =>
      exact Statement.ifThen_append_inj thenBlock.toldByLexemes follows same
  | ifElse condition thenBlock elseBlock =>
      exact Statement.ifElse_append_inj thenBlock.toldByLexemes elseBlock.toldByLexemes follows'
        same
  | whileLoop condition block => exact Statement.whileLoop_append_inj block.toldByLexemes same
  | doCall c => exact Statement.doCall_append_inj same
  | returnValue value => exact Statement.returnValue_append_inj same

/-- Statements end at the brace that closes them, which starts no statement. -/
theorem Statements.toldByLexemes (statements : Statements) : statements.IsToldByLexemes := by
  intro statements' rest rest' same
  cases statements with
  | nil =>
      cases statements' with
      | nil => exact ⟨rfl, (List.cons.inj same).2⟩
      | cons first' more' =>
          rw [Statements.lexemes, Statements.lexemes, List.append_assoc] at same
          exact absurd same.symm (first'.append_ne_rightBrace _ _)
  | cons first more =>
      cases statements' with
      | nil =>
          rw [Statements.lexemes, Statements.lexemes, List.append_assoc] at same
          exact absurd same (first.append_ne_rightBrace _ _)
      | cons first' more' =>
          rw [Statements.lexemes, Statements.lexemes, List.append_assoc, List.append_assoc] at same
          rcases first.append_inj first' same
              (more.heads_followsStatement rest) (more'.heads_followsStatement rest') with
            ⟨sameFirst, same⟩
          rcases more.toldByLexemes more' rest rest' same with ⟨sameMore, same⟩
          exact ⟨by rw [sameFirst, sameMore], same⟩

end

/-! ## Declarations and classes

From here on every form ends with a token of its own, so nothing has to be said about what follows
it.  Repetitions are treated once for all forms: what matters is that the token behind the last item
does not start another item.
-/

/-- A repeated form is unambiguous if the form is, and if its first token tells whether there is one
more of it. -/
theorem flatMap_append_inj {α : Type} {write : α → List Lexeme} (starts : TokenKind → Bool)
    (start : ∀ a, ∃ first more, write a = first :: more ∧ starts first.kind = true)
    (inj : ∀ a a' rest rest', write a ++ rest = write a' ++ rest' → a = a' ∧ rest = rest')
    (items items' : List α) {rest rest' : List Lexeme}
    (same : items.flatMap write ++ rest = items'.flatMap write ++ rest')
    (stop : Heads (fun k => !starts k) rest) (stop' : Heads (fun k => !starts k) rest') :
    items = items' ∧ rest = rest' := by
  have goesOn (a : α) (more behind : List Lexeme) (heads : Heads (fun k => !starts k) behind) :
      write a ++ more ≠ behind := by
    intro written
    rcases start a with ⟨first, others, eq, begins⟩
    rw [eq, List.cons_append] at written
    rw [← written, heads_cons, begins] at heads
    exact Bool.false_ne_true heads
  induction items generalizing items' with
  | nil =>
      cases items' with
      | nil => exact ⟨rfl, same⟩
      | cons a' more' =>
          rw [List.flatMap_cons, List.append_assoc] at same
          exact absurd same.symm (goesOn a' _ rest stop)
  | cons a more inductionHypothesis =>
      cases items' with
      | nil =>
          rw [List.flatMap_cons, List.append_assoc] at same
          exact absurd same (goesOn a _ rest' stop')
      | cons a' more' =>
          rw [List.flatMap_cons, List.flatMap_cons, List.append_assoc, List.append_assoc] at same
          rcases inj a a' _ _ same with ⟨sameItem, same⟩
          rcases inductionHypothesis more' same with ⟨sameMore, same⟩
          exact ⟨by rw [sameItem, sameMore], same⟩

/-- A type is told by its lexeme.  The type of a class is an identifier, and the other types are
words. -/
theorem TypeName.lexeme_inj {type type' : TypeName} (same : type.lexeme = type'.lexeme) :
    type = type' := by
  cases type <;> cases type' <;>
    simp only [lexeme, Lexeme.keyword.injEq, Lexeme.identifier.injEq, reduceCtorEq] at same <;>
    first | rfl | rw [same]

theorem nameBehind_append_inj (name name' : String) (rest rest' : List Lexeme)
    (same : nameBehind name ++ rest = nameBehind name' ++ rest') : name = name' ∧ rest = rest' := by
  simpa only [nameBehind, List.cons_append, List.nil_append, List.cons.injEq, true_and,
    Lexeme.identifier.injEq] using same

/-- The names of a group end at the semicolon. -/
theorem VariableGroup.append_inj (g g' : VariableGroup) {rest rest' : List Lexeme}
    (same : g.lexemes ++ rest = g'.lexemes ++ rest') : g = g' ∧ rest = rest' := by
  rcases g with ⟨type, first, more⟩
  rcases g' with ⟨type', first', more'⟩
  simp only [lexemes, List.cons_append, List.append_assoc, List.nil_append, List.cons.injEq,
    Lexeme.identifier.injEq] at same
  rcases same with ⟨sameType, sameFirst, same⟩
  rcases flatMap_append_inj (· = .symbol .comma)
      (fun name => ⟨_, _, rfl, rfl⟩) nameBehind_append_inj more more' same
      (heads_cons.mpr rfl) (heads_cons.mpr rfl) with ⟨sameMore, same⟩
  exact ⟨by rw [TypeName.lexeme_inj sameType, sameFirst, sameMore], (List.cons.inj same).2⟩

theorem VariableGroup.localLexemes_append_inj (g g' : VariableGroup) (rest rest' : List Lexeme)
    (same : g.localLexemes ++ rest = g'.localLexemes ++ rest') : g = g' ∧ rest = rest' :=
  g.append_inj g' (List.cons.inj same).2

/-- A line of class variables is told by its lexemes, its first word included. -/
theorem ClassVariables.append_inj (v v' : ClassVariables) (rest rest' : List Lexeme)
    (same : v.lexemes ++ rest = v'.lexemes ++ rest') : v = v' ∧ rest = rest' := by
  cases v with
  | static group =>
      cases v' with
      | static group' =>
          rcases group.append_inj group' (List.cons.inj same).2 with ⟨sameGroup, same⟩
          exact ⟨by rw [sameGroup], same⟩
      | field group' => cases (List.cons.inj same).1
  | field group =>
      cases v' with
      | static group' => cases (List.cons.inj same).1
      | field group' =>
          rcases group.append_inj group' (List.cons.inj same).2 with ⟨sameGroup, same⟩
          exact ⟨by rw [sameGroup], same⟩

theorem Parameter.behind_append_inj (p p' : Parameter) (rest rest' : List Lexeme)
    (same : p.behind ++ rest = p'.behind ++ rest') : p = p' ∧ rest = rest' := by
  rcases p with ⟨type, name⟩
  rcases p' with ⟨type', name'⟩
  simp only [behind, lexemes, List.cons_append, List.nil_append, List.cons.injEq, true_and,
    Lexeme.identifier.injEq] at same
  rcases same with ⟨sameType, sameName, same⟩
  exact ⟨by rw [TypeName.lexeme_inj sameType, sameName], same⟩

/-- A parameter list is empty exactly if its closing parenthesis comes first; otherwise it is a
repetition behind commas, up to the missing first comma. -/
theorem parameterLexemes_append_inj (parameters parameters' : List Parameter)
    {rest rest' : List Lexeme}
    (same : parameterLexemes parameters ++ .symbol .rightParen :: rest =
      parameterLexemes parameters' ++ .symbol .rightParen :: rest') :
    parameters = parameters' ∧ rest = rest' := by
  have notEmpty (p : Parameter) (more behind : List Lexeme) :
      p.lexemes ++ more ≠ .symbol .rightParen :: behind := by
    intro written
    rcases p with ⟨type, name⟩
    cases type <;> cases (List.cons.inj written).1
  have withCommas (p : Parameter) (more : List Parameter) (behind : List Lexeme) :
      .symbol .comma :: (parameterLexemes (p :: more) ++ behind) =
        (p :: more).flatMap Parameter.behind ++ behind := by
    rw [parameterLexemes, List.flatMap_cons, Parameter.behind, List.cons_append, List.cons_append]
  cases parameters with
  | nil =>
      cases parameters' with
      | nil => exact ⟨rfl, (List.cons.inj same).2⟩
      | cons p' more' =>
          rw [parameterLexemes, parameterLexemes, List.append_assoc] at same
          exact absurd same.symm (notEmpty p' _ _)
  | cons p more =>
      cases parameters' with
      | nil =>
          rw [parameterLexemes, parameterLexemes, List.append_assoc] at same
          exact absurd same (notEmpty p _ _)
      | cons p' more' =>
          have repeated := congrArg (Lexeme.symbol .comma :: ·) same
          simp only [withCommas] at repeated
          rcases flatMap_append_inj (· = .symbol .comma)
              (fun p => ⟨_, _, rfl, rfl⟩) Parameter.behind_append_inj _ _ repeated
              (heads_cons.mpr rfl) (heads_cons.mpr rfl) with ⟨sameParameters, same⟩
          exact ⟨sameParameters, (List.cons.inj same).2⟩

/-- A result type is told by its lexeme, and `void` from all of them. -/
theorem resultLexeme_inj {result result' : Option TypeName}
    (same : resultLexeme result = resultLexeme result') : result = result' := by
  cases result with
  | none =>
      cases result' with
      | none => rfl
      | some type' => cases type' <;> cases same
  | some type =>
      cases result' with
      | none => cases type <;> cases same
      | some type' => rw [TypeName.lexeme_inj same]

/-- A subroutine is told by its lexemes, and it ends at its closing brace. -/
theorem Subroutine.append_inj (s s' : Subroutine) (rest rest' : List Lexeme)
    (same : s.lexemes ++ rest = s'.lexemes ++ rest') : s = s' ∧ rest = rest' := by
  rcases s with ⟨kind, result, name, parameters, locals, statements⟩
  rcases s' with ⟨kind', result', name', parameters', locals', statements'⟩
  simp only [lexemes, List.cons_append, List.append_assoc, List.nil_append, List.cons.injEq,
    Lexeme.keyword.injEq, Lexeme.identifier.injEq, true_and] at same
  rcases same with ⟨sameKind, sameResult, sameName, same⟩
  rcases parameterLexemes_append_inj parameters parameters' same with ⟨sameParameters, same⟩
  rcases flatMap_append_inj (· = .keyword .var)
      (fun g => ⟨_, _, rfl, rfl⟩) VariableGroup.localLexemes_append_inj locals locals'
      (List.cons.inj same).2 (statements.heads_not_var rest) (statements'.heads_not_var rest') with
    ⟨sameLocals, same⟩
  rcases statements.toldByLexemes statements' _ _ same with ⟨sameStatements, same⟩
  have sameKind := SubroutineKind.word_inj sameKind
  have sameResult := resultLexeme_inj sameResult
  exact ⟨by rw [sameKind, sameResult, sameName, sameParameters, sameLocals, sameStatements], same⟩

/-- A source has at most one syntax tree. -/
theorem ClassTree.lexemes_injective {c c' : ClassTree} (same : c.lexemes = c'.lexemes) :
    c = c' := by
  rcases c with ⟨name, members, subroutines⟩
  rcases c' with ⟨name', members', subroutines'⟩
  simp only [lexemes, List.cons.injEq, Lexeme.identifier.injEq, true_and] at same
  rcases same with ⟨sameName, same⟩
  rcases flatMap_append_inj _ ClassVariables.lexemes_eq_cons
      ClassVariables.append_inj members members' same
      (heads_not_startsClassVariables subroutines _)
      (heads_not_startsClassVariables subroutines' _) with
    ⟨sameVariables, same⟩
  rcases flatMap_append_inj (·.subroutineKind?.isSome)
      (fun s => ⟨_, _, rfl, by rw [Lexeme.kind, TokenKind.subroutineKind?_word]; rfl⟩)
      Subroutine.append_inj subroutines subroutines' same (heads_cons.mpr rfl)
      (heads_cons.mpr rfl) with
    ⟨sameSubroutines, -⟩
  rw [sameName, sameVariables, sameSubroutines]

end Jack
