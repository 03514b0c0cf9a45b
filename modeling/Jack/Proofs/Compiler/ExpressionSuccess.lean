import Jack.Proofs.Compiler.Success
import Jack.Proofs.Names.Acceptance

namespace Jack

/-!
# Acceptable expressions compile

In front of the lexemes of an acceptable tree, the functions on expressions succeed, and they stop
behind the tree.  The induction is on the tree; each form also needs to know what may follow it,
since only the lexeme behind an expression tells where it ends.
-/

/-- What follows a term is the operators behind it, and then what closes the expression. -/
theorem Operators.begins_followsTerm (operators : Operators) {rest : List Lexeme}
    (closed : Begins TokenKind.closesExpression rest) :
    Begins TokenKind.followsTerm (operators.lexemes ++ rest) := by
  apply (operators.heads_followsTerm closed.heads).begins
  intro empty
  rcases closed with ⟨l, more, rfl, -⟩
  exact List.cons_ne_nil l more (List.append_eq_nil_iff.mp empty).2

/-- What follows an argument is a comma or the closing parenthesis. -/
theorem Arguments.begins_closesExpression (listed : Arguments) (rest : List Lexeme) :
    Begins TokenKind.closesExpression (listed.behind ++ .symbol .rightParen :: rest) := by
  apply (listed.heads_closesExpression (heads_cons.mpr rfl)).begins
  exact List.append_ne_nil_of_right_ne_nil _ (List.cons_ne_nil _ _)

namespace TokenKind

/-- What closes an expression does not continue it. -/
theorem binaryOperator?_of_closesExpression {k : TokenKind} (closes : k.closesExpression = true) :
    k.binaryOperator? = none := by
  cases k with
  | symbol p => cases p <;> first | rfl | cases closes
  | _ => rfl

/-- What starts a term does not close a list of arguments. -/
theorem ne_rightParen_of_termKind? {k : TokenKind} (start : k.termKind?.isSome = true) :
    k ≠ .symbol .rightParen := by
  intro same
  rw [same] at start
  cases start

end TokenKind

namespace Step

variable {p : Progress} {symbols : SymbolTable} {rest : List Lexeme} {s : TokenStream}
  {className : String} {bound : Nat}

/-- A text that the machine can hold is not refused. -/
theorem stringConstant_of_fits {t : Token} (fits : FitsMachine t.content) :
    stringConstant t = emit (Code.string t.content) := by
  have short : ¬ t.content.length > maxInt := Nat.not_lt.mpr fits.1
  have small : ¬ t.content.any (·.toNat > maxInt) = true := by
    intro large
    rcases List.any_eq_true.mp large with ⟨c, member, tooLarge⟩
    exact Nat.not_lt.mpr (fits.2 c member) (of_decide_eq_true tooLarge)
  rw [stringConstant, if_neg short, if_neg small]

/-- The characters of a string constant are emitted if the machine can hold them.  Nothing is read
here; the token has been read before. -/
theorem succeeds_stringConstant {t : Token} (front : p.InFront symbols rest s)
    (fits : FitsMachine t.content) :
    (stringConstant t).Succeeds p fun _ q => q.InFront symbols rest s := by
  rw [stringConstant_of_fits fits]
  exact succeeds_emit front

/-- The lexer has refused numbers above the largest one already, so that a well spelled integer
constant always has its word. -/
theorem succeeds_integerConstant {t : Token} (front : p.InFront symbols rest s)
    (spelled : t.WellSpelled) (number : t.kind = .integer) :
    (integerConstant t).Succeeds p fun _ q => q.InFront symbols rest s := by
  rcases spelled.integer number with ⟨value, spells⟩
  rw [integerConstant, spells]
  exact succeeds_emit front

/-- The name of what is called is read up to the parenthesis.  The number of arguments that the
listed ones do not tell is one for a method and none otherwise. -/
theorem succeeds_callee (target : CallTarget)
    (front : p.InFront symbols (target.lexemes ++ .symbol .leftParen :: rest) s) :
    (callee className).Succeeds p fun found q =>
      found.implicit = target.implicit symbols.get? ∧
        q.InFront symbols (.symbol .leftParen :: rest) s := by
  rw [callee_eq]
  cases target with
  | own name =>
      apply (succeeds_consume_identifier front).bind
      rintro first p₁ ⟨-, front⟩
      apply (succeeds_accept_other front (begins_cons.mpr rfl)).bind
      rintro _ p₂ ⟨rfl, front⟩
      apply (succeeds_emit front).bind
      intro _ p₃ front
      exact ⟨rfl, front⟩
  | qualified object member =>
      apply (succeeds_consume_identifier front).bind
      rintro first p₁ ⟨sameObject, front⟩
      apply (succeeds_accept front rfl).bind
      rintro _ p₂ ⟨rfl, front⟩
      apply (succeeds_consume_identifier front).bind
      rintro second p₃ ⟨-, front⟩
      apply (succeeds_symbol? front).bind
      rintro found p₄ ⟨declared, front⟩
      rw [sameObject] at declared
      cases found with
      | none =>
          refine succeeds_pure ⟨?_, front⟩
          rw [CallTarget.implicit, ← declared]
          rfl
      | some symbol =>
          apply (succeeds_emit front).bind
          intro _ p₅ front
          refine succeeds_pure ⟨?_, front⟩
          rw [CallTarget.implicit, ← declared]
          rfl

/-- A term that starts with a name is told apart by the lexeme behind the name. -/
theorem succeeds_name {name : String} {l : Lexeme} {post : Unit → Progress → Prop}
    (front : p.InFront symbols (.identifier name :: l :: rest) s)
    (behind : (match l.kind with
      | .symbol .leftBracket => element className bound
      | .symbol .leftParen => call className bound
      | .symbol .dot => call className bound
      | _ => do
        let name ← consume .identifier
        pushVariable (← resolve name)).Succeeds p post) :
    (term className (bound + 1)).Succeeds p post := by
  rcases front.current with ⟨t, current, more, same, next⟩
  rcases (next { p with stream := p.stream.advance } rfl rfl).current with
    ⟨u, following, -, same', -⟩
  have kind : t.kind = .identifier := Token.kind_of_lexeme_eq same
  rw [Step.term]
  apply succeeds_peek_bind current
  rw [kind]
  apply succeeds_peekNext_bind current more following
  rw [Token.kind_of_lexeme_eq same']
  exact behind

/-- A name is a variable if the token behind it says so, and then it has to be declared. -/
theorem succeeds_variable {name : String} {l : Lexeme}
    (front : p.InFront symbols (.identifier name :: l :: rest) s)
    (declared : (symbols.get? name).isSome = true) (follows : l.kind.followsTerm = true) :
    (term className (bound + 1)).Succeeds p fun _ q => q.InFront symbols (l :: rest) s := by
  apply succeeds_name front
  generalize l.kind = k at follows
  split
  · cases follows
  · cases follows
  · cases follows
  · apply (succeeds_consume_identifier front).bind
    rintro t p₁ ⟨sameName, front⟩
    apply (succeeds_resolve front (sameName ▸ declared)).bind
    intro symbol p₂ front
    exact succeeds_emit front

/-- A list of arguments may be empty. -/
theorem succeeds_arguments (listed : Arguments)
    (front : p.InFront symbols (listed.lexemes ++ .symbol .rightParen :: rest) s)
    (behind : listed ≠ .nil → ∀ bound, (argumentsBehind className bound 0).Succeeds p fun count q =>
      count = 0 + listed.length ∧ q.InFront symbols (.symbol .rightParen :: rest) s) :
    (arguments className bound).Succeeds p fun count q =>
      count = listed.length ∧ q.InFront symbols (.symbol .rightParen :: rest) s := by
  cases bound with
  | zero => exact succeeds_exhausted
  | succ bound =>
      rw [Step.arguments]
      cases listed with
      | nil =>
          rw [Arguments.lexemes, List.nil_append] at front
          rcases front.current with ⟨t, current, -, same, -⟩
          apply succeeds_peek_bind current
          have closed : t.kind = .symbol .rightParen := Token.kind_of_lexeme_eq same
          rw [if_pos closed]
          exact succeeds_pure ⟨rfl, front⟩
      | cons first others =>
          rcases first.lexemes_eq_cons with ⟨l, more, written, start⟩
          have front' := front
          rw [Arguments.lexemes, written, List.cons_append, List.cons_append] at front'
          rcases front'.current with ⟨t, current, -, same, -⟩
          apply succeeds_peek_bind current
          have notClosed : t.kind ≠ .symbol .rightParen := by
            rw [Token.kind_of_lexeme_eq same]
            exact TokenKind.ne_rightParen_of_termKind? start
          rw [if_neg notClosed]
          apply (behind (fun same => by cases same) bound).mono
          rintro _ q ⟨rfl, front⟩
          exact ⟨Nat.zero_add _, front⟩

/-! Terms that are told by their first lexeme. -/

theorem succeeds_integer {digits : String}
    (front : p.InFront symbols (.integer digits :: rest) s) :
    (term className (bound + 1)).Succeeds p fun _ q => q.InFront symbols rest s := by
  rcases front.current with ⟨t, current, -, same, -⟩
  rw [Step.term]
  apply succeeds_peek_bind current
  rw [Token.kind_of_lexeme_eq same]
  apply (succeeds_skip front).bind
  intro _ p₁ behind
  exact succeeds_integerConstant behind (front.spelled t current) (Token.kind_of_lexeme_eq same)

theorem succeeds_string {text : String}
    (fits : FitsMachine (charactersBetweenQuotes text))
    (front : p.InFront symbols (.string text :: rest) s) :
    (term className (bound + 1)).Succeeds p fun _ q => q.InFront symbols rest s := by
  rcases front.current with ⟨t, current, -, same, -⟩
  rw [Step.term]
  apply succeeds_peek_bind current
  rw [Token.kind_of_lexeme_eq same]
  apply (succeeds_skip front).bind
  intro _ p₁ front
  have fits : FitsMachine t.content := by
    rw [Token.content_eq, Token.text_of_lexeme_eq_string same]
    exact fits
  exact succeeds_stringConstant front fits

theorem succeeds_constant {k : KeywordConstant}
    (front : p.InFront symbols (.keyword k.word :: rest) s) :
    (term className (bound + 1)).Succeeds p fun _ q => q.InFront symbols rest s := by
  rcases front.current with ⟨t, current, -, same, -⟩
  rw [Step.term]
  apply succeeds_peek_bind current
  rw [Token.kind_of_lexeme_eq same, Lexeme.kind, TokenKind.termKind?_constant]
  apply (succeeds_skip front).bind
  intro _ p₁ front
  exact succeeds_emit front

/-! Terms with parts, of which the functions on the parts are taken to succeed. -/

/-- The operand begins right behind the operator, without one step of the bound in between. -/
theorem succeeds_unary {o : UnaryOperator} {operand : List Lexeme}
    (front : p.InFront symbols (.symbol o.symbol :: (operand ++ rest)) s)
    (succeeds : ∀ p, p.InFront symbols (operand ++ rest) s →
      (term className bound).Succeeds p fun _ q => q.InFront symbols rest s) :
    (term className (bound + 1)).Succeeds p fun _ q => q.InFront symbols rest s := by
  rcases front.current with ⟨t, current, -, same, -⟩
  rw [Step.term]
  apply succeeds_peek_bind current
  rw [Token.kind_of_lexeme_eq same, Lexeme.kind, TokenKind.termKind?_unary]
  apply (succeeds_skip front).bind
  intro _ p₁ front
  apply (succeeds p₁ front).bind
  intro _ p₂ front
  exact succeeds_emit front

/-- What is in parentheses is an expression of its own, and the closing parenthesis ends it. -/
theorem succeeds_parenthesis {inner : List Lexeme}
    (front : p.InFront symbols
      (.symbol .leftParen :: (inner ++ .symbol .rightParen :: rest)) s)
    (succeeds : ∀ p, p.InFront symbols (inner ++ .symbol .rightParen :: rest) s →
      (expression className bound).Succeeds p fun _ q =>
        q.InFront symbols (.symbol .rightParen :: rest) s) :
    (term className (bound + 1)).Succeeds p fun _ q => q.InFront symbols rest s := by
  rcases front.current with ⟨t, current, -, same, -⟩
  rw [Step.term]
  apply succeeds_peek_bind current
  rw [Token.kind_of_lexeme_eq same]
  apply (succeeds_skip front).bind
  intro _ p₁ front
  apply (succeeds p₁ front).bind
  intro _ p₂ front
  exact succeeds_symbol front

/-- The array has to be declared and the index has to be read; that the array holds an array is not
asked. -/
theorem succeeds_element {array : String} {index : List Lexeme}
    (front : p.InFront symbols (.identifier array :: .symbol .leftBracket ::
      (index ++ .symbol .rightBracket :: rest)) s)
    (declared : (symbols.get? array).isSome = true)
    (succeeds : ∀ bound p, p.InFront symbols (index ++ .symbol .rightBracket :: rest) s →
      (expression className bound).Succeeds p fun _ q =>
        q.InFront symbols (.symbol .rightBracket :: rest) s) :
    (element className bound).Succeeds p fun _ q => q.InFront symbols rest s := by
  cases bound with
  | zero => exact succeeds_exhausted
  | succ bound =>
      rw [Step.element]
      apply (succeeds_consume_identifier front).bind
      rintro name p₁ ⟨sameName, front⟩
      apply (succeeds_resolve front (sameName ▸ declared)).bind
      intro symbol p₂ front
      apply (succeeds_symbol front).bind
      intro _ p₃ front
      apply (succeeds_emit front).bind
      intro _ p₄ front
      apply (succeeds bound p₄ front).bind
      intro _ p₅ front
      apply (succeeds_symbol front).bind
      intro _ p₆ front
      exact succeeds_emit front

end Step

open Step

variable {symbols : SymbolTable} {s : TokenStream} {className : String}

mutual

/-- An acceptable expression is read to its end.  What follows it must be a token that closes an
expression, or else the compiler would take more for it. -/
theorem Expression.succeeds (e : Expression) (acceptable : e.Acceptable symbols.get?)
    {p : Progress} {rest : List Lexeme} (bound : Nat)
    (front : p.InFront symbols (e.lexemes ++ rest) s)
    (closed : Begins TokenKind.closesExpression rest) :
    (Step.expression className bound).Succeeds p fun _ q => q.InFront symbols rest s := by
  cases e with
  | chain first operators =>
      cases bound with
      | zero => exact succeeds_exhausted
      | succ bound =>
          rw [Expression.lexemes, List.append_assoc] at front
          rw [Step.expression]
          apply (first.succeeds acceptable.1 bound front
            (operators.begins_followsTerm closed)).bind
          intro _ q front
          exact operators.succeeds acceptable.2 bound front closed

/-- The operators behind a term are read to the end of the expression. -/
theorem Operators.succeeds (operators : Operators) (acceptable : operators.Acceptable symbols.get?)
    {p : Progress} {rest : List Lexeme} (bound : Nat)
    (front : p.InFront symbols (operators.lexemes ++ rest) s)
    (closed : Begins TokenKind.closesExpression rest) :
    (Step.operators className bound).Succeeds p fun _ q => q.InFront symbols rest s := by
  cases operators with
  | nil =>
      cases bound with
      | zero => exact succeeds_exhausted
      | succ bound =>
          rcases closed with ⟨l, more, rfl, closes⟩
          rw [Operators.lexemes, List.nil_append] at front
          rcases front.current with ⟨t, current, -, same, -⟩
          rw [operators_eq]
          apply succeeds_peek_bind current
          rw [Token.kind_of_lexeme_eq same, TokenKind.binaryOperator?_of_closesExpression closes]
          exact succeeds_pure front
  | cons o operand others =>
      cases bound with
      | zero => exact succeeds_exhausted
      | succ bound =>
          rw [Operators.lexemes, List.cons_append, List.append_assoc] at front
          rcases front.current with ⟨t, current, -, same, -⟩
          rw [operators_eq]
          apply succeeds_peek_bind current
          rw [Token.kind_of_lexeme_eq same, Lexeme.kind, TokenKind.binaryOperator?_symbol]
          apply (succeeds_skip front).bind
          intro _ p₁ front
          apply (operand.succeeds acceptable.1 bound front
            (others.begins_followsTerm closed)).bind
          intro _ p₂ front
          apply (succeeds_emit front).bind
          intro _ p₃ front
          exact others.succeeds acceptable.2 bound front closed

/-- An acceptable term is read to its end.  The proof has one case for each form of a term. -/
theorem Term.succeeds (t : Term) (acceptable : t.Acceptable symbols.get?)
    {p : Progress} {rest : List Lexeme} (bound : Nat)
    (front : p.InFront symbols (t.lexemes ++ rest) s)
    (follows : Begins TokenKind.followsTerm rest) :
    (Step.term className bound).Succeeds p fun _ q => q.InFront symbols rest s := by
  cases bound with
  | zero => exact succeeds_exhausted
  | succ bound =>
      cases t with
      | plain name =>
          rcases follows with ⟨l, more, rfl, follows⟩
          exact succeeds_variable front acceptable follows
      | element array index =>
          rw [Term.lexemes, List.cons_append, List.cons_append, List.append_assoc,
            List.singleton_append] at front
          exact succeeds_name front (succeeds_element front acceptable.1 fun bound _ front =>
            index.succeeds acceptable.2 bound front (begins_cons.mpr rfl))
      | call c =>
          have called := c.succeeds acceptable bound front
          rw [Term.lexemes] at front
          cases c with
          | invoke target listed =>
              rw [Call.lexemes] at front
              cases target with
              | own name => exact succeeds_name front called
              | qualified object member => exact succeeds_name front called
      | integer digits => exact succeeds_integer front
      | string text => exact succeeds_string acceptable front
      | constant k => exact succeeds_constant front
      | unary o operand =>
          rw [Term.lexemes, List.cons_append] at front
          exact succeeds_unary front fun _ front =>
            operand.succeeds acceptable bound front follows
      | parenthesis inner =>
          rw [Term.lexemes, List.cons_append, List.append_assoc, List.singleton_append] at front
          exact succeeds_parenthesis front fun _ front =>
            inner.succeeds acceptable bound front (begins_cons.mpr rfl)

/-- An acceptable call is read up to its closing parenthesis.  Acceptable means here that all
arguments together, with the object of a method, are no more than a word can count. -/
theorem Call.succeeds (c : Call) (acceptable : c.Acceptable symbols.get?)
    {p : Progress} {rest : List Lexeme} (bound : Nat)
    (front : p.InFront symbols (c.lexemes ++ rest) s) :
    (Step.call className bound).Succeeds p fun _ q => q.InFront symbols rest s := by
  cases c with
  | invoke target listed =>
      cases bound with
      | zero => exact succeeds_exhausted
      | succ bound =>
          rw [Call.lexemes, List.append_assoc, List.cons_append, List.append_assoc,
            List.singleton_append] at front
          rw [Step.call]
          apply (succeeds_callee target front).bind
          rintro found p₁ ⟨implicit, front⟩
          apply (succeeds_symbol front).bind
          intro _ p₂ front
          have few : listed.length ≤ 65535 := Nat.le_trans (Nat.le_add_right _ _) acceptable.1
          apply (succeeds_arguments listed front fun nonempty bound =>
            listed.succeeds_behind nonempty acceptable.2 ((Nat.zero_add _).symm ▸ few) bound
              front).bind
          rintro _ p₃ ⟨rfl, front⟩
          apply (succeeds_consume front rfl).bind
          rintro close p₄ ⟨-, front⟩
          have enough : ¬ listed.length + found.implicit > maxArguments := by
            rw [implicit]
            exact Nat.not_lt.mpr acceptable.1
          rw [if_neg enough]
          exact succeeds_emit front

/-- Arguments are counted while they are read.  The count begins with those before and stays within
a word. -/
theorem Arguments.succeeds_behind (listed : Arguments) (nonempty : listed ≠ .nil)
    (acceptable : listed.Acceptable symbols.get?) {before : Nat}
    (few : before + listed.length ≤ 65535) {p : Progress} {rest : List Lexeme} (bound : Nat)
    (front : p.InFront symbols (listed.lexemes ++ .symbol .rightParen :: rest) s) :
    (Step.argumentsBehind className bound before).Succeeds p fun count q =>
      count = before + listed.length ∧ q.InFront symbols (.symbol .rightParen :: rest) s := by
  cases listed with
  | nil => exact absurd rfl nonempty
  | cons first others =>
      cases bound with
      | zero => exact succeeds_exhausted
      | succ bound =>
          rcases first.lexemes_eq_cons with ⟨l, more, written, -⟩
          have front' := front
          rw [Arguments.lexemes, written, List.cons_append, List.cons_append] at front'
          rcases front'.current with ⟨t, current, -⟩
          rw [Step.argumentsBehind]
          apply succeeds_peek_bind current
          rw [Arguments.length] at few
          have room : ¬ before ≥ maxArguments :=
            Nat.not_le.mpr (Nat.lt_of_lt_of_le (Nat.lt_add_of_pos_right (Nat.succ_pos _)) few)
          rw [if_neg room]
          rw [Arguments.lexemes, List.append_assoc] at front
          apply (first.succeeds acceptable.1 bound front
            (others.begins_closesExpression rest)).bind
          intro _ p₁ front
          cases others with
          | nil =>
              rw [Arguments.behind, List.nil_append] at front
              apply (succeeds_accept_other front (begins_cons.mpr rfl)).bind
              rintro _ p₂ ⟨rfl, front⟩
              exact succeeds_pure ⟨rfl, front⟩
          | cons second others =>
              rw [Arguments.behind, List.cons_append] at front
              apply (succeeds_accept front rfl).bind
              rintro _ p₂ ⟨rfl, front⟩
              rw [if_pos rfl]
              have fewBehind : before + 1 + (Arguments.cons second others).length ≤ 65535 := by
                rwa [Nat.add_assoc, Nat.add_comm 1]
              apply ((Arguments.cons second others).succeeds_behind (fun same => by cases same)
                acceptable.2 fewBehind bound front).mono
              rintro _ q ⟨rfl, front⟩
              exact ⟨by rw [Nat.add_assoc, Nat.add_comm 1, ← Arguments.length], front⟩

end

end Jack
