import Jack.Proofs.Grammar.Tree

namespace Jack

/-!
# First and following lexemes

Which lexemes a form of the grammar starts with, and which ones may follow it.  Both are told by the
kind of one lexeme, which is what lets one token of look-ahead decide between the forms.
-/

/-- The lexemes are none at all, or the first one has a kind with a given property. -/
def Heads (allowed : TokenKind → Bool) (lexemes : List Lexeme) : Prop :=
  ∀ l ∈ lexemes.head?, allowed l.kind = true

namespace TokenKind

/-- The kinds of tokens that end an expression. -/
def closesExpression : TokenKind → Bool
  | symbol .rightParen | symbol .rightBracket | symbol .semicolon | symbol .comma => true
  | _ => false

/-- The kinds of tokens that stand behind a term: an operator, or what ends the expression. -/
def followsTerm (k : TokenKind) : Bool :=
  k.binaryOperator?.isSome || k.closesExpression

/-- The kind of the token that ends a block. -/
def closesBlock (k : TokenKind) : Bool :=
  k = symbol .rightBrace

/-- The kinds of tokens that stand behind a statement. -/
def followsStatement (k : TokenKind) : Bool :=
  k.statementKind?.isSome || k.closesBlock

/-- The kinds of tokens that start declarations of class variables. -/
def startsClassVariables (k : TokenKind) : Bool :=
  k = keyword .static || k = keyword .field

/-- What closes an expression may follow a term. -/
theorem followsTerm_of_closesExpression {k : TokenKind} (closes : k.closesExpression = true) :
    k.followsTerm = true := by
  rw [followsTerm, closes, Bool.or_true]

end TokenKind

theorem Heads.nil (allowed : TokenKind → Bool) : Heads allowed [] := by
  intro l member
  simp only [List.head?_nil, Option.not_mem_none] at member

/-- It is the first lexeme that counts. -/
theorem heads_cons {allowed : TokenKind → Bool} {l : Lexeme} {rest : List Lexeme} :
    Heads allowed (l :: rest) ↔ allowed l.kind = true := by
  simp only [Heads, List.head?_cons, Option.mem_some_iff, forall_eq']

/-- More kinds may be allowed. -/
theorem Heads.mono {allowed wider : TokenKind → Bool} {lexemes : List Lexeme}
    (heads : Heads allowed lexemes) (weaker : ∀ k, allowed k = true → wider k = true) :
    Heads wider lexemes :=
  fun l member => weaker l.kind (heads l member)

/-- There is a first lexeme, and it has a kind with a given property. -/
def Begins (allowed : TokenKind → Bool) (lexemes : List Lexeme) : Prop :=
  ∃ l rest, lexemes = l :: rest ∧ allowed l.kind = true

/-- It is the first lexeme that counts. -/
theorem begins_cons {allowed : TokenKind → Bool} {l : Lexeme} {rest : List Lexeme} :
    Begins allowed (l :: rest) ↔ allowed l.kind = true := by
  constructor
  · rintro ⟨l', rest', same, kind⟩
    cases same
    exact kind
  · intro kind
    exact ⟨l, rest, rfl, kind⟩

theorem Begins.mono {allowed wider : TokenKind → Bool} {lexemes : List Lexeme}
    (begins : Begins allowed lexemes) (weaker : ∀ k, allowed k = true → wider k = true) :
    Begins wider lexemes := by
  rcases begins with ⟨l, rest, same, kind⟩
  exact ⟨l, rest, same, weaker l.kind kind⟩

/-- A text that begins so has a first lexeme; `Heads` also allows for an empty text. -/
theorem Begins.heads {allowed : TokenKind → Bool} {lexemes : List Lexeme}
    (begins : Begins allowed lexemes) : Heads allowed lexemes := by
  rcases begins with ⟨l, rest, rfl, kind⟩
  exact heads_cons.mpr kind

theorem Heads.begins {allowed : TokenKind → Bool} {lexemes : List Lexeme}
    (heads : Heads allowed lexemes) (more : lexemes ≠ []) : Begins allowed lexemes := by
  cases lexemes with
  | nil => exact absurd rfl more
  | cons l rest => exact begins_cons.mpr (heads_cons.mp heads)

/-! ## First lexemes -/

/-- The form of a term as its first token tells it. -/
def Term.form : Term → TermKind
  | .integer _ => .integer
  | .string _ => .string
  | .constant k => .constant k
  | .unary o _ => .unary o
  | .parenthesis _ => .parenthesis
  | .plain _ => .name
  | .element _ _ => .name
  | .call _ => .name

theorem CallTarget.lexemes_eq_cons (target : CallTarget) :
    ∃ name rest, target.lexemes = .identifier name :: rest := by
  cases target with
  | own name => exact ⟨name, [], rfl⟩
  | qualified object member => exact ⟨object, _, rfl⟩

theorem Call.lexemes_eq_cons (c : Call) :
    ∃ name rest, c.lexemes = .identifier name :: rest := by
  cases c with
  | invoke target listed =>
      rcases target.lexemes_eq_cons with ⟨name, rest, written⟩
      exact ⟨name, _, by rw [lexemes, written, List.cons_append]⟩

/-- No term is empty, and its first lexeme tells its form, except that names start three of the
forms. -/
theorem Term.lexemes_eq_cons (t : Term) :
    ∃ first rest, t.lexemes = first :: rest ∧ first.kind.termKind? = some t.form := by
  cases t with
  | call c =>
      rcases c.lexemes_eq_cons with ⟨name, rest, written⟩
      exact ⟨.identifier name, rest, by rw [lexemes, written], rfl⟩
  | constant k => exact ⟨.keyword k.word, [], by rw [lexemes], TokenKind.termKind?_constant k⟩
  | unary o operand =>
      exact ⟨.symbol o.symbol, operand.lexemes, by rw [lexemes], TokenKind.termKind?_unary o⟩
  | _ => exact ⟨_, _, by rw [lexemes], rfl⟩

/-- No expression is empty, and it starts as a term does. -/
theorem Expression.lexemes_eq_cons (e : Expression) :
    ∃ first rest, e.lexemes = first :: rest ∧ first.kind.termKind?.isSome = true := by
  cases e with
  | chain term operators =>
      rcases term.lexemes_eq_cons with ⟨first, rest, written, start⟩
      exact ⟨first, rest ++ operators.lexemes, by rw [lexemes, written, List.cons_append],
        by rw [start, Option.isSome_some]⟩

/-- The form of a statement as its first token tells it. -/
def Statement.form : Statement → StatementKind
  | .letVariable _ _ => .«let»
  | .letElement _ _ _ => .«let»
  | .ifThen _ _ => .«if»
  | .ifElse _ _ _ => .«if»
  | .whileLoop _ _ => .«while»
  | .doCall _ => .«do»
  | .returnValue _ => .«return»

/-- No statement is empty, and its first word tells its form.  Both forms of `let` and both forms of
`if` share theirs. -/
theorem Statement.lexemes_eq_cons (s : Statement) :
    ∃ first rest, s.lexemes = first :: rest ∧ first.kind.statementKind? = some s.form := by
  cases s with
  | returnValue value =>
      cases value with
      | none => exact ⟨_, _, by rw [lexemes], rfl⟩
      | some value => exact ⟨_, _, by rw [lexemes], rfl⟩
  | _ => exact ⟨_, _, by rw [lexemes], rfl⟩

/-- What follows a term of an expression, if the expression is followed by what ends it. -/
theorem Operators.heads_followsTerm (operators : Operators) {rest : List Lexeme}
    (closed : Heads TokenKind.closesExpression rest) :
    Heads TokenKind.followsTerm (operators.lexemes ++ rest) := by
  cases operators with
  | nil => exact closed.mono fun _ => TokenKind.followsTerm_of_closesExpression
  | cons o operand more =>
      rw [lexemes, List.cons_append, heads_cons, TokenKind.followsTerm, Lexeme.kind,
        TokenKind.binaryOperator?_symbol]
      rfl

/-- What follows a statement in a block. -/
theorem Statements.heads_followsStatement (statements : Statements) (rest : List Lexeme) :
    Heads TokenKind.followsStatement (statements.lexemes ++ .symbol .rightBrace :: rest) := by
  cases statements with
  | nil => exact heads_cons.mpr rfl
  | cons first more =>
      rcases first.lexemes_eq_cons with ⟨start, behind, written, form⟩
      rw [lexemes, written, List.cons_append, List.cons_append, heads_cons,
        TokenKind.followsStatement, form]
      rfl

/-- What follows an argument. -/
theorem Arguments.heads_closesExpression (listed : Arguments) {rest : List Lexeme}
    (closed : Heads TokenKind.closesExpression rest) :
    Heads TokenKind.closesExpression (listed.behind ++ rest) := by
  cases listed with
  | nil => exact closed
  | cons first more =>
      rw [behind, List.cons_append, heads_cons]
      rfl

/-! ## Repetitions in classes -/

/-- The statements of a subroutine do not start with the word for a local variable. -/
theorem Statements.heads_not_var (statements : Statements) (rest : List Lexeme) :
    Heads (fun k => !decide (k = .keyword .var))
      (statements.lexemes ++ .symbol .rightBrace :: rest) := by
  apply (statements.heads_followsStatement rest).mono
  intro k follows
  cases k with
  | keyword w => cases w <;> first | rfl | exact follows
  | _ => rfl

/-- A line of class variables starts with one of two words. -/
theorem ClassVariables.lexemes_eq_cons (v : ClassVariables) :
    ∃ first rest, v.lexemes = first :: rest ∧ first.kind.startsClassVariables = true := by
  cases v with
  | static group => exact ⟨.keyword .static, group.lexemes, by rw [lexemes], rfl⟩
  | field group => exact ⟨.keyword .field, group.lexemes, by rw [lexemes], rfl⟩

/-- A subroutine starts with the word for its kind. -/
theorem Subroutine.lexemes_eq_cons (s : Subroutine) :
    ∃ first rest, s.lexemes = first :: rest ∧ first.kind.subroutineKind? = some s.kind :=
  ⟨_, _, rfl, TokenKind.subroutineKind?_word s.kind⟩

/-- The subroutines of a class do not start with the word for a class variable. -/
theorem heads_not_startsClassVariables (subroutines : List Subroutine) (rest : List Lexeme) :
    Heads (fun k => !k.startsClassVariables)
      (subroutines.flatMap Subroutine.lexemes ++ .symbol .rightBrace :: rest) := by
  cases subroutines with
  | nil => exact heads_cons.mpr rfl
  | cons s more =>
      rw [List.flatMap_cons, Subroutine.lexemes, List.cons_append, List.cons_append, heads_cons]
      cases s.kind <;> rfl

end Jack
