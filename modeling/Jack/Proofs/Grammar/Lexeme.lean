import Jack.Language.Operator
import Jack.Token.Basic

namespace Jack

/-!
# Terminals of the grammar

The grammar sees of a token its kind and, where the kind leaves it open, its text.  The place of a
token is forgotten, and so is the text of a symbol or a reserved word, which the kind fixes.  Two
sources that differ in their gaps alone therefore have the same lexemes.

The tables at the end give the spelling of the operators and constants.  They are inverse to the
tables by which compilation recognises them.
-/

/-- What the grammar sees of a token. -/
inductive Lexeme
  | symbol (p : Punctuation)
  | keyword (k : Keyword)
  | identifier (name : String)
  | integer (digits : String)
  /-- A string constant with its quotes. -/
  | string (text : String)
  | endOfFile
deriving DecidableEq

/-- The kind of the tokens that have a given lexeme. -/
def Lexeme.kind : Lexeme → TokenKind
  | symbol p => .symbol p
  | keyword k => .keyword k
  | identifier _ => .identifier
  | integer _ => .integer
  | string _ => .string
  | endOfFile => .endOfFile

/-- What the grammar sees of a given token. -/
def Token.lexeme (t : Token) : Lexeme :=
  match t.kind with
  | .symbol p => .symbol p
  | .keyword k => .keyword k
  | .identifier => .identifier t.text
  | .integer => .integer t.text
  | .string => .string t.text
  | .endOfFile => .endOfFile

namespace Token

/-- A token and its lexeme have the same kind. -/
@[simp] theorem kind_lexeme (t : Token) : t.lexeme.kind = t.kind := by
  cases kind : t.kind <;> simp only [lexeme, kind, Lexeme.kind]

theorem lexeme_eq_symbol {t : Token} {p : Punctuation} (kind : t.kind = .symbol p) :
    t.lexeme = .symbol p := by
  simp only [lexeme, kind]

theorem lexeme_eq_keyword {t : Token} {k : Keyword} (kind : t.kind = .keyword k) :
    t.lexeme = .keyword k := by
  simp only [lexeme, kind]

theorem lexeme_eq_identifier {t : Token} (kind : t.kind = .identifier) :
    t.lexeme = .identifier t.text := by
  simp only [lexeme, kind]

theorem lexeme_eq_integer {t : Token} (kind : t.kind = .integer) :
    t.lexeme = .integer t.text := by
  simp only [lexeme, kind]

theorem lexeme_eq_string {t : Token} (kind : t.kind = .string) :
    t.lexeme = .string t.text := by
  simp only [lexeme, kind]

/-- The kind of a token can be read off its lexeme. -/
theorem kind_of_lexeme_eq {t : Token} {l : Lexeme} (same : t.lexeme = l) : t.kind = l.kind := by
  rw [← same, kind_lexeme]

theorem text_of_lexeme_eq_identifier {t : Token} {name : String}
    (same : t.lexeme = .identifier name) : t.text = name := by
  have kind : t.kind = .identifier := kind_of_lexeme_eq same
  rw [lexeme_eq_identifier kind] at same
  exact Lexeme.identifier.inj same

theorem text_of_lexeme_eq_string {t : Token} {text : String}
    (same : t.lexeme = .string text) : t.text = text := by
  have kind : t.kind = .string := kind_of_lexeme_eq same
  rw [lexeme_eq_string kind] at same
  exact Lexeme.string.inj same

end Token

/-! ## Characters of string constants -/

/-- The characters of a string constant, told from its text: all but the quotes at its two ends.
Nothing is said here of how the compiler takes the quotes off.  A text that is not in quotes counts
as a whole; the lexer makes no string constant of such a text. -/
def charactersBetweenQuotes (text : String) : List Char :=
  let characters := text.toList
  if 2 ≤ characters.length ∧ characters.head? = some '"' ∧ characters.getLast? = some '"' then
    (characters.drop 1).dropLast
  else characters

/-- Of a text in quotes, the characters between them.  More quotes may be among these. -/
theorem charactersBetweenQuotes_quoted {text : String} {inside : List Char}
    (quoted : text.toList = '"' :: (inside ++ ['"'])) : charactersBetweenQuotes text = inside := by
  have long : 2 ≤ ('"' :: (inside ++ ['"'])).length := by simp
  have last : ('"' :: (inside ++ ['"'])).getLast? = some '"' := by
    rw [← List.cons_append, List.getLast?_concat]
  simp only [charactersBetweenQuotes, quoted, long, last, List.head?_cons, and_self, if_true,
    List.drop_one, List.tail_cons, List.dropLast_concat]

/-- The compiler takes the characters of a string constant from between its quotes. -/
theorem Token.content_eq (t : Token) : t.content = charactersBetweenQuotes t.text := by
  unfold content charactersBetweenQuotes
  cases t.text.toList with
  | nil => rfl
  | cons first rest =>
      by_cases opened : first = '"'
      · subst opened
        cases rest with
        | nil => rfl
        | cons second more => simp [unquoted]
      · have whole : unquoted (first :: rest) = first :: rest := by
          unfold unquoted
          split
          · rename_i same
            exact absurd (List.cons.inj same).1 opened
          · rfl
        simp [whole, opened]

/-! ## Spelling of operators and constants -/

/-- The symbol for an operator between two terms. -/
def BinaryOperator.symbol : BinaryOperator → Punctuation
  | add => .plus
  | subtract => .minus
  | multiply => .star
  | divide => .slash
  | and => .ampersand
  | or => .pipe
  | less => .less
  | greater => .greater
  | equal => .equal

/-- The symbol for an operator in front of a term. -/
def UnaryOperator.symbol : UnaryOperator → Punctuation
  | negate => .minus
  | complement => .tilde

/-- The reserved word for a constant. -/
def KeywordConstant.word : KeywordConstant → Keyword
  | true => .true
  | false => .false
  | null => .null
  | this => .this

/-- The reserved word that opens a subroutine. -/
def SubroutineKind.word : SubroutineKind → Keyword
  | constructor => .constructor
  | function => .function
  | method => .method

/-- The reserved word that opens a statement. -/
def StatementKind.word : StatementKind → Keyword
  | «let» => .«let»
  | «if» => .«if»
  | «while» => .«while»
  | «do» => .«do»
  | «return» => .«return»

namespace TokenKind

/-- The symbol of each operator is known for that operator. -/
@[simp] theorem binaryOperator?_symbol (o : BinaryOperator) :
    (symbol o.symbol).binaryOperator? = some o := by
  cases o <;> rfl

/-- No other symbol is known for an operator. -/
theorem eq_of_binaryOperator? {k : TokenKind} {o : BinaryOperator}
    (operator : k.binaryOperator? = some o) : k = .symbol o.symbol := by
  cases k with
  | symbol p =>
      cases p <;> simp only [binaryOperator?, Punctuation.binaryOperator?, Option.some.injEq,
        reduceCtorEq] at operator <;> (subst operator; rfl)
  | _ => simp only [binaryOperator?, reduceCtorEq] at operator

/-- A unary operator starts a term of its form.  The minus sign is read so where a term is expected,
and as a binary operator behind one. -/
@[simp] theorem termKind?_unary (o : UnaryOperator) :
    (symbol o.symbol).termKind? = some (.unary o) := by
  cases o <;> rfl

@[simp] theorem termKind?_constant (k : KeywordConstant) :
    (keyword k.word).termKind? = some (.constant k) := by
  cases k <;> rfl

/-- The token that tells the form of a term has the spelling of that form. -/
theorem eq_of_termKind? {k : TokenKind} {form : TermKind} (start : k.termKind? = some form) :
    k = match form with
      | .integer => .integer
      | .string => .string
      | .constant c => .keyword c.word
      | .unary o => .symbol o.symbol
      | .parenthesis => .symbol .leftParen
      | .name => .identifier := by
  cases k with
  | symbol p =>
      cases p <;> simp only [termKind?, Punctuation.unaryOperator?, Option.map, Option.some.injEq,
        reduceCtorEq] at start <;> (subst start; rfl)
  | keyword w =>
      cases w <;> simp only [termKind?, Option.some.injEq, reduceCtorEq] at start <;>
        (subst start; rfl)
  | endOfFile => simp only [termKind?, reduceCtorEq] at start
  | _ =>
      simp only [termKind?, Option.some.injEq] at start
      subst start
      rfl

/-- The word of each kind of subroutine is known for it. -/
@[simp] theorem subroutineKind?_word (kind : SubroutineKind) :
    (keyword kind.word).subroutineKind? = some kind := by
  cases kind <;> rfl

/-- No other word is known for a kind of subroutine. -/
theorem eq_of_subroutineKind? {k : TokenKind} {kind : SubroutineKind}
    (start : k.subroutineKind? = some kind) : k = .keyword kind.word := by
  cases k with
  | keyword w =>
      cases w <;> simp only [subroutineKind?, Option.some.injEq, reduceCtorEq] at start <;>
        (subst start; rfl)
  | _ => simp only [subroutineKind?, reduceCtorEq] at start

/-- The word of each form of statement is known for it. -/
@[simp] theorem statementKind?_word (kind : StatementKind) :
    (keyword kind.word).statementKind? = some kind := by
  cases kind <;> rfl

/-- No other word is known for a form of statement. -/
theorem eq_of_statementKind? {k : TokenKind} {kind : StatementKind}
    (start : k.statementKind? = some kind) : k = .keyword kind.word := by
  cases k with
  | keyword w =>
      cases w <;> simp only [statementKind?, Option.some.injEq, reduceCtorEq] at start <;>
        (subst start; rfl)
  | _ => simp only [statementKind?, reduceCtorEq] at start

end TokenKind

end Jack
