import Jack.Token.Kind

namespace Jack

/-!
# Operators, constants and leading words

The grammar of the language is decided by single tokens: which tokens are operators, which words are
constants, and which words open a declaration or a statement.
-/

/-- An operator between two terms. -/
inductive BinaryOperator
  | add | subtract | multiply | divide | and | or | less | greater | equal
deriving DecidableEq

/-- An operator in front of a term. -/
inductive UnaryOperator
  | negate | complement
deriving DecidableEq

/-- A reserved word that is a term. -/
inductive KeywordConstant
  | true | false | null | this
deriving DecidableEq

/-- The three forms of a subroutine. -/
inductive SubroutineKind
  | constructor | function | method
deriving DecidableEq

/-- The five forms of a statement. -/
inductive StatementKind
  | «let» | «if» | «while» | «do» | «return»
deriving DecidableEq

/-- The forms of a term, as told by its first token. -/
inductive TermKind
  | integer
  | string
  | constant (k : KeywordConstant)
  | unary (o : UnaryOperator)
  | parenthesis
  /-- A variable, an array element or a call. -/
  | name
deriving DecidableEq

namespace Punctuation

/-- The operator between two terms that a symbol stands for. -/
def binaryOperator? : Punctuation → Option BinaryOperator
  | plus => some .add
  | minus => some .subtract
  | star => some .multiply
  | slash => some .divide
  | ampersand => some .and
  | pipe => some .or
  | less => some .less
  | greater => some .greater
  | equal => some .equal
  | _ => none

/-- The operator in front of a term that a symbol stands for. -/
def unaryOperator? : Punctuation → Option UnaryOperator
  | minus => some .negate
  | tilde => some .complement
  | _ => none

end Punctuation

namespace TokenKind

/-- The operator between two terms that a token stands for. -/
def binaryOperator? : TokenKind → Option BinaryOperator
  | symbol p => p.binaryOperator?
  | _ => none

/-- An expression goes on with a token of this kind behind a term. -/
def isBinaryOperator : TokenKind → Bool
  | symbol .plus | symbol .minus | symbol .star | symbol .slash | symbol .ampersand
  | symbol .pipe | symbol .less | symbol .greater | symbol .equal => true
  | _ => false

/-- The form of the term that a token starts. -/
def termKind? : TokenKind → Option TermKind
  | integer => some .integer
  | string => some .string
  | identifier => some .name
  | keyword .true => some (.constant .true)
  | keyword .false => some (.constant .false)
  | keyword .null => some (.constant .null)
  | keyword .this => some (.constant .this)
  | symbol .leftParen => some .parenthesis
  | symbol p => p.unaryOperator?.map .unary
  | _ => none

/-- The form of the statement that a token starts. -/
def statementKind? : TokenKind → Option StatementKind
  | keyword .«let» => some .«let»
  | keyword .«if» => some .«if»
  | keyword .«while» => some .«while»
  | keyword .«do» => some .«do»
  | keyword .«return» => some .«return»
  | _ => none

/-- The form of the subroutine that a token starts. -/
def subroutineKind? : TokenKind → Option SubroutineKind
  | keyword .constructor => some .constructor
  | keyword .function => some .function
  | keyword .method => some .method
  | _ => none

/-- The tokens that continue an expression are those that stand for an operator. -/
theorem isBinaryOperator_eq (k : TokenKind) : k.isBinaryOperator = k.binaryOperator?.isSome := by
  cases k with
  | symbol p => cases p <;> rfl
  | _ => rfl

/-- A token of this kind names a type. -/
def isType : TokenKind → Bool
  | keyword k => k.isPrimitiveType
  | identifier => true
  | _ => false

/-- A statement starts with a word, so there is a token to skip. -/
theorem ne_endOfFile_of_statementKind? {k : TokenKind} {kind : StatementKind}
    (word : k.statementKind? = some kind) : k ≠ .endOfFile := by
  rintro rfl
  cases word

/-- A subroutine starts with a word, so there is a token to skip. -/
theorem ne_endOfFile_of_subroutineKind? {k : TokenKind} {kind : SubroutineKind}
    (word : k.subroutineKind? = some kind) : k ≠ .endOfFile := by
  rintro rfl
  cases word

theorem ne_endOfFile_of_isType {k : TokenKind} (isType : k.isType = true) : k ≠ .endOfFile := by
  rintro rfl
  cases isType

end TokenKind

namespace SubroutineKind

/-- The name of a form in messages. -/
def name : SubroutineKind → String
  | constructor => "Constructor"
  | function => "Function"
  | method => "Method"

end SubroutineKind

end Jack
