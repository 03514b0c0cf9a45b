import Jack.Token.Keyword

namespace Jack

/-!
# Kinds of tokens

What the grammar distinguishes: nineteen one-character symbols, the reserved words, identifiers, two
forms of constants, and the end of the source.
-/

/-- A one-character symbol. -/
inductive Punctuation
  | leftBrace | rightBrace | leftParen | rightParen | leftBracket | rightBracket
  | dot | comma | semicolon
  | plus | minus | star | slash | ampersand | pipe | less | greater | equal | tilde
deriving DecidableEq

namespace Punctuation

/-- The character of a symbol. -/
def char : Punctuation → Char
  | leftBrace => '{'
  | rightBrace => '}'
  | leftParen => '('
  | rightParen => ')'
  | leftBracket => '['
  | rightBracket => ']'
  | dot => '.'
  | comma => ','
  | semicolon => ';'
  | plus => '+'
  | minus => '-'
  | star => '*'
  | slash => '/'
  | ampersand => '&'
  | pipe => '|'
  | less => '<'
  | greater => '>'
  | equal => '='
  | tilde => '~'

/-- Every symbol, once. -/
def all : List Punctuation :=
  [leftBrace, rightBrace, leftParen, rightParen, leftBracket, rightBracket, dot, comma, semicolon,
    plus, minus, star, slash, ampersand, pipe, less, greater, equal, tilde]

/-- The symbol with a given character. -/
def ofChar? : Char → Option Punctuation
  | '{' => some leftBrace
  | '}' => some rightBrace
  | '(' => some leftParen
  | ')' => some rightParen
  | '[' => some leftBracket
  | ']' => some rightBracket
  | '.' => some dot
  | ',' => some comma
  | ';' => some semicolon
  | '+' => some plus
  | '-' => some minus
  | '*' => some star
  | '/' => some slash
  | '&' => some ampersand
  | '|' => some pipe
  | '<' => some less
  | '>' => some greater
  | '=' => some equal
  | '~' => some tilde
  | _ => none

theorem ofChar?_char (p : Punctuation) : ofChar? p.char = some p := by
  cases p <;> rfl

/-- No two symbols share a character. -/
theorem char_of_ofChar? {c : Char} {p : Punctuation} (found : ofChar? c = some p) :
    p.char = c := by
  unfold ofChar? at found
  split at found <;> simp_all [char] <;> (subst found; rfl)

end Punctuation

/-- What the grammar sees of a token. -/
inductive TokenKind
  | symbol (p : Punctuation)
  | keyword (k : Keyword)
  | identifier
  /-- A decimal constant from 0 to 32767. -/
  | integer
  /-- A constant in double quotes. -/
  | string
  | endOfFile
deriving DecidableEq

namespace TokenKind

/-- The name of a kind in messages. -/
def name : TokenKind → String
  | symbol p => "symbol '" ++ String.singleton p.char ++ "'"
  | keyword k => "keyword '" ++ k.text ++ "'"
  | identifier => "identifier"
  | integer => "integer constant"
  | string => "string constant"
  | endOfFile => "end-of-file"

/-- The symbol, for a token that is one. -/
def symbol? : TokenKind → Option Punctuation
  | symbol p => some p
  | _ => none

/-- Every kind, once. -/
def all : List TokenKind :=
  Punctuation.all.map symbol ++ Keyword.all.map keyword ++
    [identifier, integer, string, endOfFile]

/-- The kind with a given name. -/
def ofName? (name : String) : Option TokenKind :=
  all.find? (·.name == name)

end TokenKind

end Jack
