import Jack.Text.Line
import Jack.Text.Quoted
import Jack.Token.Basic

namespace Jack

/-!
# Lexical and syntactic diagnostics

Both kinds of diagnostic name the place of their cause and quote the line around it.  The quoted
line is fixed when the diagnostic is made, so a diagnostic can be shown without the source.
-/

/-- Why the source cannot be split into tokens. -/
inductive LexicalFault
  /-- A character that begins no token. -/
  | unknownCharacter (c : Char)
  /-- The source ends inside a string constant. -/
  | unterminatedString
  /-- A line ends inside a string constant. -/
  | newlineInString
  /-- The source ends inside a block comment. -/
  | unterminatedComment
  /-- An integer constant above 32767. -/
  | integerOverflow
deriving DecidableEq

namespace LexicalFault

/-- The fault in words. -/
def message : LexicalFault → String
  | unknownCharacter c => "unknown character " ++ quotedCharacter c
  | unterminatedString => "unterminated string constant"
  | newlineInString => "newline in string constant"
  | unterminatedComment => "unterminated block comment"
  | integerOverflow => "integer constant too large"

end LexicalFault

/-- A lexical fault at a place of a source. -/
structure LexError where
  fault : LexicalFault
  place : Location
  context : String
deriving DecidableEq

namespace LexError

/-- The diagnostic for a fault at a place of the source. -/
def locate (source : List Char) (fault : LexicalFault) (place : Location) : LexError :=
  ⟨fault, place, markedLine source place⟩

/-- The whole text of the diagnostic. -/
def message (e : LexError) : String :=
  e.fault.message ++ " " ++ e.place.text ++ "\n" ++ e.context

end LexError

/-- A token where the grammar expects something else. -/
structure SyntaxError where
  /-- The grammar element that was expected, in words. -/
  expected : String
  token : Token
  context : String
deriving DecidableEq

namespace SyntaxError

/-- The diagnostic for a token of the source. -/
def locate (source : List Char) (expected : String) (token : Token) : SyntaxError :=
  ⟨expected, token, markedLine source token.start⟩

/-- The token in words.  Its text is added unless the kind already shows it. -/
def found (e : SyntaxError) : String :=
  if e.token.text.isEmpty || e.token.kind.symbol?.isSome then e.token.kind.name
  else e.token.kind.name ++ " \"" ++ e.token.text ++ "\""

/-- The whole text of the diagnostic. -/
def message (e : SyntaxError) : String :=
  "expected " ++ e.expected ++ ", found " ++ e.found ++ " " ++ e.token.start.text ++ "\n" ++
    e.context

end SyntaxError

end Jack
