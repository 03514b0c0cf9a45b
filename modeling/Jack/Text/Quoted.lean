import Jack.Text.CharacterRanges

namespace Jack

/-!
# Characters in single quotes

A message that names a single character shows it between single quotes.  NUL, tab, line feed,
carriage return, the single quote and the backslash have an escape of their own; a character that
extends its neighbour or has no visible shape is written `\u{hex}`; every other character stands for
itself, the double quote included.
-/

/-- A character that is written by its code point. -/
def isWrittenByCode (c : Char) : Bool :=
  inRanges extendingRanges c.toNat || inRanges invisibleRanges c.toNat

/-- The escape by code point, in lower-case hexadecimal without leading zeros. -/
def codeEscape (c : Char) : List Char :=
  ['\\', 'u', '{'] ++ Nat.toDigits 16 c.toNat ++ ['}']

/-- One character as it stands between single quotes. -/
def escapedCharacter (c : Char) : List Char :=
  match c with
  | '\x00' => ['\\', '0']
  | '\t' => ['\\', 't']
  | '\n' => ['\\', 'n']
  | '\r' => ['\\', 'r']
  | '\'' => ['\\', '\'']
  | '\\' => ['\\', '\\']
  | c => if isWrittenByCode c then codeEscape c else [c]

/-- A character in single quotes. -/
def quotedCharacter (c : Char) : String :=
  String.ofList ('\'' :: (escapedCharacter c ++ ['\'']))

end Jack
