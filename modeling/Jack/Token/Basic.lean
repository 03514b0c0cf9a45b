import Jack.Text.Location
import Jack.Token.Kind

namespace Jack

/-!
# Tokens

A token is a piece of the source with its kind and the place where it starts.  Keeping the text with
the token frees everything behind the lexer from the source, except for quoting a line in a message.

The same text can be cut out of the source by the span of the token, if the offsets of the source
are words of thirty-two bits (`Token.SpanTells`).  In a longer source the two may differ.
-/

/-- A token of the source, with its own text.  It does not refer to the source by a span. -/
structure Token where
  kind : TokenKind
  text : String
  start : Location
deriving DecidableEq

namespace Token

/-- Number of bytes of the token. -/
def size (t : Token) : Nat := t.text.utf8ByteSize

/-- The byte offset behind the token. -/
def stop (t : Token) : Nat := t.start.offset + t.size

/-- The characters that the compiler takes of a string constant.  A text that does not stand between
two quotes is taken whole; what should be taken is said apart from this, by
`charactersBetweenQuotes`. -/
def unquoted : List Char → List Char
  | '"' :: rest => if rest.getLast? = some '"' then rest.dropLast else '"' :: rest
  | whole => whole

/-- The characters of a string constant, without its quotes. -/
def content (t : Token) : List Char := unquoted t.text.toList

/-- The value of a run of decimal digits. -/
def decimal (digits : List Char) : Nat :=
  digits.foldl (fun value d => value * 10 + (d.toNat - '0'.toNat)) 0

/-- The value of an integer constant. -/
def value (t : Token) : Nat := decimal t.text.toList

/-- A text without the plus sign in front of it, if there is one. -/
def unsigned : List Char → List Char
  | '+' :: digits => digits
  | text => text

/-- The word of sixteen bits that a text spells: decimal digits, maybe behind a plus sign. -/
def word? (text : List Char) : Option UInt16 :=
  let digits := unsigned text
  if digits ≠ [] ∧ digits.all Char.isDigit = true ∧ decimal digits < UInt16.size then
    some (UInt16.ofNat (decimal digits))
  else none

/-- A plus sign in front does not change the value of the digits. -/
theorem decimal_unsigned (text : List Char) : decimal (unsigned text) = decimal text := by
  unfold unsigned
  split <;> rfl

/-- The word that a text spells is its value. -/
theorem eq_of_word? {text : List Char} {value : UInt16} (spells : word? text = some value) :
    value = UInt16.ofNat (decimal text) := by
  unfold word? at spells
  dsimp only at spells
  split at spells
  · rw [← Option.some.inj spells, decimal_unsigned]
  · cases spells

/-- Digits spell a word if their value is small enough. -/
theorem word?_digits {first : Char} {rest : List Char}
    (digits : (first :: rest).all Char.isDigit = true)
    (small : decimal (first :: rest) < UInt16.size) :
    word? (first :: rest) = some (UInt16.ofNat (decimal (first :: rest))) := by
  have noSign : unsigned (first :: rest) = first :: rest := by
    unfold unsigned
    split
    · rename_i digitsBehind same
      rw [same] at digits
      cases digits
    · rfl
  unfold word?
  dsimp only
  rw [noSign, if_pos ⟨List.cons_ne_nil _ _, digits, small⟩]

end Token

end Jack
