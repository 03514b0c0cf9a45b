import Jack.Token.Lexer

namespace Jack

/-!
# Token streams

A stream stands at one item of a source and reads the items behind it on demand.  It never runs out:
the end of file stays current once it is reached, and it takes the place of a diagnostic that has
been passed.  Looking one item further reads ahead without moving.
-/

/-- Why a stream cannot hand on the token that is asked of it. -/
inductive TokenError
  | lexical (e : LexError)
  | syntactic (e : SyntaxError)
deriving DecidableEq

namespace TokenError

/-- The whole text of the diagnostic. -/
def message : TokenError → String
  | lexical e => e.message
  | syntactic e => e.message

end TokenError

/-- A stream of the tokens of a source. -/
structure TokenStream where
  source : List Char
  /-- How many items the stream has passed. -/
  position : Nat
  /-- The item at which the stream stands. -/
  current : Item
  /-- Where the item behind the current one is read. -/
  ahead : Cursor

namespace TokenStream

/-- The token that stands for everything behind the end of a source.  Its place has the size of the
source for an offset, without a bound; the offset in its span is cut to a word
(`TokenStream.span_endToken`). -/
def endToken (source : List Char) : Token :=
  ⟨.endOfFile, "", Location.start.after source⟩

/-- The item that a cursor of the source yields. -/
def itemAt (source : List Char) (c : Cursor) : Item :=
  Item.locate source c.next.1

/-- The stream of a source, at its first item. -/
def ofSource (source : List Char) : TokenStream :=
  let first := (Cursor.ofSource source).next
  ⟨source, 0, Item.locate source first.1, first.2⟩

/-- The current item. -/
def peek (s : TokenStream) : Item := s.current

/-- The item behind the current one.  Behind the end of file comes the end of file, and a diagnostic
hides what comes behind it. -/
def peekNext (s : TokenStream) : Item :=
  match s.current with
  | .ok t => if t.kind = .endOfFile then .ok t else itemAt s.source s.ahead
  | .error e => .error e

/-- The stream behind the current item. -/
def advance (s : TokenStream) : TokenStream :=
  match s.current with
  | .ok t =>
    if t.kind = .endOfFile then { s with position := s.position + 1 }
    else
      let following := s.ahead.next
      ⟨s.source, s.position + 1, Item.locate s.source following.1, following.2⟩
  | .error _ => { s with position := s.position + 1, current := .ok (endToken s.source) }

/-- The current item, and the stream behind it. -/
def next (s : TokenStream) : Item × TokenStream := (s.current, s.advance)

/-- The syntax error that a token of the stream is not what the grammar expects. -/
def unexpected (s : TokenStream) (expected : String) (t : Token) : TokenError :=
  .syntactic (.locate s.source expected t)

/-- Pass the current token if it has a given kind, and tell whether it had. -/
def accept (s : TokenStream) (kind : TokenKind) : Except LexError (Bool × TokenStream) :=
  match s.current with
  | .ok t => .ok (if t.kind = kind then (true, s.advance) else (false, s))
  | .error e => .error e

/-- Pass the current token, which must have one of the kinds; `expected` names them. -/
def consumeIf (s : TokenStream) (kinds : List TokenKind) (expected : String) :
    Except TokenError (Token × TokenStream) :=
  match s.current with
  | .ok t => if t.kind ∈ kinds then .ok (t, s.advance) else .error (s.unexpected expected t)
  | .error e => .error (.lexical e)

/-- Pass the current token, which must have the given kind. -/
def consume (s : TokenStream) (kind : TokenKind) : Except TokenError (Token × TokenStream) :=
  s.consumeIf [kind] kind.name

/-- Pass the current token, which must have one of the given kinds. -/
def consumeAny (s : TokenStream) (kinds : List TokenKind) :
    Except TokenError (Token × TokenStream) :=
  s.consumeIf kinds ("one of " ++ ", ".intercalate (kinds.map TokenKind.name))

/-- Upper bound for the number of tokens that the stream still holds: the current one, and one for
every character behind it. -/
def remaining (s : TokenStream) : Nat :=
  match s.current with
  | .ok t => if t.kind = .endOfFile then 0 else s.ahead.rest.length + 1
  | .error _ => 0

/-- Passing a token other than the end of file leaves fewer tokens. -/
theorem remaining_advance_lt {s : TokenStream} {t : Token} (current : s.current = .ok t)
    (more : t.kind ≠ .endOfFile) : s.advance.remaining < s.remaining := by
  have before : s.remaining = s.ahead.rest.length + 1 := by
    simp [remaining, current, more]
  rw [before]
  simp only [advance, current, more, if_false]
  cases read : s.ahead.next with
  | mk result behind =>
    cases result with
    | error e => simp [remaining, Item.locate]
    | ok u =>
      by_cases last : u.kind = .endOfFile
      · simp [remaining, Item.locate, last]
      · have shorter := Cursor.length_next_lt read last
        simp only [remaining, Item.locate, last, if_false]
        omega

end TokenStream

end Jack
