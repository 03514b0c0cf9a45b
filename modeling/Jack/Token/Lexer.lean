import Jack.Token.Diagnostic
import Jack.Token.Gap

namespace Jack

/-!
# Splitting a source into tokens

The lexer reads one token at a time from a cursor: it skips a gap and takes the longest token that
starts behind it.  A fault leaves the cursor at a definite character, from which reading can go on:
at the unknown character itself, at the last character of a number that is too large, at the last
character before the line or source end that breaks a string, and at the end of the source behind an
unclosed comment.  `Lexer.items` reads up to the first end of file or fault.
-/

/-- Largest integer constant of the language; words have sixteen bits and a sign. -/
def maxInt : Nat := 32767

/-- The characters that may start an identifier. -/
def isLetter (c : Char) : Bool :=
  c.isAlpha || c = '_'

/-- The characters that may continue an identifier. -/
def isWordCharacter (c : Char) : Bool :=
  isLetter c || c.isDigit

/-- The characters that a string constant may hold. -/
def isStringCharacter (c : Char) : Bool :=
  c ≠ '"' && c ≠ '\n' && c ≠ '\r'

/-- A word is a reserved word or an identifier. -/
def wordKind (text : String) : TokenKind :=
  match Keyword.ofText? text with
  | some k => .keyword k
  | none => .identifier

/-- A fault and the place of the token or comment that has it. -/
abbrev Fault := LexicalFault × Location

namespace Cursor

/-- The cursor in front of a whole source. -/
def ofSource (source : List Char) : Cursor := ⟨.start, source⟩

/-- Take a run of characters from the cursor as a token. -/
def takeToken (c : Cursor) (kind : TokenKind) (run rest : List Char) :
    Except Fault Token × Cursor :=
  (.ok ⟨kind, String.ofList run, c.here⟩, ⟨c.here.after run, rest⟩)

/-- Report a fault of a run of characters and stop at the last of them. -/
def stopAtLast (c : Cursor) (fault : LexicalFault) (run rest : List Char) :
    Except Fault Token × Cursor :=
  (.error (fault, c.here), ⟨c.here.after run.dropLast, run.drop (run.length - 1) ++ rest⟩)

/-- Read an integer constant that starts with the digit `first`. -/
def readNumber (c : Cursor) (first : Char) (rest : List Char) : Except Fault Token × Cursor :=
  let run := first :: rest.takeWhile Char.isDigit
  let behind := rest.dropWhile Char.isDigit
  if Token.decimal run ≤ maxInt then c.takeToken .integer run behind
  else c.stopAtLast .integerOverflow run behind

/-- Read a string constant whose opening quote stands in front of `rest`.  The end of the source is
always noticed, since offsets are not cut to words; a lexer by spans notices it if the source has
fewer than `2 ^ 32` bytes (`Lexer.spannedResult?_openString`). -/
def readString (c : Cursor) (rest : List Char) : Except Fault Token × Cursor :=
  let run := '"' :: rest.takeWhile isStringCharacter
  match rest.dropWhile isStringCharacter with
  | '"' :: behind => c.takeToken .string (run ++ ['"']) behind
  | [] => c.stopAtLast .unterminatedString run []
  | behind => c.stopAtLast .newlineInString run behind

/-- Read the token that starts at the cursor. -/
def readToken (c : Cursor) : Except Fault Token × Cursor :=
  match c.rest with
  | [] => c.takeToken .endOfFile [] []
  | first :: rest =>
    if first = '"' then c.readString rest
    else if isLetter first then
      let run := first :: rest.takeWhile isWordCharacter
      c.takeToken (wordKind (String.ofList run)) run (rest.dropWhile isWordCharacter)
    else if first.isDigit then c.readNumber first rest
    else
      match Punctuation.ofChar? first with
      | some p => c.takeToken (.symbol p) [first] rest
      | none => (.error (.unknownCharacter first, c.here), c)

/-- Read the next token behind the gap at the cursor. -/
def next (c : Cursor) : Except Fault Token × Cursor :=
  match c.skipGap with
  | (behind, none) => behind.readToken
  | (behind, some opened) => (.error (.unterminatedComment, opened), behind)

/-- Every token but the end of file takes at least one character. -/
theorem length_readToken_lt {c d : Cursor} {t : Token} (read : c.readToken = (.ok t, d))
    (more : t.kind ≠ .endOfFile) : d.rest.length < c.rest.length := by
  have drops (p : Char → Bool) (text : List Char) : (text.dropWhile p).length ≤ text.length :=
    (List.dropWhile_suffix p).length_le
  unfold readToken at read
  split at read
  · simp only [takeToken, Prod.mk.injEq, Except.ok.injEq] at read
    exact absurd (by rw [← read.1]) more
  · rename_i first rest text
    rw [text]
    have words := drops isWordCharacter rest
    have digits := drops Char.isDigit rest
    have strings := drops isStringCharacter rest
    split at read
    · simp only [readString] at read
      split at read
      · rename_i behind closed
        rw [closed] at strings
        simp only [takeToken, Prod.mk.injEq] at read
        rw [← read.2]
        simp only [List.length_cons] at strings ⊢
        omega
      · simp [stopAtLast] at read
      · simp [stopAtLast] at read
    · split at read
      · simp only [takeToken, Prod.mk.injEq] at read
        rw [← read.2]
        simp only [List.length_cons]
        omega
      · split at read
        · simp only [readNumber] at read
          split at read
          · simp only [takeToken, Prod.mk.injEq] at read
            rw [← read.2]
            simp only [List.length_cons]
            omega
          · simp [stopAtLast] at read
        · split at read
          · simp only [takeToken, Prod.mk.injEq] at read
            rw [← read.2]
            simp
          · simp at read

/-- A token that is not the end of file is not empty.  For faults nothing is claimed; a fault may
read nothing at all. -/
theorem length_next_lt {c d : Cursor} {t : Token} (read : c.next = (.ok t, d))
    (more : t.kind ≠ .endOfFile) : d.rest.length < c.rest.length := by
  have gap := length_skipGap_le .blank c.here c.rest
  unfold next Cursor.skipGap at read
  split at read
  · rename_i behind skipped
    rw [skipped] at gap
    exact Nat.lt_of_lt_of_le (length_readToken_lt read more) gap
  · simp at read

end Cursor

/-- What the lexer hands on: a token, or the diagnostic of a fault. -/
abbrev Item := Except LexError Token

/-- A fault as a diagnostic of the source. -/
def Item.locate (source : List Char) : Except Fault Token → Item
  | .ok t => .ok t
  | .error (fault, place) => .error (.locate source fault place)

/-- A source that is being split into tokens. -/
structure Lexer where
  source : List Char
  cursor : Cursor

namespace Lexer

/-- The lexer in front of a source. -/
def ofSource (source : List Char) : Lexer := ⟨source, .ofSource source⟩

/-- The next token or diagnostic.  Reading may go on after both, and after the end of file. -/
def next (l : Lexer) : Item × Lexer :=
  (Item.locate l.source l.cursor.next.1, ⟨l.source, l.cursor.next.2⟩)

/-- The same of the lexer, which goes through the source until its first fault. -/
theorem length_next_lt {l l' : Lexer} {t : Token} (read : l.next = (.ok t, l'))
    (more : t.kind ≠ .endOfFile) : l'.cursor.rest.length < l.cursor.rest.length := by
  simp only [next, Prod.mk.injEq] at read
  cases found : l.cursor.next with
  | mk result behind =>
    rw [found] at read
    cases result with
    | ok u =>
      simp only [Item.locate, Except.ok.injEq] at read
      rw [← read.2]
      exact Cursor.length_next_lt found (read.1 ▸ more)
    | error e => simp [Item.locate] at read

/-- The items from the lexer on up to the first end of file or diagnostic, behind the items `done`,
which are held in reverse. -/
def itemsBehind (done : List Item) (l : Lexer) : List Item :=
  match _read : l.next with
  | (.ok t, l') =>
    if _more : t.kind = .endOfFile then (.ok t :: done).reverse
    else itemsBehind (.ok t :: done) l'
  | (.error e, _) => (.error e :: done).reverse
termination_by l.cursor.rest.length
decreasing_by exact length_next_lt _read _more

/-- The items of a source: its tokens, and then the end of file or the first diagnostic. -/
def items (l : Lexer) : List Item := itemsBehind [] l

end Lexer

end Jack
