import Jack.Text.Location

namespace Jack

/-!
# Gaps between tokens

A gap is a run of blanks, line comments and block comments.  Skipping a gap reads one character
after the other and remembers only what kind of text it stands in, so comments never nest and the
marker that closes a block comment cannot overlap the one that opens it.
-/

/-- What is left to read of a source, and the place at which it starts. -/
structure Cursor where
  here : Location
  rest : List Char
deriving DecidableEq

/-- The characters that separate tokens and mean nothing else: space, tab, line feed, carriage
return, no-break space and byte order mark. -/
def isBlank (c : Char) : Bool :=
  c = ' ' || c = '\t' || c = '\n' || c = '\r' || c = '\u00A0' || c = '\uFEFF'

/-- The characters that end a line comment. -/
def isLineEnd (c : Char) : Bool :=
  c = '\n' || c = '\r'

/-- The part of a gap in which the next character stands. -/
inductive GapPart
  | blank
  | lineComment
  | blockComment (opened : Location)
deriving DecidableEq

/-- Skip the rest of a gap.  The second component is the place at which a block comment was opened,
if the source ends inside of it; then nothing is left to read. -/
def skipGap : GapPart → Location → List Char → Cursor × Option Location
  | .blank, here, '/' :: '/' :: rest =>
    skipGap .lineComment ((here.advance '/').advance '/') rest
  | .blank, here, '/' :: '*' :: rest =>
    skipGap (.blockComment here) ((here.advance '/').advance '*') rest
  | .blank, here, c :: rest =>
    if isBlank c then skipGap .blank (here.advance c) rest else (⟨here, c :: rest⟩, none)
  | .blank, here, [] => (⟨here, []⟩, none)
  | .lineComment, here, c :: rest =>
    skipGap (if isLineEnd c then .blank else .lineComment) (here.advance c) rest
  | .lineComment, here, [] => (⟨here, []⟩, none)
  | .blockComment _, here, '*' :: '/' :: rest =>
    skipGap .blank ((here.advance '*').advance '/') rest
  | .blockComment opened, here, c :: rest =>
    skipGap (.blockComment opened) (here.advance c) rest
  | .blockComment opened, here, [] => (⟨here, []⟩, some opened)

/-- Skipping a gap never adds characters. -/
theorem length_skipGap_le (part : GapPart) (here : Location) (text : List Char) :
    (skipGap part here text).1.rest.length ≤ text.length := by
  fun_induction skipGap part here text <;> simp_all <;> omega

/-- The cursor behind the gap that starts at it. -/
def Cursor.skipGap (c : Cursor) : Cursor × Option Location :=
  Jack.skipGap .blank c.here c.rest

end Jack
