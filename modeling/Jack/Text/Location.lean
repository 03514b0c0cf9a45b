namespace Jack

/-!
# Positions in a source text

A source text is a list of characters.  Offsets and sizes count the bytes of its UTF-8 form, lines
end at a line feed and at nothing else, and columns count characters.  A position is advanced
character by character, so the three numbers of a position always describe the same place.

None of these numbers has a bound.  Where offsets are kept in words of thirty-two bits, they are the
same for sources of fewer than `2 ^ 32` bytes, and nothing is claimed for longer ones; this bound is
`IsAddressable`, of the theory of spans.
-/

/-- Number of bytes that a run of characters takes in UTF-8. -/
def byteSize (run : List Char) : Nat :=
  (String.ofList run).utf8ByteSize

@[simp] theorem byteSize_nil : byteSize [] = 0 := rfl

/-- Sizes in bytes add up.  The sum is not cut to a word. -/
theorem byteSize_append (first second : List Char) :
    byteSize (first ++ second) = byteSize first + byteSize second := by
  simp [byteSize, String.ofList_append, String.utf8ByteSize_append]

@[simp] theorem byteSize_singleton (c : Char) : byteSize [c] = c.utf8Size := by
  simp [byteSize]

theorem byteSize_cons (c : Char) (rest : List Char) :
    byteSize (c :: rest) = c.utf8Size + byteSize rest := by
  rw [← List.singleton_append, byteSize_append, byteSize_singleton]

/-- A place in a source text: how many bytes lie before it, and its line and column, both counted
from one.  The numbers are not cut to words, whatever the size of the source. -/
structure Location where
  offset : Nat
  line : Nat
  column : Nat
deriving DecidableEq

namespace Location

/-- The place of the first character. -/
def start : Location := ⟨0, 1, 1⟩

/-- The place behind one more character. -/
def advance (here : Location) (c : Char) : Location :=
  if c = '\n' then ⟨here.offset + c.utf8Size, here.line + 1, 1⟩
  else ⟨here.offset + c.utf8Size, here.line, here.column + 1⟩

/-- The place behind a run of characters. -/
def after (here : Location) (run : List Char) : Location :=
  run.foldl advance here

@[simp] theorem after_nil (here : Location) : here.after [] = here := rfl

@[simp] theorem after_cons (here : Location) (c : Char) (run : List Char) :
    here.after (c :: run) = (here.advance c).after run := rfl

/-- The location behind two runs is the one behind the second, counted from behind the first. -/
theorem after_append (here : Location) (first second : List Char) :
    here.after (first ++ second) = (here.after first).after second :=
  List.foldl_append

/-- A character moves the offset by its bytes, whether or not it ends a line. -/
theorem offset_advance (here : Location) (c : Char) :
    (here.advance c).offset = here.offset + c.utf8Size := by
  unfold advance
  split <;> rfl

/-- Walking over a run moves the offset by the size of the run. -/
theorem offset_after (here : Location) (run : List Char) :
    (here.after run).offset = here.offset + byteSize run := by
  induction run generalizing here with
  | nil => simp
  | cons c run ih => rw [after_cons, ih, offset_advance, byteSize_cons, Nat.add_assoc]

/-- The place reached from `here` by walking over `text` up to a byte offset, or up to the end of
the text if that comes first. -/
def walk (here : Location) (offset : Nat) : List Char → Location
  | [] => here
  | c :: rest => if here.offset < offset then (here.advance c).walk offset rest else here

/-- The place at a byte offset that lies on a character boundary; an offset past the end of the
source gives the place of its end. -/
def ofOffset (source : List Char) (offset : Nat) : Location :=
  start.walk offset source

/-- A place as messages name it. -/
def text (l : Location) : String :=
  s!"at offset {l.offset} (line {l.line}, column {l.column})"

end Location

end Jack
