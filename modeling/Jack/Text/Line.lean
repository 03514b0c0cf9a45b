import Jack.Text.Slice

namespace Jack

/-!
# The source line around a place

Diagnostics quote the line in which they arise and mark the column below it.  The line is the text
between the neighbouring line feeds, or the ends of the source, without the carriage returns at its
end.
-/

/-- A line of the source: the byte offset at which it starts, and its characters. -/
structure Line where
  start : Nat
  text : List Char
deriving DecidableEq

namespace Line

/-- Number of bytes of the line. -/
def size (line : Line) : Nat := byteSize line.text

/-- A run of characters without the carriage returns at its end. -/
def trimReturns (run : List Char) : List Char :=
  (run.reverse.dropWhile (· = '\r')).reverse

/-- The line that contains a byte offset.  An offset on a line feed belongs to the line that this
line feed ends, and an offset past the end to the last line. -/
def around (source : List Char) (offset : Nat) : Line :=
  let (before, behind) := cut source offset
  let head := before.takeWhile (· ≠ '\n')
  { start := byteSize (before.dropWhile (· ≠ '\n'))
    text := trimReturns (head.reverse ++ behind.takeWhile (· ≠ '\n')) }

end Line

/-- The line around a place, and below it a caret under the column of that place. -/
def markedLine (source : List Char) (place : Location) : String :=
  String.ofList
    ((Line.around source place.offset).text ++
      '\n' :: (List.replicate (place.column - 1) ' ' ++ ['^']))

end Jack
