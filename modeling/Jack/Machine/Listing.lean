import Jack.Machine.Command

namespace Jack

/-!
# Listings

A listing is a sequence of commands in the order of their emission.  Its text has one line for
every command, each ended by a line feed.  A listing is also written piece by piece into a space
of limited size: bytes are kept as long as they fit, while a text is kept only in whole pieces.
-/

/-- Why a listing is not written as a whole. -/
inductive WriteError
  /-- The space for its bytes is full. -/
  | full
  /-- The space for its text is too small. -/
  | refused
deriving DecidableEq

namespace WriteError

/-- The error in words. -/
def message : WriteError → String
  | full => "failed to write whole buffer"
  | refused => "an error occurred when formatting an argument"

end WriteError

/-- Commands in the order of their emission. -/
abbrev Listing := Array Command

namespace Listing

/-- The whole text of a listing. -/
def text (listing : Listing) : String :=
  listing.foldl (fun written c => written ++ c.text ++ "\n") ""

/-- The pieces in which a listing is written: the text of each command, and its line feed. -/
def pieces (listing : Listing) : List String :=
  listing.toList.flatMap fun c => [c.text, "\n"]

/-- The pieces of a listing make up its text. -/
theorem foldl_pieces (listing : Listing) : listing.pieces.foldl (· ++ ·) "" = listing.text := by
  rw [pieces, List.foldl_flatMap, text, ← Array.foldl_toList]
  rfl

/-- Write pieces behind the bytes `written` into a space of `capacity` bytes.  The piece that does
not fit is cut where the space ends, and nothing is written behind it. -/
def fillBytes (capacity : Nat) (written : ByteArray) :
    List String → ByteArray × Except WriteError Unit
  | [] => (written, .ok ())
  | piece :: rest =>
    let bytes := piece.toUTF8
    if written.size + bytes.size ≤ capacity then fillBytes capacity (written ++ bytes) rest
    else (written ++ bytes.extract 0 (capacity - written.size), .error .full)

/-- Write a listing into a space of `capacity` bytes. -/
def writeBytes (listing : Listing) (capacity : Nat) :
    ByteArray × Except WriteError Unit :=
  fillBytes capacity ByteArray.empty listing.pieces

/-- Append pieces to the text `written` as long as no more than `capacity` bytes come together. -/
def fillText (capacity : Nat) (written : String) : List String → Except WriteError String
  | [] => .ok written
  | piece :: rest =>
    if written.utf8ByteSize + piece.utf8ByteSize ≤ capacity then
      fillText capacity (written ++ piece) rest
    else .error .refused

/-- The text of a listing, if it has at most `capacity` bytes. -/
def formatText (listing : Listing) (capacity : Nat) : Except WriteError String :=
  fillText capacity "" listing.pieces

end Listing

end Jack
