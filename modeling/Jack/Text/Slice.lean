import Jack.Text.Location

namespace Jack

/-!
# Pieces of a source by byte offsets
-/

/-- A text cut at a byte offset, or at its end if that comes first.  The first part is held in
reverse, its last character first; `before` and `size` are what has been passed already. -/
def cutFrom (before : List Char) (size offset : Nat) : List Char → List Char × List Char
  | [] => (before, [])
  | c :: rest =>
    if size < offset then cutFrom (c :: before) (size + c.utf8Size) offset rest
    else (before, c :: rest)

/-- A text cut at a byte offset, the first part in reverse. -/
def cut (text : List Char) (offset : Nat) : List Char × List Char :=
  cutFrom [] 0 offset text

/-- The piece of a text that starts at a byte offset and has a given size in bytes; both ends lie on
character boundaries. -/
def slice (text : List Char) (start size : Nat) : List Char :=
  (cut (cut text start).2 size).1.reverse

end Jack
