namespace Jack

/-!
# Paths

A path is a sequence of names separated by slashes.  The extension of a name is what stands behind
its last dot, unless that dot is its first character.
-/

namespace Path

/-- A path that is read from its end, without the slashes and the single dots that stand behind its
last name. -/
def dropUnnamed : List Char → List Char
  | '/' :: rest => dropUnnamed rest
  | '.' :: '/' :: rest => dropUnnamed rest
  | ['.'] => []
  | reversed => reversed

/-- A name without its last dot and what stands behind it, if it has an extension. -/
def stem? (name : List Char) : Option (List Char) :=
  match name.reverse.dropWhile (· ≠ '.') with
  | '.' :: c :: rest => some (c :: rest).reverse
  | _ => none

/-- Replace the extension of a name, or add one. -/
def replaceInName (name extension : List Char) : List Char :=
  (stem? name).getD name ++ '.' :: extension

/-- Replace the extension of the last name of a path, or add one.  Nothing is replaced in a path
without a name at its end, such as one to the parent directory.

The old extension is taken off before the new one is put on.  If only a dot is left in front of the
last dot, and nothing stands behind the name, then these two dots lead to the parent directory in
between, and no extension is put on. -/
def replaceExtension (path extension : String) : String :=
  let reversed := path.toList.reverse
  let named := dropUnnamed reversed
  let name := (named.takeWhile (· ≠ '/')).reverse
  let directory := (named.dropWhile (· ≠ '/')).reverse
  if name = [] ∨ name = ['.', '.'] then path
  else if stem? name = some ['.'] ∧ named = reversed then String.ofList (directory ++ ['.', '.'])
  else String.ofList (directory ++ replaceInName name extension.toList)

end Path

end Jack
