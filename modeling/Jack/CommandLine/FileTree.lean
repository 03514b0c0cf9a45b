import Jack.CommandLine.Files

namespace Jack

/-!
# Trees of files

A tree of files in memory, with the rules by which a path is followed.  Directories exist as far
as files lie in them; a working directory and the directories above it exist always.  Every name
of a path but the last has to be a directory, `.` and `..` are directories, and a slash at the end
asks for one.
-/

/-- A place in a tree: the names that lead to it from the directory so many levels above the working
directory, or from the root. -/
structure FilePlace where
  /-- Levels above the working directory; nothing for the root. -/
  above : Option Nat
  names : List String
deriving DecidableEq

/-- Files at their places. -/
structure FileTree where
  files : List (FilePlace × ByteArray)

namespace FilePlace

/-- The working directory. -/
def working : FilePlace := ⟨some 0, []⟩

/-- The root. -/
def root : FilePlace := ⟨none, []⟩

/-- The directory above a place. -/
def parent (p : FilePlace) : FilePlace :=
  if p.names = [] then { p with above := p.above.map (· + 1) }
  else { p with names := p.names.dropLast }

/-- The place of a name in a directory. -/
def child (p : FilePlace) (name : String) : FilePlace := { p with names := p.names ++ [name] }

/-- A place lies below a directory. -/
def isBelow (p directory : FilePlace) : Bool :=
  p.above = directory.above && directory.names ≠ p.names && directory.names.isPrefixOf p.names

end FilePlace

namespace FileTree

/-- The bytes of the file at a place. -/
def file? (t : FileTree) (p : FilePlace) : Option ByteArray :=
  (t.files.find? (·.1 = p)).map (·.2)

/-- A place is a directory. -/
def isDirectory (t : FileTree) (p : FilePlace) : Bool :=
  p.names.isEmpty || t.files.any (·.1.isBelow p)

/-- Give the file at a place its bytes. -/
def insert (t : FileTree) (p : FilePlace) (bytes : ByteArray) : FileTree :=
  if t.files.any (·.1 = p) then
    ⟨t.files.map fun f => if f.1 = p then (p, bytes) else f⟩
  else ⟨t.files ++ [(p, bytes)]⟩

/-- Where a path leads: to a directory by way of dots or the root alone, or to a name in a
directory. -/
inductive Target
  | directory (p : FilePlace)
  /-- The flag `slash` tells that the path asks for a directory. -/
  | entry (p : FilePlace) (slash : Bool)

/-- Follow one name of a path that has to lead to a directory. -/
def enter (t : FileTree) (here : FilePlace) (name : String) : Except FileFault FilePlace :=
  if name = "." then .ok here
  else if name = ".." then .ok here.parent
  else
    let p := here.child name
    if t.isDirectory p then .ok p
    else if (t.file? p).isSome then .error .notDirectory
    else .error .notFound

/-- Follow names that have to lead to directories, and then a last one. -/
def follow (t : FileTree) (slash : Bool) (here : FilePlace) : List String → Except FileFault Target
  | [] => .ok (.directory here)
  | [name] =>
    if name = "." then .ok (.directory here)
    else if name = ".." then .ok (.directory here.parent)
    else .ok (.entry (here.child name) slash)
  | name :: following :: rest =>
    match t.enter here name with
    | .ok p => t.follow slash p (following :: rest)
    | .error f => .error f

/-- The names of a path. -/
def namesOf (path : List Char) : List String :=
  ((path.splitOn '/').filter (· ≠ [])).map String.ofList

/-- Follow a path from the working directory, or from the root. -/
def locate (t : FileTree) (path : String) : Except FileFault Target :=
  let characters := path.toList
  if characters = [] then .error .notFound
  else
    let start := if characters.head? = some '/' then FilePlace.root else FilePlace.working
    t.follow (characters.getLast? = some '/') start (namesOf characters)

/-- Read the file at a path. -/
def read (t : FileTree) (path : String) : Except FileFault ByteArray :=
  match t.locate path with
  | .error f => .error f
  | .ok (.directory _) => .error .isDirectory
  | .ok (.entry p slash) =>
    if t.isDirectory p then .error .isDirectory
    else
      match t.file? p with
      | none => .error .notFound
      | some bytes => if slash then .error .notDirectory else .ok bytes

/-- The place of the file at a path, and the tree in which that file has been created or emptied. -/
def create (t : FileTree) (path : String) : Except FileFault (FilePlace × FileTree) :=
  match t.locate path with
  | .error f => .error f
  | .ok (.directory _) => .error .isDirectory
  | .ok (.entry p slash) =>
    if slash || t.isDirectory p then .error .isDirectory else .ok (p, t.insert p .empty)

/-- The tree in which bytes have been written behind those of the file at a place. -/
def append (t : FileTree) (p : FilePlace) (bytes : ByteArray) : FileTree :=
  t.insert p ((t.file? p).getD .empty ++ bytes)

/-- The files of a tree, for a program that changes them.  A file that is open can be written. -/
def access : FileAccess (StateM FileTree) where
  Handle := FilePlace
  read path := fun t => (t.read path, t)
  create path := fun t =>
    match t.create path with
    | .ok (p, changed) => (.ok p, changed)
    | .error f => (.error f, t)
  append p bytes := fun t => (.ok (), t.append p bytes)
  flush _ := fun t => (.ok (), t)

end FileTree

end Jack
