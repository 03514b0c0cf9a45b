namespace Jack

/-!
# Access to files

The program reads one file, and creates another that it fills piece by piece.  It is written over
any monad that offers these operations, so that it runs on the files of the machine as well as on a
tree of files in memory.
-/

/-- Why the system refuses an operation on a file. -/
structure FileFault where
  description : String
  /-- The number that the system gives to the fault. -/
  code : Nat
deriving DecidableEq

namespace FileFault

/-- There is no file or directory of that name. -/
def notFound : FileFault := ⟨"No such file or directory", 2⟩

/-- Something that is no directory stands where one is needed. -/
def notDirectory : FileFault := ⟨"Not a directory", 20⟩

/-- A directory stands where a file is needed. -/
def isDirectory : FileFault := ⟨"Is a directory", 21⟩

/-- The text of a fault. -/
def message (f : FileFault) : String := s!"{f.description} (os error {f.code})"

end FileFault

/-- The operations on files that the program needs. -/
structure FileAccess (m : Type → Type) where
  /-- A file that is open for writing. -/
  Handle : Type
  /-- The bytes of the file at a path. -/
  read : String → m (Except FileFault ByteArray)
  /-- Create the file at a path, or empty it, and open it. -/
  create : String → m (Except FileFault Handle)
  /-- Write bytes behind those that have been written. -/
  append : Handle → ByteArray → m (Except FileFault Unit)
  /-- Hand everything that has been written over to the system. -/
  flush : Handle → m (Except FileFault Unit)

namespace FileAccess

variable {m : Type → Type} [Monad m]

/-- Write texts one behind the other and hand them over, up to the first refusal. -/
def appendAll (files : FileAccess m) (handle : files.Handle) :
    List String → m (Except FileFault Unit)
  | [] => files.flush handle
  | text :: rest => do
    match ← files.append handle text.toUTF8 with
    | .error f => return .error f
    | .ok () => files.appendAll handle rest

end FileAccess

end Jack
