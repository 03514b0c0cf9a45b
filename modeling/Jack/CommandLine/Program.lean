import Jack.CommandLine.Arguments
import Jack.CommandLine.Files
import Jack.CommandLine.Path
import Jack.Compiler
import Jack.Text.Utf8

namespace Jack

/-!
# The program

The program compiles one source file into one output file.  No file is created before the class has
compiled, so a class that does not compile leaves all files as they are.
-/

/-- The version that the usage text names. -/
def version : String := "0.1.0"

/-- How the program is used. -/
def usage : String :=
  "\nusage: jackc FILE [options]\n" ++
  "\n" ++
  "Compiles one class source file into stack machine code. The output is\n" ++
  "written next to the source, with the extension replaced by .vm\n" ++
  "\n" ++
  "options:\n" ++
  "    -o OUT      Write the output to OUT instead\n" ++
  "    --strict    Reject names declared twice in the same scope\n" ++
  "    --no-fold   Always jump to the end of the subroutine on return\n" ++
  "\n" ++
  "examples:\n" ++
  "    jackc Main.jack\n" ++
  "    jackc Square.jack -o build/Square.vm\n"

/-- Why the program fails on well-formed arguments. -/
inductive ProgramError
  /-- The source cannot be read, or the output cannot be created. -/
  | file (f : FileFault)
  | encoding (e : Utf8Error)
  | compilation (e : CompileError)

namespace ProgramError

/-- The error in words. -/
def message : ProgramError → String
  | file f => f.message
  | encoding e => e.message
  | compilation e => e.message

end ProgramError

/-- What the program leaves behind, apart from files. -/
structure ProgramReport where
  exitCode : UInt8
  /-- What is printed besides log records. -/
  output : String
  log : Array Record

namespace Invocation

/-- The path of the output: the one that is given, or the source with the extension `vm`. -/
def outputPath (i : Invocation) : String :=
  i.output.getD (Path.replaceExtension i.source "vm")

/-- Compile the bytes of a source file. -/
def compileBytes (i : Invocation) (bytes : ByteArray) :
    Except ProgramError Listing × Array Record :=
  match Utf8.decode bytes.data.toList with
  | .error e => (.error (.encoding e), #[])
  | .ok source =>
    let outcome := compileClass i.options source
    (outcome.result.mapError .compilation, outcome.events.map Event.record)

/-- Read the source, compile it and write the output, command by command.  The number of commands is
told on success. -/
def perform {m : Type → Type} [Monad m] (files : FileAccess m) (i : Invocation) :
    m (Except ProgramError Nat × Array Record) := do
  match ← files.read i.source with
  | .error f => return (.error (.file f), #[])
  | .ok bytes =>
    match i.compileBytes bytes with
    | (.error e, log) => return (.error e, log)
    | (.ok listing, log) =>
      match ← files.create i.outputPath with
      | .error f => return (.error (.file f), log)
      | .ok handle =>
        match ← files.appendAll handle listing.pieces with
        | .error f => return (.error (.file f), log)
        | .ok () => return (.ok listing.size, log)

/-- The records of a run, and its exit code. -/
def report (i : Invocation) : Except ProgramError Nat × Array Record → ProgramReport
  | (result, log) =>
    let started := #[⟨.info, "compiling " ++ i.source⟩] ++ log
    match result with
    | .ok commands =>
      ⟨0, "", started.push ⟨.info, s!"wrote {commands} commands to {i.outputPath}"⟩⟩
    | .error e =>
      ⟨1, "", started.push ⟨.error, i.source ++ ": compilation failed\n" ++ e.message⟩⟩

end Invocation

/-- Run the program with its arguments. -/
def runProgram {m : Type → Type} [Monad m] (files : FileAccess m) (arguments : List String) :
    m ProgramReport := do
  match Invocation.parse arguments with
  | none => return ⟨64, s!"jackc v{version}\n" ++ usage ++ "\n", #[]⟩
  | some i => return i.report (← i.perform files)

end Jack
