import Jack.CommandLine.Program

namespace Jack

/-!
# Running the program on the files of the machine
-/

/-- A refusal of the system, with the number that the system gives to it.  Some operations report
the number with its sign changed. -/
def FileFault.ofSystem : IO.Error → FileFault
  | .noFileOrDirectory _ _ _ => .notFound
  | .inappropriateType _ code details => describe code details
  | .permissionDenied _ code details => describe code details
  | .invalidArgument _ code details => describe code details
  | .resourceExhausted _ code details => describe code details
  | e => ⟨toString e, 0⟩
where
  /-- The fault with a number, in the words that belong to it. -/
  describe (code : UInt32) (details : String) : FileFault :=
    let number := min code.toNat (0 - code).toNat
    if number = 20 then .notDirectory
    else if number = 21 then .isDirectory
    else ⟨details, number⟩

/-- Do something with files, and turn what the system refuses into a value. -/
def attempt {α : Type} (action : IO α) : IO (Except FileFault α) := do
  try
    return .ok (← action)
  catch e => return .error (.ofSystem e)

/-- The files of the machine. -/
def systemFiles : FileAccess IO where
  Handle := IO.FS.Handle
  read path := attempt (IO.FS.readBinFile path)
  create path := attempt (IO.FS.Handle.mk path .write)
  append handle bytes := attempt (handle.write bytes)
  flush handle := attempt handle.flush

/-- The records that are shown, chosen by the environment; without a choice all of them. -/
def chosenVerbosity : IO Verbosity := do
  match ← IO.getEnv "JACK_LOG" with
  | some word => return (Verbosity.ofWord? word.toLower).getD (some .trace)
  | none => return some .trace

end Jack

/-- Compile the source file that the arguments name. -/
def main (arguments : List String) : IO UInt32 := do
  let verbosity ← Jack.chosenVerbosity
  let report ← Jack.runProgram Jack.systemFiles arguments
  for r in report.log do
    if verbosity.shows r then IO.println s!"{r.level.name} {r.message}"
  IO.print report.output
  return report.exitCode.toUInt32
