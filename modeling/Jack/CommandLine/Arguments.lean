import Jack.Compiler.Progress

namespace Jack

/-!
# Command line arguments

Arguments are read from left to right.  `-o` takes the argument behind it, whatever that is; of
two outputs the last one counts.  Besides the flags there has to be exactly one argument, the
source, and an argument that starts with a dash is never taken for it.
-/

/-- What the arguments ask for. -/
structure Invocation where
  /-- Path of the source file. -/
  source : String
  /-- Path of the output file, if one is given. -/
  output : Option String
  options : Options
deriving DecidableEq

namespace Invocation

/-- The argument starts with a dash. -/
def isDashed (argument : String) : Bool := argument.toList.head? = some '-'

/-- Read arguments behind those that have given a source, an output and options. -/
def parseBehind (source output : Option String) (options : Options) :
    List String → Option Invocation
  | [] => source.map fun path => ⟨path, output, options⟩
  | argument :: rest =>
    if argument = "-o" then
      match rest with
      | [] => none
      | path :: rest => parseBehind source (some path) options rest
    else if argument = "--strict" then
      parseBehind source output { options with strictDeclarations := true } rest
    else if argument = "--no-fold" then
      parseBehind source output { options with foldTailReturn := false } rest
    else if isDashed argument || source.isSome then none
    else parseBehind (some argument) output options rest

/-- What a list of arguments asks for, if it is well-formed. -/
def parse (arguments : List String) : Option Invocation :=
  parseBehind none none { } arguments

end Invocation

end Jack
