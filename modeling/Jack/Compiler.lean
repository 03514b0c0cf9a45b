import Jack.Compiler.Bound

namespace Jack

/-!
# The compiler

The source of one class becomes a listing for the stack machine, or is refused with an error.
-/

/-- What comes of a compilation: the code or an error, and the events on the way to it. -/
structure Outcome where
  result : Except CompileError Listing
  events : Array Event

/-- Compile the source of one class. -/
def compileClass (options : Options) (source : List Char) : Outcome :=
  match run : Step.wholeClass options (stepBound source) (Progress.ofSource source) with
  | .ok _ p => ⟨.ok p.code, p.events⟩
  | .error (.failed e) p => ⟨.error e, p.events⟩
  | .error (.defect d) p => absurd run (Step.wholeClass_ne_defect options source d p)

/-- If the steps for the class come to an end without an error, what they have emitted is the
listing, and what they have recorded is the log. -/
theorem compileClass_of_ok {options : Options} {source : List Char} {u : Unit} {p : Progress}
    (run : Step.wholeClass options (stepBound source) (Progress.ofSource source) = .ok u p) :
    compileClass options source = ⟨.ok p.code, p.events⟩ := by
  unfold compileClass
  split <;> simp_all

/-- If the steps for the class report an error, it is the result, and nothing of the code is kept.
The events that were recorded before it stay in the log. -/
theorem compileClass_of_failed {options : Options} {source : List Char} {e : CompileError}
    {p : Progress}
    (run : Step.wholeClass options (stepBound source) (Progress.ofSource source) =
      .error (.failed e) p) :
    compileClass options source = ⟨.error e, p.events⟩ := by
  unfold compileClass
  split <;> simp_all

/-- The listing of one class as text. -/
def compileWith (options : Options) (source : String) : Except CompileError String :=
  (compileClass options source.toList).result.map Listing.text

/-- The listing of one class as text, with the usual options. -/
def compile (source : String) : Except CompileError String :=
  compileWith { } source

end Jack
