import Mathlib
import Jack.Proofs.Compiler.Language
import Jack.Proofs.Redeclaration.Class

namespace Jack

/-!
# Errors point at their cause

The parts of the compiler can fail in more ways than the compiler: a fault with a name may have no
place, and a token may be taken for an operator and then have no command.  None of this happens,
since whoever uses these parts has made sure of it before.  What is reported is always a fault at an
item of the source, and the items around it bear it out.
-/

/-- No run has a defect, and every error has its cause at an item of the source. -/
theorem compileWith_cause (options : Options) (source : String) :
    (∀ d p, Step.wholeClass options (stepBound source.toList) (.ofSource source.toList) ≠
      .error (.defect d) p) ∧
    ∀ e, compileWith options source = .error e → ∃ before item behind,
      (Lexer.ofSource source.toList).items = before.map .ok ++ item :: behind ∧
        e.IsCausedBy before item behind := by
  constructor
  · exact Step.wholeClass_ne_defect options source.toList
  · intro e failed
    have arises := compileClass_arises options source.toList
    unfold compileWith at failed
    cases result : (compileClass options source.toList).result with
    | ok listing =>
        rw [result] at failed
        cases failed
    | error e' =>
        rw [result] at failed arises
        cases failed
        rcases arises with ⟨before, item, behind, items, -, cause⟩
        exact ⟨before, item, behind, items, cause⟩

/-- The array of an element is declared in another subroutine alone. -/
theorem compileWith_cause_outOfSight :
    compileWith {} "class A{function void f(int a){return;}function int g(){return a[1];}}" =
        .error (.symbol (.unresolved "a") ⟨63, 1, 64⟩) ∧
      ∃ before item behind,
        (Lexer.ofSource
          "class A{function void f(int a){return;}function int g(){return a[1];}}".toList).items =
            before.map .ok ++ item :: behind ∧
          CompileError.IsCausedBy before item behind (.symbol (.unresolved "a") ⟨63, 1, 64⟩) := by
  have failed :
      compileWith {} "class A{function void f(int a){return;}function int g(){return a[1];}}" =
        .error (.symbol (.unresolved "a") ⟨63, 1, 64⟩) := by
    rw [compileWith, compileClass_of_failure (e := .symbol (.unresolved "a") ⟨63, 1, 64⟩) _ _
      (by cbv)]
    rfl
  exact ⟨failed, (compileWith_cause _ _).2 _ failed⟩

end Jack
