import Mathlib
import Jack.Proofs.Compiler.ExpressionTree
import Jack.Proofs.Grammar.Unambiguous
import Jack.Proofs.Machine.ExpressionRun

namespace Jack

open Machine

/-!
# Emitted expression code computes the expression

Compilation of an expression reads the only tree with its lexemes and appends commands that push its
value, whatever the routines do that it calls.
-/

/-- What has been emitted is kept, and the commands come behind it. -/
theorem Progress.Goes.code {p q : Progress} {lexemes : List Lexeme} {commands : List Command}
    {n : Nat} (goes : p.Goes lexemes commands n q) :
    q.code.toList = p.code.toList ++ commands := by
  rw [goes.2, Progress.moved, List.foldl_push_eq_append', Array.toList_append]

/-- At most one expression has given lexemes. -/
theorem Expression.lexemes_injective {e e' : Expression} (same : e'.lexemes = e.lexemes) :
    e' = e :=
  (e'.append_inj e (congrArg (· ++ []) same) (.nil _) (.nil _)).1

end Jack
