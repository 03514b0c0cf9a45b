import Mathlib
import Jack.Proofs.Compiler.Language
import Jack.Proofs.Lockstep.Class
import Jack.Proofs.Translation.TailReturn

namespace Jack

/-!
# Leaving out the jump of a last `return`

Whether that jump is left out is decided while the source is read, with one more look at the stream.
The decision has no influence on which sources compile or on which error is reported, and for the
listing it makes the difference of two deletions.
-/

/-- An item corresponds to itself. -/
theorem Item.corresponds_refl (item : Item) : item.Corresponds Eq Eq item := by
  cases item with
  | ok t => exact rfl
  | error e => exact rfl

/-- Compilations of the same source. -/
def Coupling.same : Coupling where
  streams := Eq
  tokens := Eq
  errors := Eq
  kind alike := congrArg Token.kind alike
  text alike := congrArg Token.text alike
  current alike := alike ▸ Item.corresponds_refl _
  following alike := alike ▸ Item.corresponds_refl _
  advance alike := congrArg TokenStream.advance alike
  unexpected _ streams tokens := by rw [streams, tokens]
  symbol _ tokens := by rw [tokens]
  redeclared _ tokens := by rw [tokens]

/-- Leaving out the jump of a last `return` changes no error, and it changes a listing exactly by
two deletions: first of jumps to the end of a subroutine that is the next command, then of labels at
an end to which no jump is left.  All other `return` statements keep their jump. -/
theorem compileClass_foldTailReturn (strict : Bool) (source : List Char) :
    (compileClass ⟨strict, true⟩ source).result =
        (compileClass ⟨strict, false⟩ source).result.map
          (fun listing => (foldTailReturn listing.toList).toArray) ∧
      ∀ (fold : Bool) (listing : Listing),
        (compileClass ⟨strict, fold⟩ source).result = .ok listing →
        ∃ c : ClassTree, Lexes source c.lexemes ∧
          listing.toList =
            c.numbered.flatMap (fun block => block.2.code ⟨strict, fold⟩ c block.1) ∧
          ∀ n s, (n, s) ∈ c.numbered →
            (s.code ⟨strict, fold⟩ c n).count (.goto (Code.endLabel n)) +
                (if fold && s.statements.endsInReturn then 1 else 0) =
              s.statements.returns := by
  constructor
  · have alike :
        (∃ listing listing', (compileClass ⟨strict, true⟩ source).result = .ok listing ∧
            (compileClass ⟨strict, false⟩ source).result = .ok listing') ∨
          ∃ e e', (compileClass ⟨strict, true⟩ source).result = .error e ∧
            (compileClass ⟨strict, false⟩ source).result = .error e' ∧ e = e' :=
      compileClass_corresponds .same rfl (.inr rfl) rfl
    rcases alike with
      ⟨folded, unfolded, compiled, compiled'⟩ | ⟨e, e', failed, failed', sameError⟩
    · rcases compileClass_eq_ok_iff.mp compiled with ⟨c, lexes, acceptable, code⟩
      rcases compileClass_eq_ok_iff.mp compiled' with ⟨c', lexes', -, code'⟩
      rw [lexes.tree_unique lexes'] at code'
      have deleted := c.foldTailReturn_code strict fun s member => (acceptable.2 s member).2
      rw [← code, ← code'] at deleted
      rw [compiled, compiled', Except.map, deleted, Array.toArray_toList]
    · rw [failed, failed', Except.map]
      exact congrArg Except.error sameError
  · intro fold listing compiled
    rcases compileClass_eq_ok_iff.mp compiled with ⟨c, lexes, -, code⟩
    refine ⟨c, lexes, ?_, fun n s _ => s.count_goto_code ⟨strict, fold⟩ c n⟩
    rw [code, c.code_eq_flatMap]

/-- One `return` in a branch, one that is the last statement. -/
theorem compileClass_foldTailReturn_branch :
    (compileClass ⟨true, false⟩
        "class A{function int f(){if(true){return 1;}return 2;}}".toList).result =
        .ok #[.function "A.f" 0, .push .constant 1, .arithmetic .neg, .arithmetic .not,
          .ifGoto "IF_FALSE1", .push .constant 1, .goto "RETURN0", .label "IF_FALSE1",
          .push .constant 2, .goto "RETURN0", .label "RETURN0", .«return»] ∧
      (compileClass ⟨true, true⟩
        "class A{function int f(){if(true){return 1;}return 2;}}".toList).result =
        .ok #[.function "A.f" 0, .push .constant 1, .arithmetic .neg, .arithmetic .not,
          .ifGoto "IF_FALSE1", .push .constant 1, .goto "RETURN0", .label "IF_FALSE1",
          .push .constant 2, .label "RETURN0", .«return»] ∧
      ∃ c : ClassTree,
        Lexes "class A{function int f(){if(true){return 1;}return 2;}}".toList c.lexemes ∧
        ∀ n s, (n, s) ∈ c.numbered →
          (s.code ⟨true, true⟩ c n).count (.goto (Code.endLabel n)) +
            (if s.statements.endsInReturn then 1 else 0) = s.statements.returns := by
  have unfolded := compileClass_of_emitted ⟨true, false⟩
    "class A{function int f(){if(true){return 1;}return 2;}}".toList (by cbv)
  have folded := compileClass_of_emitted ⟨true, true⟩
    "class A{function int f(){if(true){return 1;}return 2;}}".toList (by cbv)
  rcases (compileClass_foldTailReturn true _).2 true _ folded with ⟨c, lexes, -, counted⟩
  exact ⟨unfolded, folded, c, lexes, counted⟩

end Jack
