import Mathlib
import Jack.Proofs.Compiler.Language
import Jack.Proofs.Translation.LocalLabels

namespace Jack

/-!
# Labels of a listing

Numbers for labels are given away one after the other while a class is read.  So a listing can be
assembled: each jump finds exactly one label, in its own function.
-/

theorem count_label (commands : List Command) (label : String) :
    commands.count (.label label) = (labelsOf commands).count label := by
  rw [labelsOf, List.count_filterMap, List.count_eq_countP]
  refine List.countP_congr fun command _ => ?_
  rw [beq_iff_eq, beq_iff_eq]
  cases command with
  | label name => rw [Command.label?, Option.some.injEq, Command.label.injEq]
  | _ => simp only [Command.label?, reduceCtorEq]

/-- No label of a listing is set twice.  A jump leads to a label of the same function, and back only
from the end of a loop to its start.  If the jump of a last `return` is left out, there is a jump to
each label; otherwise each function has exactly one label at its end. -/
theorem compileClass_labels {options : Options} {source : List Char} {listing : Listing}
    (compiled : (compileClass options source).result = .ok listing) :
    (labelsOf listing.toList).Nodup ∧
      (functionsOf listing.toList).flatten = listing.toList ∧
      ∀ function ∈ functionsOf listing.toList,
        (∀ (i : Nat) (jump : Command) (label : String), function[i]? = some jump →
          jump.target? = some label →
          listing.toList.count (.label label) = 1 ∧
          ∃ j, function[j]? = some (.label label) ∧
            (j < i ↔ ∃ m, jump = .goto (Code.whileLabel m))) ∧
        (options.foldTailReturn = true →
          ∀ label ∈ labelsOf function, ∃ jump ∈ function, jump.target? = some label) ∧
        (options.foldTailReturn = false →
          ∃ n, (labelsOf function).filter isEndLabel = [Code.endLabel n]) := by
  rcases compileClass_eq_ok_iff.mp compiled with ⟨c, -, -, code⟩
  rw [code]
  have nodup := c.labelsOf_nodup options
  refine ⟨nodup, List.flatten_splitBy _ _, ?_⟩
  rw [c.functionsOf_code options, List.forall_mem_map]
  rintro ⟨n, s⟩ member
  refine ⟨fun i jump label jumps target => ?_, fun fold label => s.exists_target_of_label fold,
    fun noFold => ⟨n, s.endLabels_code noFold⟩⟩
  rcases Subroutine.exists_mark_of_target (List.mem_of_getElem? jumps) target with
    ⟨conditional, l, rfl, rfl, inMarks⟩
  have sets : .label l.text ∈ s.code options c n := Subroutine.label_mem_code inMarks
  have setsInClass : .label l.text ∈ c.code options := by
    rw [c.code_eq_flatMap]
    exact List.mem_flatMap_of_mem member sets
  rcases List.getElem?_of_mem sets with ⟨j, found⟩
  refine ⟨?_, j, found, (Subroutine.earlier_iff jumps found).trans ?_⟩
  · rw [count_label, List.count_eq_one_of_mem nodup (mem_labelsOf setsInClass)]
  · constructor
    · rintro ⟨rfl, start⟩
      exact ⟨l.number, congrArg Command.goto (congrArg (LabelName.text ⟨·, l.number⟩) start)⟩
    · rintro ⟨m, same⟩
      cases Mark.command_inj (a := .jump conditional l) (b := .jump false ⟨.whileStart, m⟩) same
      exact ⟨rfl, rfl⟩

/-- A loop behind a branch, in the second of two functions. -/
theorem compileClass_labels_loop :
    ∃ listing : Listing,
      (compileClass ⟨true, true⟩
          "class A{function void f(){}function int g(){if(1){return 2;}while(3){}return 4;}}".toList
        ).result = .ok listing ∧
      functionsOf listing.toList =
        [[.function "A.f" 0, .push .constant 0, .«return»],
          [.function "A.g" 0, .push .constant 1, .arithmetic .not, .ifGoto "IF_FALSE2",
            .push .constant 2, .goto "RETURN1", .label "IF_FALSE2", .label "WHILE_EXP3",
            .push .constant 3, .arithmetic .not, .ifGoto "WHILE_END3", .goto "WHILE_EXP3",
            .label "WHILE_END3", .push .constant 4, .label "RETURN1", .«return»]] ∧
      (labelsOf listing.toList).Nodup ∧
      ∀ function ∈ functionsOf listing.toList,
        ∀ label ∈ labelsOf function, ∃ jump ∈ function, jump.target? = some label := by
  have compiled := compileClass_of_emitted ⟨true, true⟩
    "class A{function void f(){}function int g(){if(1){return 2;}while(3){}return 4;}}".toList
    (by cbv)
  rcases compileClass_labels compiled with ⟨nodup, -, functions⟩
  exact ⟨_, compiled, by cbv, nodup, fun function member => (functions function member).2.1 rfl⟩

end Jack
