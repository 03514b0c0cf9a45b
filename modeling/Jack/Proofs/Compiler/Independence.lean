import Mathlib
import Jack.Proofs.Compiler.Language
import Jack.Proofs.Translation.Renumber

namespace Jack

/-!
# Subroutines compile independently

Symbols of a subroutine are forgotten behind it, and of all other subroutines only the number of
their labels is felt.  So nothing is lost if each subroutine is compiled in a class of its own.
-/

/-- A source that spells a class compiles if and only if the class is acceptable, and then to its
code. -/
theorem Lexes.compileClass_eq_ok_iff {options : Options} {source : List Char} {c : ClassTree}
    {listing : Listing} (lexes : Lexes source c.lexemes) :
    (compileClass options source).result = .ok listing ↔
      c.Acceptable options ∧ listing = (c.code options).toArray := by
  rw [Jack.compileClass_eq_ok_iff]
  constructor
  · rintro ⟨c', lexes', acceptable, code⟩
    rw [lexes.tree_unique lexes'] at acceptable code
    refine ⟨acceptable, ?_⟩
    rw [← code, Array.toArray_toList]
  · rintro ⟨acceptable, rfl⟩
    exact ⟨c, lexes, acceptable, rfl⟩

/-- A class compiles if and only if each of its subroutines does, alone in the class.  The listing
is then made of the listings of these classes, where the label numbers of each are increased by the
number of subroutines, branches and loops in front of it. -/
theorem compileClass_independent {options : Options} {source : List Char} {c : ClassTree}
    {parts : List (List Char)} (lexes : Lexes source c.lexemes) (notEmpty : c.subroutines ≠ [])
    (alone : List.Forall₂ (fun part s => Lexes part (c.only s).lexemes) parts c.subroutines) :
    ((∃ listing, (compileClass options source).result = .ok listing) ↔
        ∀ part ∈ parts, ∃ own, (compileClass options part).result = .ok own) ∧
      ∀ listing, (compileClass options source).result = .ok listing →
        ∃ owns : List Listing,
          List.Forall₂ (fun part own => (compileClass options part).result = .ok own) parts owns ∧
          listing.toList = owns.zipIdx.flatMap fun (own, i) =>
            own.toList.map
              (Command.renumber ((c.subroutines.take i).map Subroutine.labels).sum) := by
  have compiles {part : List Char} {tree : ClassTree} (lexes : Lexes part tree.lexemes) :
      (∃ own, (compileClass options part).result = .ok own) ↔ tree.Acceptable options := by
    simp only [lexes.compileClass_eq_ok_iff, exists_and_left, exists_eq, and_true]
  have each : (∃ listing, (compileClass options source).result = .ok listing) ↔
      ∀ part ∈ parts, ∃ own, (compileClass options part).result = .ok own := by
    rw [compiles lexes, ClassTree.acceptable_iff_only notEmpty]
    clear notEmpty
    generalize c.subroutines = subroutines at alone ⊢
    induction alone with
    | nil => simp only [List.not_mem_nil, false_imp_iff, implies_true]
    | cons lexes _ inductionHypothesis =>
        rw [List.forall_mem_cons, List.forall_mem_cons, compiles lexes, inductionHypothesis]
  refine ⟨each, fun listing compiled => ?_⟩
  have allCompile := each.mp ⟨listing, compiled⟩
  rcases lexes.compileClass_eq_ok_iff.mp compiled with ⟨-, rfl⟩
  refine ⟨c.subroutines.map fun s => ((c.only s).code options).toArray, ?_, ?_⟩
  · rw [List.forall₂_map_right_iff]
    refine List.Forall₂.imp ?_ ((List.forall₂_and_left _ _).mpr ⟨allCompile, alone⟩)
    rintro part s ⟨⟨own, compiled⟩, lexes⟩
    rw [compiled, (lexes.compileClass_eq_ok_iff.mp compiled).2]
  · rw [c.code_eq_renumber options, List.zipIdx_map, List.flatMap_map]
    rfl

/-- A class with a loop in one function and a branch in another. -/
def loopAndBranch : ClassTree :=
  ⟨"A", [],
    [⟨.function, none, "f", [], [], .cons (.whileLoop (.chain (.integer "1") .nil) .nil) .nil⟩,
      ⟨.function, none, "g", [], [], .cons (.ifThen (.chain (.integer "2") .nil) .nil) .nil⟩]⟩

theorem lexes_loopAndBranch :
    Lexes "class A{function void f(){while(1){}}function void g(){if(2){}}}".toList
      loopAndBranch.lexemes :=
  lexes_of_items (by cbv)

theorem lexes_alone_loopAndBranch :
    List.Forall₂ (fun part s => Lexes part (loopAndBranch.only s).lexemes)
      ["class A{function void f(){while(1){}}}".toList,
        "class A{function void g(){if(2){}}}".toList] loopAndBranch.subroutines :=
  .cons (lexes_of_items (by cbv)) (.cons (lexes_of_items (by cbv)) .nil)

/-- The labels of the second function get greater numbers by two, one for the first function and one
for the loop in it. -/
theorem compileClass_independent_loopAndBranch :
    (compileClass {} "class A{function void f(){while(1){}}}".toList).result =
        .ok #[.function "A.f" 0, .label "WHILE_EXP1", .push .constant 1, .arithmetic .not,
          .ifGoto "WHILE_END1", .goto "WHILE_EXP1", .label "WHILE_END1", .push .constant 0,
          .«return»] ∧
      (compileClass {} "class A{function void g(){if(2){}}}".toList).result =
        .ok #[.function "A.g" 0, .push .constant 2, .arithmetic .not, .ifGoto "IF_FALSE1",
          .label "IF_FALSE1", .push .constant 0, .«return»] ∧
      (compileClass {}
          "class A{function void f(){while(1){}}function void g(){if(2){}}}".toList).result =
        .ok #[.function "A.f" 0, .label "WHILE_EXP1", .push .constant 1, .arithmetic .not,
          .ifGoto "WHILE_END1", .goto "WHILE_EXP1", .label "WHILE_END1", .push .constant 0,
          .«return», .function "A.g" 0, .push .constant 2, .arithmetic .not, .ifGoto "IF_FALSE3",
          .label "IF_FALSE3", .push .constant 0, .«return»] := by
  have loop := compileClass_of_emitted {} "class A{function void f(){while(1){}}}".toList (by cbv)
  have branch := compileClass_of_emitted {} "class A{function void g(){if(2){}}}".toList (by cbv)
  rcases compileClass_independent lexes_loopAndBranch (List.cons_ne_nil _ _)
    lexes_alone_loopAndBranch with ⟨each, joined⟩
  have allCompile := each.mpr
    (List.forall_mem_cons.mpr ⟨⟨_, loop⟩, List.forall_mem_singleton.mpr ⟨_, branch⟩⟩)
  rcases allCompile with ⟨listing, compiled⟩
  rcases joined listing compiled with ⟨owns, alone, code⟩
  cases alone with
  | cons first rest =>
      cases rest with
      | cons second none =>
          cases none
          rw [loop] at first
          rw [branch] at second
          cases first
          cases second
          refine ⟨loop, branch, compiled.trans (congrArg Except.ok (Array.toList_inj.mp ?_))⟩
          rw [code]
          cbv

end Jack
