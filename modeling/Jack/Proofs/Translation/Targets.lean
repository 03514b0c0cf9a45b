import Mathlib.Data.List.Basic
import Jack.Proofs.Translation.Labels

namespace Jack

/-!
# Jumps

A jump names the label to which it leads.  The jumps in the code of statements lead to the labels in
that code, or to the end of the subroutine, which is not one of them.  No label of a statement is
set in vain: there is a jump to each (`Statements.exists_jump_mem_marks`).  A jump leads back only
from the end of a loop to its start (`Statements.pairwise_marks`).
-/

/-- A label that is set, or a jump to a label, apart from the text of the label. -/
inductive Mark
  | set (l : LabelName)
  | jump (conditional : Bool) (l : LabelName)
deriving DecidableEq

namespace Mark

/-- The label that is set, or to which the jump leads. -/
def name : Mark → LabelName
  | set l => l
  | jump _ l => l

/-- The command for a label or a jump. -/
def command : Mark → Command
  | set l => .label l.text
  | jump true l => .ifGoto l.text
  | jump false l => .goto l.text

/-- Different marks have different commands. -/
theorem command_inj {a b : Mark} (same : a.command = b.command) : a = b := by
  match a, b with
  | set _, set _ => exact congrArg set (LabelName.text_inj (Command.label.inj same))
  | jump true _, jump true _ =>
      exact congrArg (jump true) (LabelName.text_inj (Command.ifGoto.inj same))
  | jump false _, jump false _ =>
      exact congrArg (jump false) (LabelName.text_inj (Command.goto.inj same))

/-- Of two marks, one in front of the other, the second may jump back to the first only from the end
of a loop to its start.  The first may jump to the second for any other reason. -/
def InOrder : Mark → Mark → Prop
  | set l, jump conditional l' => l = l' → conditional = false ∧ l.family = .whileStart
  | jump _ l, set l' => l = l' → l.family ≠ .whileStart
  | _, _ => True

/-- Marks of different labels may stand in any order. -/
theorem inOrder_of_name_ne {a b : Mark} (different : a.name ≠ b.name) : InOrder a b := by
  cases a with
  | set l =>
      cases b with
      | set l' => trivial
      | jump conditional l' => exact fun same => absurd same different
  | jump conditional l =>
      cases b with
      | set l' => exact fun same => absurd same different
      | jump conditional' l' => trivial

end Mark

/-- The label to which a command jumps. -/
def Command.target? : Command → Option String
  | goto name | ifGoto name => some name
  | _ => none

/-- The command sets a label or is a jump. -/
def Command.isMark : Command → Bool
  | .label _ | goto _ | ifGoto _ => true
  | _ => false

theorem Command.isMark_command (a : Mark) : a.command.isMark = true := by
  match a with
  | .set _ | .jump true _ | .jump false _ => rfl

/-- The labels and jumps among commands, in their order. -/
def marksOf (commands : List Command) : List Command :=
  commands.filter Command.isMark

theorem marksOf_append (first second : List Command) :
    marksOf (first ++ second) = marksOf first ++ marksOf second :=
  List.filter_append first second

/-- Straight code has no labels and no jumps. -/
theorem marksOf_eq_nil {commands : List Command}
    (straight : commands.all Command.isStraight = true) : marksOf commands = [] := by
  rw [marksOf, List.filter_eq_nil_iff]
  rw [List.all_eq_true] at straight
  intro c member
  cases c with
  | label name => exact absurd (straight _ member) Bool.false_ne_true
  | goto name => exact absurd (straight _ member) Bool.false_ne_true
  | ifGoto name => exact absurd (straight _ member) Bool.false_ne_true
  | _ => exact Bool.false_ne_true

/-! ## The marks of statements -/

mutual

/-- The labels and jumps in the code of a statement behind `n` label numbers, in their order. -/
def Statement.marks (finish : LabelName) (tail : Bool) (n : Nat) : Statement → List Mark
  | .letVariable _ _ => []
  | .letElement _ _ _ => []
  | .ifThen _ thenBlock =>
    .jump true ⟨.ifFalse, n⟩ :: (thenBlock.marks finish false (n + 1) ++ [.set ⟨.ifFalse, n⟩])
  | .ifElse _ thenBlock elseBlock =>
    .jump true ⟨.ifFalse, n⟩ :: (thenBlock.marks finish false (n + 1) ++
      .jump false ⟨.ifEnd, n⟩ :: .set ⟨.ifFalse, n⟩ ::
        (elseBlock.marks finish false (n + 1 + thenBlock.labels) ++ [.set ⟨.ifEnd, n⟩]))
  | .whileLoop _ block =>
    .set ⟨.whileStart, n⟩ :: .jump true ⟨.whileEnd, n⟩ :: (block.marks finish false (n + 1) ++
      [.jump false ⟨.whileStart, n⟩, .set ⟨.whileEnd, n⟩])
  | .doCall _ => []
  | .returnValue _ => if tail then [] else [.jump false finish]

/-- The labels and jumps in the code of statements, each statement behind the numbers of those
before. -/
def Statements.marks (finish : LabelName) (tail : Bool) (n : Nat) : Statements → List Mark
  | .nil => []
  | .cons first rest =>
    first.marks finish (tail && rest.isEmpty) n ++ rest.marks finish tail (n + first.labels)

end

variable {names : Names} {f : Frame} {finish : LabelName}

mutual

/-- The code of a statement has the labels and jumps that are listed, in the same order. -/
theorem Statement.marksOf_code (endIs : f.endLabel = finish.text) (s : Statement) (tail : Bool)
    (n : Nat) :
    marksOf (s.code names f tail n) = (s.marks finish tail n).map Mark.command := by
  cases s with
  | letVariable target value => exact marksOf_eq_nil (letVariable_straight target value)
  | letElement array index value => exact marksOf_eq_nil (letElement_straight array index value)
  | ifThen condition thenBlock =>
      simp only [Statement.code, Statement.marks, marksOf_append, thenBlock.marksOf_code endIs,
        marksOf_eq_nil condition.code_straight, List.map_append, List.map_cons]
      rfl
  | ifElse condition thenBlock elseBlock =>
      simp only [Statement.code, Statement.marks, marksOf_append, thenBlock.marksOf_code endIs,
        elseBlock.marksOf_code endIs, marksOf_eq_nil condition.code_straight, List.map_append,
        List.map_cons, List.append_assoc]
      rfl
  | whileLoop condition block =>
      have first (rest : List Command) :
          marksOf (.label (Code.whileLabel n) :: rest) =
            .label (Code.whileLabel n) :: marksOf rest := rfl
      simp only [Statement.code, Statement.marks, first, marksOf_append,
        block.marksOf_code endIs, marksOf_eq_nil condition.code_straight, List.map_append,
        List.map_cons, List.append_assoc]
      rfl
  | doCall c => exact marksOf_eq_nil (doCall_straight c)
  | returnValue value =>
      cases value with
      | none =>
          rw [Statement.code, endIs]
          cases tail <;> rfl
      | some e =>
          rw [Statement.code, marksOf_append, marksOf_eq_nil e.code_straight, endIs]
          cases tail <;> rfl

/-- The same of statements. -/
theorem Statements.marksOf_code (endIs : f.endLabel = finish.text) (ss : Statements) (tail : Bool)
    (n : Nat) :
    marksOf (ss.code names f tail n) = (ss.marks finish tail n).map Mark.command := by
  cases ss with
  | nil => rfl
  | cons first rest =>
      rw [Statements.code, Statements.marks, marksOf_append, first.marksOf_code endIs,
        rest.marksOf_code endIs, List.map_append]

end

mutual

/-- A mark is a jump to the end of the subroutine or concerns a label of the same statement. -/
theorem Statement.name_mem_labelNames (s : Statement) (tail : Bool) (n : Nat) {a : Mark}
    (member : a ∈ s.marks finish tail n) : a = .jump false finish ∨ a.name ∈ s.labelNames n := by
  cases s with
  | ifThen condition thenBlock =>
      rw [Statement.marks, List.mem_cons, List.mem_append, List.mem_singleton] at member
      rw [Statement.labelNames, List.mem_append, List.mem_singleton]
      rcases member with rfl | inThen | rfl
      · exact .inr (.inr rfl)
      · exact (thenBlock.name_mem_labelNames false (n + 1) inThen).imp_right .inl
      · exact .inr (.inr rfl)
  | ifElse condition thenBlock elseBlock =>
      rw [Statement.marks, List.mem_cons, List.mem_append, List.mem_cons, List.mem_cons,
        List.mem_append, List.mem_singleton] at member
      rw [Statement.labelNames, List.mem_append, List.mem_cons, List.mem_append,
        List.mem_singleton]
      rcases member with rfl | inThen | rfl | rfl | inElse | rfl
      · exact .inr (.inr (.inl rfl))
      · exact (thenBlock.name_mem_labelNames false (n + 1) inThen).imp_right .inl
      · exact .inr (.inr (.inr (.inr rfl)))
      · exact .inr (.inr (.inl rfl))
      · exact (elseBlock.name_mem_labelNames false _ inElse).imp_right
          fun found => .inr (.inr (.inl found))
      · exact .inr (.inr (.inr (.inr rfl)))
  | whileLoop condition block =>
      rw [Statement.marks, List.mem_cons, List.mem_cons, List.mem_append, List.mem_cons,
        List.mem_singleton] at member
      rw [Statement.labelNames, List.mem_cons, List.mem_append, List.mem_singleton]
      rcases member with rfl | rfl | inBlock | rfl | rfl
      · exact .inr (.inl rfl)
      · exact .inr (.inr (.inr rfl))
      · exact (block.name_mem_labelNames false (n + 1) inBlock).imp_right
          fun found => .inr (.inl found)
      · exact .inr (.inl rfl)
      · exact .inr (.inr (.inr rfl))
  | returnValue value =>
      rw [Statement.marks] at member
      cases tail with
      | true => cases member
      | false => exact .inl (List.mem_singleton.mp member)
  | _ => cases member

/-- A jump leads to a label of the statements or to the end of the subroutine. -/
theorem Statements.name_mem_labelNames (ss : Statements) (tail : Bool) (n : Nat) {a : Mark}
    (member : a ∈ ss.marks finish tail n) : a = .jump false finish ∨ a.name ∈ ss.labelNames n := by
  cases ss with
  | nil => cases member
  | cons first rest =>
      rw [Statements.marks, List.mem_append] at member
      rw [Statements.labelNames, List.mem_append]
      rcases member with inFirst | inRest
      · exact (first.name_mem_labelNames _ n inFirst).imp_right .inl
      · exact (rest.name_mem_labelNames tail _ inRest).imp_right .inr

end

mutual

/-- There is a jump to each label of a statement. -/
theorem Statement.exists_jump_mem_marks (s : Statement) (tail : Bool) (n : Nat) {l : LabelName}
    (member : l ∈ s.labelNames n) : ∃ conditional, .jump conditional l ∈ s.marks finish tail n := by
  cases s with
  | ifThen condition thenBlock =>
      rw [Statement.labelNames, List.mem_append, List.mem_singleton] at member
      simp only [Statement.marks, List.mem_cons, List.mem_append]
      rcases member with inThen | rfl
      · rcases thenBlock.exists_jump_mem_marks false (n + 1) inThen with ⟨conditional, found⟩
        exact ⟨conditional, .inr (.inl found)⟩
      · exact ⟨true, .inl rfl⟩
  | ifElse condition thenBlock elseBlock =>
      rw [Statement.labelNames, List.mem_append, List.mem_cons, List.mem_append,
        List.mem_singleton] at member
      simp only [Statement.marks, List.mem_cons, List.mem_append]
      rcases member with inThen | rfl | inElse | rfl
      · rcases thenBlock.exists_jump_mem_marks false (n + 1) inThen with ⟨conditional, found⟩
        exact ⟨conditional, .inr (.inl found)⟩
      · exact ⟨true, .inl rfl⟩
      · rcases elseBlock.exists_jump_mem_marks false _ inElse with ⟨conditional, found⟩
        exact ⟨conditional, .inr (.inr (.inr (.inr (.inl found))))⟩
      · exact ⟨false, .inr (.inr (.inl rfl))⟩
  | whileLoop condition block =>
      rw [Statement.labelNames, List.mem_cons, List.mem_append, List.mem_singleton] at member
      simp only [Statement.marks, List.mem_cons, List.mem_append]
      rcases member with rfl | inBlock | rfl
      · exact ⟨false, .inr (.inr (.inr (.inl rfl)))⟩
      · rcases block.exists_jump_mem_marks false (n + 1) inBlock with ⟨conditional, found⟩
        exact ⟨conditional, .inr (.inr (.inl found))⟩
      · exact ⟨true, .inr (.inl rfl)⟩
  | _ => cases member

/-- Every label of the statements is jumped to. -/
theorem Statements.exists_jump_mem_marks (ss : Statements) (tail : Bool) (n : Nat) {l : LabelName}
    (member : l ∈ ss.labelNames n) :
    ∃ conditional, .jump conditional l ∈ ss.marks finish tail n := by
  cases ss with
  | nil => cases member
  | cons first rest =>
      rw [Statements.labelNames, List.mem_append] at member
      simp only [Statements.marks, List.mem_append]
      rcases member with inFirst | inRest
      · rcases first.exists_jump_mem_marks (tail && rest.isEmpty) n inFirst with
          ⟨conditional, found⟩
        exact ⟨conditional, .inl found⟩
      · rcases rest.exists_jump_mem_marks tail _ inRest with ⟨conditional, found⟩
        exact ⟨conditional, .inr found⟩

end

/-! ## Jumps to the end of the subroutine -/

mutual

/-- No label of a statement is that of an end. -/
theorem Statement.family_ne_finish (s : Statement) (n : Nat) {l : LabelName}
    (member : l ∈ s.labelNames n) : l.family ≠ .finish := by
  cases s with
  | ifThen condition thenBlock =>
      rw [Statement.labelNames, List.mem_append, List.mem_singleton] at member
      rcases member with inThen | rfl
      · exact thenBlock.family_ne_finish (n + 1) inThen
      · exact nofun
  | ifElse condition thenBlock elseBlock =>
      rw [Statement.labelNames, List.mem_append, List.mem_cons, List.mem_append,
        List.mem_singleton] at member
      rcases member with inThen | rfl | inElse | rfl
      · exact thenBlock.family_ne_finish (n + 1) inThen
      · exact nofun
      · exact elseBlock.family_ne_finish (n + 1 + thenBlock.labels) inElse
      · exact nofun
  | whileLoop condition block =>
      rw [Statement.labelNames, List.mem_cons, List.mem_append, List.mem_singleton] at member
      rcases member with rfl | inBlock | rfl
      · exact nofun
      · exact block.family_ne_finish (n + 1) inBlock
      · exact nofun
  | _ => cases member

/-- No label of the statements is at the end of the subroutine. -/
theorem Statements.family_ne_finish (ss : Statements) (n : Nat) {l : LabelName}
    (member : l ∈ ss.labelNames n) : l.family ≠ .finish := by
  cases ss with
  | nil => cases member
  | cons first rest =>
      rw [Statements.labelNames, List.mem_append] at member
      rcases member with inFirst | inRest
      · exact first.family_ne_finish n inFirst
      · exact rest.family_ne_finish (n + first.labels) inRest

end

mutual

/-- Which statements jump to the end of the subroutine. -/
theorem Statement.jump_finish_mem_marks (isFinish : finish.family = .finish) (s : Statement)
    (tail : Bool) (n : Nat) :
    .jump false finish ∈ s.marks finish tail n ↔ s.jumps tail = true := by
  have other (conditional : Bool) (family : LabelFamily) (different : family ≠ .finish) :
      ¬ Mark.jump false finish = .jump conditional ⟨family, n⟩ := by
    intro same
    rw [← isFinish, (Mark.jump.inj same).2] at different
    exact different rfl
  cases s with
  | letVariable target value => exact iff_of_false List.not_mem_nil Bool.false_ne_true
  | letElement array index value => exact iff_of_false List.not_mem_nil Bool.false_ne_true
  | ifThen condition thenBlock =>
      simp only [Statement.marks, Statement.jumps, List.mem_cons, List.mem_append,
        thenBlock.jump_finish_mem_marks isFinish, other true .ifFalse nofun, reduceCtorEq,
        List.not_mem_nil, false_or, or_false]
  | ifElse condition thenBlock elseBlock =>
      simp only [Statement.marks, Statement.jumps, List.mem_cons, List.mem_append,
        thenBlock.jump_finish_mem_marks isFinish, elseBlock.jump_finish_mem_marks isFinish,
        other true .ifFalse nofun, other false .ifEnd nofun, reduceCtorEq, List.not_mem_nil,
        false_or, or_false, Bool.or_eq_true]
  | whileLoop condition block =>
      simp only [Statement.marks, Statement.jumps, List.mem_cons, List.mem_append,
        block.jump_finish_mem_marks isFinish, other true .whileEnd nofun,
        other false .whileStart nofun, reduceCtorEq, List.not_mem_nil, false_or, or_false]
  | doCall c => exact iff_of_false List.not_mem_nil Bool.false_ne_true
  | returnValue value =>
      rw [Statement.marks, Statement.jumps]
      cases tail with
      | true => exact iff_of_false List.not_mem_nil Bool.false_ne_true
      | false => exact iff_of_true List.mem_cons_self rfl

/-- There is a jump to the end of the subroutine if the statements jump, and not otherwise. -/
theorem Statements.jump_finish_mem_marks (isFinish : finish.family = .finish) (ss : Statements)
    (tail : Bool) (n : Nat) :
    .jump false finish ∈ ss.marks finish tail n ↔ ss.jumps tail = true := by
  cases ss with
  | nil => exact iff_of_false List.not_mem_nil Bool.false_ne_true
  | cons first rest =>
      rw [Statements.marks, Statements.jumps, List.mem_append, Bool.or_eq_true,
        first.jump_finish_mem_marks isFinish, rest.jump_finish_mem_marks isFinish]

end

/-! ## The order of labels and jumps -/

/-- The marks of statements do not concern a label with a smaller number. -/
theorem Statements.inOrder_of_number_lt (isFinish : finish.family = .finish) (ss : Statements)
    {tail : Bool} {n : Nat} {a b : Mark} (less : b.name.number < n)
    (notFinish : b.name.family ≠ .finish) (member : a ∈ ss.marks finish tail n) :
    b.InOrder a ∧ a.InOrder b := by
  have different : a.name ≠ b.name := by
    intro same
    rcases ss.name_mem_labelNames tail n member with rfl | inside
    · rw [← same] at notFinish
      exact notFinish isFinish
    · have above := (ss.number_mem_labelNames n inside).1
      rw [same] at above
      exact Nat.lt_irrefl _ (Nat.lt_of_lt_of_le less above)
  exact ⟨Mark.inOrder_of_name_ne different.symm, Mark.inOrder_of_name_ne different⟩

/-- Marks of statements with separate ranges of numbers are in order. -/
theorem Mark.inOrder_of_separate (isFinish : finish.family = .finish) {a b : Mark}
    {first second : List LabelName} {bound : Nat}
    (inFirst : a = .jump false finish ∨ a.name ∈ first)
    (inSecond : b = .jump false finish ∨ b.name ∈ second)
    (notFinish : ∀ l ∈ first, l.family ≠ .finish) (notFinish' : ∀ l ∈ second, l.family ≠ .finish)
    (below : ∀ l ∈ first, l.number < bound) (above : ∀ l ∈ second, bound ≤ l.number) :
    InOrder a b := by
  rcases inFirst with rfl | inFirst
  · rcases inSecond with rfl | inSecond
    · trivial
    · exact inOrder_of_name_ne fun same => notFinish' _ inSecond (same ▸ isFinish)
  · rcases inSecond with rfl | inSecond
    · exact inOrder_of_name_ne fun same => notFinish _ inFirst (same ▸ isFinish)
    · refine inOrder_of_name_ne fun same => ?_
      have less := below _ inFirst
      rw [same] at less
      exact Nat.lt_irrefl _ (Nat.lt_of_lt_of_le less (above _ inSecond))

/-! ### The labels of a statement around those of its blocks -/

section Around

variable (isFinish : finish.family = .finish)

include isFinish

/-- A branch with one block has its label behind the block and jumps to it from the front. -/
theorem Statement.pairwise_marks_ifThen (condition : Expression) {thenBlock : Statements}
    (tail : Bool) {n : Nat} (inThen : (thenBlock.marks finish false (n + 1)).Pairwise Mark.InOrder) :
    ((Statement.ifThen condition thenBlock).marks finish tail n).Pairwise Mark.InOrder := by
  -- The own labels of a statement have its number, and those in its blocks have larger ones.
  have around (b : Mark) (less : b.name.number < n + 1) (notFinish : b.name.family ≠ .finish)
      (a : Mark) (member : a ∈ thenBlock.marks finish false (n + 1)) :=
    thenBlock.inOrder_of_number_lt isFinish less notFinish member
  have small := Nat.lt_succ_self n
  have skip := around (.jump true ⟨.ifFalse, n⟩) small nofun
  have behind := around (.set ⟨.ifFalse, n⟩) small nofun
  simp only [Statement.marks, List.pairwise_cons, List.pairwise_append, List.mem_append,
    List.mem_cons, List.not_mem_nil, or_false, forall_eq, or_imp, forall_and,
    List.Pairwise.nil, and_true]
  exact ⟨⟨fun a member => (skip a member).1, fun _ => nofun⟩, inThen, nofun,
    fun a member => (behind a member).2⟩

/-- Two blocks share no label of their own, since the numbers of the second one begin where those of
the first one end. -/
theorem Statements.inOrder_of_behind (first second : Statements) (n : Nat) {a b : Mark}
    (inFirst : a ∈ first.marks finish false n)
    (inSecond : b ∈ second.marks finish false (n + first.labels)) : a.InOrder b :=
  Mark.inOrder_of_separate isFinish (first.name_mem_labelNames false _ inFirst)
    (second.name_mem_labelNames false _ inSecond)
    (fun _ => first.family_ne_finish _) (fun _ => second.family_ne_finish _)
    (fun _ member => (first.number_mem_labelNames _ member).2)
    (fun _ member => (second.number_mem_labelNames _ member).1)

/-- A branch with two blocks jumps over each of them, forwards both times. -/
theorem Statement.pairwise_marks_ifElse (condition : Expression) {thenBlock elseBlock : Statements}
    (tail : Bool) {n : Nat} (inThen : (thenBlock.marks finish false (n + 1)).Pairwise Mark.InOrder)
    (inElse : (elseBlock.marks finish false (n + 1 + thenBlock.labels)).Pairwise Mark.InOrder) :
    ((Statement.ifElse condition thenBlock elseBlock).marks finish tail n).Pairwise
      Mark.InOrder := by
  have aroundThen (b : Mark) (less : b.name.number < n + 1)
      (notFinish : b.name.family ≠ .finish) (a : Mark)
      (member : a ∈ thenBlock.marks finish false (n + 1)) :=
    thenBlock.inOrder_of_number_lt isFinish less notFinish member
  have aroundElse (b : Mark) (less : b.name.number < n + 1 + thenBlock.labels)
      (notFinish : b.name.family ≠ .finish) (a : Mark)
      (member : a ∈ elseBlock.marks finish false (n + 1 + thenBlock.labels)) :=
    elseBlock.inOrder_of_number_lt isFinish less notFinish member
  have small := Nat.lt_succ_self n
  have small' : n < n + 1 + thenBlock.labels := by omega
  have skipThen := aroundThen (.jump true ⟨.ifFalse, n⟩) small nofun
  have skipElse := aroundElse (.jump true ⟨.ifFalse, n⟩) small' nofun
  have leaveThen := aroundThen (.jump false ⟨.ifEnd, n⟩) small nofun
  have leaveElse := aroundElse (.jump false ⟨.ifEnd, n⟩) small' nofun
  have falseThen := aroundThen (.set ⟨.ifFalse, n⟩) small nofun
  have falseElse := aroundElse (.set ⟨.ifFalse, n⟩) small' nofun
  have endThen := aroundThen (.set ⟨.ifEnd, n⟩) small nofun
  have endElse := aroundElse (.set ⟨.ifEnd, n⟩) small' nofun
  simp only [Statement.marks, List.pairwise_cons, List.pairwise_append, List.mem_append,
    List.mem_cons, List.not_mem_nil, or_false, forall_eq, or_imp, forall_and,
    List.Pairwise.nil, and_true]
  exact ⟨⟨fun a member => (skipThen a member).1, trivial, fun _ => nofun,
      fun a member => (skipElse a member).1, fun _ => nofun⟩,
    inThen,
    ⟨⟨fun _ => nofun, fun a member => (leaveElse a member).1, fun _ => nofun⟩,
      ⟨fun a member => (falseElse a member).1, trivial⟩, inElse, nofun,
      fun a member => (endElse a member).2⟩,
    fun a member => (leaveThen a member).2, fun a member => (falseThen a member).2,
    fun _ first _ second => thenBlock.inOrder_of_behind isFinish elseBlock _ first second,
    fun a member => (endThen a member).2⟩

/-- A loop has the one jump that leads back: from behind its block to the label in front. -/
theorem Statement.pairwise_marks_whileLoop (condition : Expression) {block : Statements}
    (tail : Bool) {n : Nat} (inBlock : (block.marks finish false (n + 1)).Pairwise Mark.InOrder) :
    ((Statement.whileLoop condition block).marks finish tail n).Pairwise Mark.InOrder := by
  have around (b : Mark) (less : b.name.number < n + 1) (notFinish : b.name.family ≠ .finish)
      (a : Mark) (member : a ∈ block.marks finish false (n + 1)) :=
    block.inOrder_of_number_lt isFinish less notFinish member
  have small := Nat.lt_succ_self n
  have start := around (.set ⟨.whileStart, n⟩) small nofun
  have skip := around (.jump true ⟨.whileEnd, n⟩) small nofun
  have again := around (.jump false ⟨.whileStart, n⟩) small nofun
  have behind := around (.set ⟨.whileEnd, n⟩) small nofun
  simp only [Statement.marks, List.pairwise_cons, List.pairwise_append, List.mem_append,
    List.mem_cons, List.not_mem_nil, or_false, forall_eq, or_imp, forall_and,
    List.Pairwise.nil, and_true]
  exact ⟨⟨nofun, fun a member => (start a member).1, fun _ => ⟨rfl, rfl⟩, trivial⟩,
    ⟨fun a member => (skip a member).1, trivial, fun _ => nofun⟩, inBlock, ⟨nofun, nofun⟩,
    fun a member => (again a member).2, fun a member => (behind a member).2⟩

end Around

mutual

/-- Only the jump at the end of a loop leads back, and it leads to the start of the loop. -/
theorem Statement.pairwise_marks (isFinish : finish.family = .finish) (s : Statement) (tail : Bool)
    (n : Nat) : (s.marks finish tail n).Pairwise Mark.InOrder := by
  cases s with
  | ifThen condition thenBlock =>
      exact Statement.pairwise_marks_ifThen isFinish condition tail
        (thenBlock.pairwise_marks isFinish false _)
  | ifElse condition thenBlock elseBlock =>
      exact Statement.pairwise_marks_ifElse isFinish condition tail
        (thenBlock.pairwise_marks isFinish false _) (elseBlock.pairwise_marks isFinish false _)
  | whileLoop condition block =>
      exact Statement.pairwise_marks_whileLoop isFinish condition tail
        (block.pairwise_marks isFinish false _)
  | returnValue value =>
      rw [Statement.marks]
      split
      · exact .nil
      · exact List.pairwise_singleton _ _
  | _ => exact .nil

/-- The same of statements, since different ones share only the label at the end of the subroutine.
-/
theorem Statements.pairwise_marks (isFinish : finish.family = .finish) (ss : Statements)
    (tail : Bool) (n : Nat) : (ss.marks finish tail n).Pairwise Mark.InOrder := by
  cases ss with
  | nil => exact .nil
  | cons first rest =>
      rw [Statements.marks, List.pairwise_append]
      refine ⟨first.pairwise_marks isFinish _ n, rest.pairwise_marks isFinish tail _,
        fun a inFirst b inRest => ?_⟩
      exact Mark.inOrder_of_separate isFinish (first.name_mem_labelNames _ n inFirst)
        (rest.name_mem_labelNames tail _ inRest) (fun l => first.family_ne_finish n)
        (fun l => rest.family_ne_finish _)
        (fun l member => (first.number_mem_labelNames n member).2)
        (fun l member => (rest.number_mem_labelNames _ member).1)

end

/-! ## The marks of subroutines -/

/-- A mark is among commands if it is among their marks. -/
theorem mem_iff_of_marksOf_eq {commands : List Command} {marks : List Mark}
    (same : marksOf commands = marks.map Mark.command) (a : Mark) :
    a.command ∈ commands ↔ a ∈ marks := by
  rw [← List.mem_map_of_injective fun _ _ => Mark.command_inj, ← same, marksOf, List.mem_filter]
  exact ⟨fun member => ⟨member, Command.isMark_command a⟩, fun member => member.1⟩

/-- The labels and jumps in the code of a subroutine behind `n` label numbers. -/
def Subroutine.marks (options : Options) (n : Nat) (s : Subroutine) : List Mark :=
  s.statements.marks ⟨.finish, n⟩ options.foldTailReturn (n + 1) ++
    if s.labelled options then [.set ⟨.finish, n⟩] else []

/-- The code of a subroutine has the labels and jumps that are listed, the label at its end
included. -/
theorem Subroutine.marksOf_code (options : Options) (c : ClassTree) (n : Nat) (s : Subroutine) :
    marksOf (s.code options c n) = (s.marks options n).map Mark.command := by
  have finish (labelled : Bool) :
      marksOf (if labelled then [.label (Code.endLabel n)] else []) =
        (if labelled then [.set ⟨.finish, n⟩] else []).map Mark.command := by
    cases labelled <;> rfl
  have start (rest : List Command) : marksOf (s.start c :: rest) = marksOf rest := rfl
  have last : marksOf [.«return»] = [] := rfl
  have endIs : (c.frame options n).endLabel = (LabelName.mk .finish n).text := rfl
  simp only [Subroutine.code_eq_inner, start, Subroutine.inner, Subroutine.marks, marksOf_append,
    last, finish, marksOf_eq_nil (s.prologue_straight c), marksOf_eq_nil s.closing_straight,
    s.statements.marksOf_code endIs, List.map_append, List.nil_append, List.append_nil]

/-- A label or jump stands in the code if and only if it is listed. -/
theorem Subroutine.mem_code_iff (options : Options) (c : ClassTree) (n : Nat) (s : Subroutine)
    (a : Mark) : a.command ∈ s.code options c n ↔ a ∈ s.marks options n :=
  mem_iff_of_marksOf_eq (s.marksOf_code options c n) a

/-- Only loops lead back in a subroutine. -/
theorem Subroutine.pairwise_marks (options : Options) (n : Nat) (s : Subroutine) :
    (s.marks options n).Pairwise Mark.InOrder := by
  rw [Subroutine.marks, List.pairwise_append]
  refine ⟨s.statements.pairwise_marks rfl options.foldTailReturn (n + 1), ?_, ?_⟩
  · split
    · exact List.pairwise_singleton _ _
    · exact .nil
  · intro a inStatements b atEnd
    split at atEnd
    · rw [List.mem_singleton.mp atEnd]
      -- Only the jumps of `return` statements concern the label at the end, and they stand before.
      rcases s.statements.name_mem_labelNames _ (n + 1) inStatements with rfl | inside
      · exact fun _ => nofun
      · exact Mark.inOrder_of_name_ne fun same =>
          s.statements.family_ne_finish (n + 1) inside (congrArg LabelName.family same)
    · cases atEnd

end Jack
