import Jack.Proofs.Stack.Region
import Jack.Proofs.Translation.TailReturn

namespace Jack

/-!
# Statements keep the stack empty

The code of statements is a region that is entered with an empty stack.  It is left at its end with
an empty stack, if the statements complete, and otherwise by a `return` statement with the result on
the stack.  The induction is on the tree.
-/

open Jumps

mutual

/-- All `return` statements have a value, or none if the subroutine is void. -/
def Statement.ReturnsMatch (isVoid : Bool) : Statement → Prop
  | .letVariable _ _ => True
  | .letElement _ _ _ => True
  | .ifThen _ thenBlock => thenBlock.ReturnsMatch isVoid
  | .ifElse _ thenBlock elseBlock =>
    thenBlock.ReturnsMatch isVoid ∧ elseBlock.ReturnsMatch isVoid
  | .whileLoop _ block => block.ReturnsMatch isVoid
  | .doCall _ => True
  | .returnValue value => value.isNone = isVoid

/-- All `return` statements in the statements agree with the result type. -/
def Statements.ReturnsMatch (isVoid : Bool) : Statements → Prop
  | .nil => True
  | .cons first rest => first.ReturnsMatch isVoid ∧ rest.ReturnsMatch isVoid

end

/-- The number of words that a `return` statement has pushed. -/
def resultHeight (isVoid : Bool) : Nat := if isVoid then 0 else 1

variable {commands : List Command} {names : Names} {f : Frame} {start home : Nat} {isVoid : Bool}

/-- A statement without jumps is left behind its end, with an empty stack. -/
theorem balanced_straight {code : List Command} (stands : Stands commands start code)
    (straight : code.all Command.isStraight = true) (turns : Turns code 0 0) (result : Nat) :
    Balanced commands start (start + code.length) 0 []
      (blockExits true (start + code.length) home result) :=
  (balanced_run stands (all_flows_of_all_isStraight straight) turns.behind).mono
    fun _ _ leaves => .inl ⟨rfl, leaves⟩

/-- In front of the jump to the end there is the value, or nothing in a `void` subroutine. -/
theorem returnedCode_turns {className : String} {value : Option Expression}
    (acceptable : (Statement.returnValue value).Acceptable names)
    (returns : value.isNone = isVoid) :
    Turns (returnedCode names className value) 0 (resultHeight isVoid) := by
  cases value with
  | none =>
      rw [← returns]
      exact .nil 0
  | some e =>
      rw [← returns]
      exact e.code_turns acceptable

/-- A `return` statement is left at the end of the subroutine, by a jump or because it stands there.
-/
theorem balanced_return {value : Option Expression} {tail : Bool} {n : Nat}
    (stands : Stands commands start ((Statement.returnValue value).code names f tail n))
    (jumps : tail = false → place? commands f.endLabel = some home)
    (falls : tail = true →
      start + ((Statement.returnValue value).code names f tail n).length = home)
    (acceptable : (Statement.returnValue value).Acceptable names)
    (returns : value.isNone = isVoid) :
    Balanced commands start
      (start + ((Statement.returnValue value).code names f tail n).length) 0 []
      (blockExits false (start + ((Statement.returnValue value).code names f tail n).length) home
        (resultHeight isVoid)) := by
  rw [Statement.code_returnValue] at stands falls ⊢
  have pushed := balanced_run stands.left
    (all_flows_of_all_isStraight (returnedCode_straight value))
    (returnedCode_turns acceptable returns).behind
  cases tail with
  | true =>
      rw [if_pos rfl, List.append_nil] at falls ⊢
      rw [falls rfl] at pushed ⊢
      exact pushed.mono fun _ _ leaves => .inr leaves
  | false =>
      rw [if_neg Bool.false_ne_true] at stands ⊢
      rw [place_append]
      exact pushed.followed true (balanced_goto stands.right.current (jumps rfl) _)
        (fun _ _ leaves => .inl ⟨rfl, leaves⟩) fun _ _ _ leaves => .inr leaves

/-- The code of a statement that is no `return` is not empty. -/
theorem Statement.length_code_pos (s : Statement) (acceptable : s.Acceptable names)
    (noReturn : s.isReturn = false) (tail : Bool) (n : Nat) :
    0 < (s.code names f tail n).length := by
  rcases s.code_eq_concat (f := f) acceptable n with ⟨front, last, code, same⟩
  cases tail with
  | true =>
      rw [(same noReturn).1, List.length_append]
      exact Nat.succ_pos _
  | false =>
      rw [code, List.length_append]
      exact Nat.succ_pos _

/-- A statement is a part of itself, unless it is a `return`. -/
theorem Statement.balanced_own (s : Statement) {tail : Bool} {n result : Nat} {parts : List Part}
    (acceptable : s.Acceptable names)
    (behind : start + (s.code names f tail n).length ≤ home)
    (balanced : Balanced commands start (start + (s.code names f tail n).length) 0 parts
      (blockExits s.completes (start + (s.code names f tail n).length) home result)) :
    Balanced commands start (start + (s.code names f tail n).length) 0
      (s.ownPart names f tail n start ++ parts)
      (blockExits s.completes (start + (s.code names f tail n).length) home result) := by
  cases isReturn : s.isReturn with
  | true =>
      rcases s.eq_returnValue isReturn with ⟨value, rfl⟩
      exact balanced
  | false =>
      have pos := s.length_code_pos (f := f) acceptable isReturn tail n
      have own : s.ownPart names f tail n start =
          [⟨s, start, start + (s.code names f tail n).length⟩] := by
        cases s with
        | returnValue value => cases isReturn
        | _ => rfl
      rw [own]
      refine balanced.own ?_ fun completes => .inl ⟨completes, rfl, rfl⟩
      rintro (⟨-, same, -⟩ | ⟨same, -⟩)
      · omega
      · omega

/-! ## Statements with blocks -/

/-- The code of statements is balanced wherever it stands, given that the end of the subroutine is
where their `return` statements lead.  For a block this is what the statement around it asks for. -/
def Statements.IsBalanced (commands : List Command) (names : Names) (f : Frame) (home : Nat)
    (isVoid : Bool) (ss : Statements) : Prop :=
  ∀ {tail : Bool} {n start : Nat}, Stands commands start (ss.code names f tail n) →
    (ss.jumps tail = true → place? commands f.endLabel = some home) →
    (tail = true → start + (ss.code names f tail n).length = home) →
    start + (ss.code names f tail n).length ≤ home →
    Balanced commands start (start + (ss.code names f tail n).length) 0
      (ss.parts names f tail n start)
      (blockExits ss.completes (start + (ss.code names f tail n).length) home
        (resultHeight isVoid))

/-- No statement of a block inside of a statement is the last one of the subroutine, so that the
code behind the block does not have to end the subroutine. -/
theorem Statements.IsBalanced.insideStatement {ss : Statements} {n start : Nat}
    (isBalanced : ss.IsBalanced commands names f home isVoid)
    (stands : Stands commands start (ss.code names f false n))
    (jumps : ss.jumps false = true → place? commands f.endLabel = some home)
    (behind : start + (ss.code names f false n).length ≤ home) :
    Balanced commands start (start + (ss.code names f false n).length) 0
      (ss.parts names f false n start)
      (blockExits ss.completes (start + (ss.code names f false n).length) home
        (resultHeight isVoid)) :=
  isBalanced stands jumps (absurd · Bool.false_ne_true) behind

section Blocks

variable {condition : Expression} {thenBlock elseBlock block : Statements} {tail : Bool} {n : Nat}

/-- A branch with one block is balanced if its block is. -/
theorem Statement.ifThen_balanced (unique : (labelsOf commands).Nodup)
    (acceptable : condition.Acceptable names)
    (inThen : thenBlock.IsBalanced commands names f home isVoid)
    (stands : Stands commands start ((Statement.ifThen condition thenBlock).code names f tail n))
    (jumps : thenBlock.jumps false = true → place? commands f.endLabel = some home)
    (behind : start + ((Statement.ifThen condition thenBlock).code names f tail n).length ≤ home) :
    Balanced commands start
      (start + ((Statement.ifThen condition thenBlock).code names f tail n).length) 0
      ((Statement.ifThen condition thenBlock).innerParts names f n start)
      (blockExits true (start + ((Statement.ifThen condition thenBlock).code names f tail n).length)
        home (resultHeight isVoid)) := by
  have whole : (Statement.ifThen condition thenBlock).code names f tail n =
      testCode names f condition (Code.ifFalseLabel n) ++
        thenBlock.code names f false (n + 1) ++ [.label (Code.ifFalseLabel n)] := rfl
  rw [whole] at stands behind ⊢
  rw [place_append, place_append] at behind ⊢
  have exit := stands.right
  rw [place_append] at exit
  exact balanced_ifThen
    (balanced_test stands.left.left (place?_of_stands unique exit) acceptable)
    (inThen.insideStatement stands.left.right jumps (Nat.le_of_succ_le behind)) exit.current

/-- A branch with two blocks is balanced if both blocks are. -/
theorem Statement.ifElse_balanced (unique : (labelsOf commands).Nodup)
    (acceptable : condition.Acceptable names)
    (inThen : thenBlock.IsBalanced commands names f home isVoid)
    (inElse : elseBlock.IsBalanced commands names f home isVoid)
    (stands : Stands commands start
      ((Statement.ifElse condition thenBlock elseBlock).code names f tail n))
    (jumps : (thenBlock.jumps false || elseBlock.jumps false) = true →
      place? commands f.endLabel = some home)
    (behind : start +
      ((Statement.ifElse condition thenBlock elseBlock).code names f tail n).length ≤ home) :
    Balanced commands start
      (start + ((Statement.ifElse condition thenBlock elseBlock).code names f tail n).length) 0
      ((Statement.ifElse condition thenBlock elseBlock).innerParts names f n start)
      (blockExits (thenBlock.completes || elseBlock.completes)
        (start + ((Statement.ifElse condition thenBlock elseBlock).code names f tail n).length)
        home (resultHeight isVoid)) := by
  have whole : (Statement.ifElse condition thenBlock elseBlock).code names f tail n =
      testCode names f condition (Code.ifFalseLabel n) ++
        thenBlock.code names f false (n + 1) ++
        [.goto (Code.ifEndLabel n), .label (Code.ifFalseLabel n)] ++
        elseBlock.code names f false (n + 1 + thenBlock.labels) ++
        [.label (Code.ifEndLabel n)] := rfl
  rw [whole] at stands behind ⊢
  rw [place_append, place_append, place_append, place_append] at behind ⊢
  have leave := stands.left.left.right
  have elseStands := stands.left.right
  have exit := stands.right
  rw [place_append] at leave
  rw [place_append, place_append] at elseStands
  rw [place_append, place_append, place_append] at exit
  have elseBehind := Nat.le_of_succ_le behind
  have thenBehind := Nat.le_trans (Nat.le_trans (Nat.le_add_right _ 2) (Nat.le_add_right _ _))
    elseBehind
  exact balanced_ifElse
    (balanced_test stands.left.left.left.left (place?_of_stands unique leave.tail) acceptable)
    (inThen.insideStatement stands.left.left.left.right
      (fun jumpsThen => jumps (by rw [jumpsThen, Bool.true_or])) thenBehind)
    leave.current (place?_of_stands unique exit) leave.tail.current
    (inElse.insideStatement elseStands
      (fun jumpsElse => jumps (by rw [jumpsElse, Bool.or_true])) elseBehind)
    exit.current

/-- A loop is balanced if its block is. -/
theorem Statement.whileLoop_balanced (unique : (labelsOf commands).Nodup)
    (acceptable : condition.Acceptable names)
    (inBlock : block.IsBalanced commands names f home isVoid)
    (stands : Stands commands start ((Statement.whileLoop condition block).code names f tail n))
    (jumps : block.jumps false = true → place? commands f.endLabel = some home)
    (behind : start + ((Statement.whileLoop condition block).code names f tail n).length ≤ home) :
    Balanced commands start
      (start + ((Statement.whileLoop condition block).code names f tail n).length) 0
      ((Statement.whileLoop condition block).innerParts names f n start)
      (blockExits true (start + ((Statement.whileLoop condition block).code names f tail n).length)
        home (resultHeight isVoid)) := by
  have whole : (Statement.whileLoop condition block).code names f tail n =
      [.label (Code.whileLabel n)] ++ testCode names f condition (Code.whileEndLabel n) ++
        block.code names f false (n + 1) ++
        [.goto (Code.whileLabel n), .label (Code.whileEndLabel n)] := rfl
  rw [whole] at stands behind ⊢
  rw [place_append, place_append, place_append] at behind ⊢
  have top := stands.left.left.left
  have bottom := stands.right
  rw [place_append, place_append] at bottom
  have blockBehind := Nat.le_trans (Nat.le_add_right _ 2) behind
  have blockStands := stands.left.right
  rw [place_append] at blockStands
  exact balanced_while top.current (place?_of_stands unique top)
    (balanced_test stands.left.left.right (place?_of_stands unique bottom.tail) acceptable)
    (inBlock.insideStatement blockStands jumps blockBehind) bottom.current bottom.tail.current

end Blocks

mutual

/-- The code of a statement is balanced, given that no label is set twice and that the end of the
subroutine is where its `return` statements lead.  The cases are the forms. -/
theorem Statement.balanced (s : Statement) (unique : (labelsOf commands).Nodup) {tail : Bool}
    {n start : Nat} (stands : Stands commands start (s.code names f tail n))
    (jumps : s.jumps tail = true → place? commands f.endLabel = some home)
    (falls : tail = true → start + (s.code names f tail n).length = home)
    (behind : start + (s.code names f tail n).length ≤ home)
    (acceptable : s.Acceptable names) (returns : s.ReturnsMatch isVoid) :
    Balanced commands start (start + (s.code names f tail n).length) 0
      (s.innerParts names f n start)
      (blockExits s.completes (start + (s.code names f tail n).length) home
        (resultHeight isVoid)) := by
  cases s with
  | letVariable target value =>
      rw [Statement.Acceptable] at acceptable
      exact balanced_straight stands (letVariable_straight target value)
        (letVariable_turns acceptable.1 acceptable.2) _
  | letElement array index value =>
      rw [Statement.Acceptable] at acceptable
      exact balanced_straight stands (letElement_straight array index value)
        (letElement_turns acceptable.1 acceptable.2.1 acceptable.2.2) _
  | doCall c => exact balanced_straight stands (doCall_straight c) (doCall_turns acceptable) _
  | returnValue value =>
      have notTail : tail = false → place? commands f.endLabel = some home :=
        fun isFalse => jumps (by rw [Statement.jumps, isFalse, Bool.not_false])
      exact balanced_return stands notTail falls acceptable returns
  | ifThen condition thenBlock =>
      rw [Statement.Acceptable] at acceptable
      exact Statement.ifThen_balanced unique acceptable.1
        (thenBlock.balanced unique acceptable.2 returns) stands jumps behind
  | ifElse condition thenBlock elseBlock =>
      rw [Statement.Acceptable] at acceptable
      rw [Statement.jumps] at jumps
      exact Statement.ifElse_balanced unique acceptable.1
        (thenBlock.balanced unique acceptable.2.1 returns.1)
        (elseBlock.balanced unique acceptable.2.2 returns.2) stands jumps behind
  | whileLoop condition block =>
      rw [Statement.Acceptable] at acceptable
      exact Statement.whileLoop_balanced unique acceptable.1
        (block.balanced unique acceptable.2 returns) stands jumps behind

/-- The code of statements is balanced.  Behind a statement that does not complete, the others are
not entered. -/
theorem Statements.balanced (ss : Statements) (unique : (labelsOf commands).Nodup)
    (acceptable : ss.Acceptable names) (returns : ss.ReturnsMatch isVoid) :
    ss.IsBalanced commands names f home isVoid := by
  intro tail n start stands jumps falls behind
  cases ss with
  | nil => exact balanced_straight stands rfl (.nil 0) _
  | cons first rest =>
      rw [Statements.code] at stands falls behind ⊢
      rw [Statements.jumps] at jumps
      rw [place_append] at falls behind ⊢
      have firstBehind := Nat.le_trans (Nat.le_add_right _ _) behind
      have firstBalanced := first.balanced unique stands.left
        (fun jumpsFirst => jumps (by rw [jumpsFirst, Bool.true_or])) (rest.falls_of_isEmpty falls)
        firstBehind acceptable.1 returns.1
      have restBalanced := rest.balanced unique acceptable.2 returns.2 stands.right
        (fun jumpsRest => jumps (by rw [jumpsRest, Bool.or_true])) falls behind
      refine (first.balanced_own acceptable.1 firstBehind firstBalanced).followed first.completes
        restBalanced ?_ ?_
      · rintro p h (⟨completes, toRest⟩ | toHome)
        · exact .inl ⟨completes, toRest⟩
        · exact .inr (.inr toHome)
      -- Control comes to the end only if the first statement and all others complete.
      · rintro firstCompletes p h (⟨restCompletes, toStop⟩ | toHome)
        · refine .inl ⟨?_, toStop⟩
          rw [Statements.completes, firstCompletes, restCompletes, Bool.and_self]
        · exact .inr toHome

end

end Jack
