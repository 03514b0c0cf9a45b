import Mathlib
import Jack.Proofs.Translation.Labels

namespace Jack

/-!
# Increasing label numbers

The label numbers in front of a subroutine have one effect on its code: they are added to the
numbers of all its labels (`Subroutine.code_add`).  The code depends on the class as far as its name
and its variables go, not on the other subroutines.  So the code of a class is made of the codes of
classes with one subroutine each.
-/

/-- A label with its number increased by `k`.  The number begins at the first digit. -/
def renumberLabel (k : Nat) (label : String) : String :=
  let stem := label.toList.takeWhile fun c => !c.isDigit
  let digits := label.toList.dropWhile fun c => !c.isDigit
  match (String.ofList digits).toNat? with
  | some n => String.ofList stem ++ Nat.repr (n + k)
  | none => label

/-- Increase the number of the label that a command sets or to which it jumps. -/
def Command.renumber (k : Nat) : Command → Command
  | .label name => .label (renumberLabel k name)
  | goto name => goto (renumberLabel k name)
  | ifGoto name => ifGoto (renumberLabel k name)
  | other => other

/-- The label of the same family whose number is greater by `k`. -/
def LabelName.shift (k : Nat) (l : LabelName) : LabelName := ⟨l.family, l.number + k⟩

/-- The text of a label is renumbered to that of the label with the new number. -/
theorem renumberLabel_text (k : Nat) (l : LabelName) :
    renumberLabel k l.text = (l.shift k).text := by
  have stem : ∀ c ∈ l.family.stem.toList, (!c.isDigit) = true := by
    rw [← List.all_eq_true]
    cases l.family <;> decide
  have noStem : (Nat.repr l.number).toList.takeWhile (fun c => !c.isDigit) = [] ∧
      (Nat.repr l.number).toList.dropWhile (fun c => !c.isDigit) = (Nat.repr l.number).toList := by
    rw [Nat.repr_eq_ofList_toDigits, String.toList_ofList]
    cases digits : Nat.toDigits 10 l.number with
    | nil => exact ⟨rfl, rfl⟩
    | cons first rest =>
        have isDigit : first.isDigit = true := by
          apply Nat.isDigit_of_mem_toDigits (b := 10) (n := l.number) (by decide) (by decide)
          rw [digits]
          exact List.mem_cons_self
        rw [List.takeWhile_cons, List.dropWhile_cons, isDigit]
        exact ⟨rfl, rfl⟩
  rw [renumberLabel, LabelName.text, String.toList_append, List.takeWhile_append_of_pos stem,
    List.dropWhile_append_of_pos stem, noStem.1, noStem.2, List.append_nil]
  simp only [String.ofList_toList, Nat.toNat?_repr]
  rfl

/-- Straight code has no label numbers. -/
theorem map_renumber_eq_self (k : Nat) {commands : List Command}
    (straight : commands.all Command.isStraight = true) :
    commands.map (Command.renumber k) = commands := by
  rw [List.all_eq_true] at straight
  refine (List.map_congr_left fun c member => ?_).trans (List.map_id commands)
  cases c with
  | label name => exact absurd (straight _ member) Bool.false_ne_true
  | goto name => exact absurd (straight _ member) Bool.false_ne_true
  | ifGoto name => exact absurd (straight _ member) Bool.false_ne_true
  | _ => rfl

/-! ## Statements -/

variable {names : Names} {f g : Frame} {finish : LabelName} {k : Nat}

mutual

/-- With more label numbers in front, the labels of a statement have greater numbers. -/
theorem Statement.code_add (sameClass : g.className = f.className)
    (endIs : f.endLabel = finish.text) (endIs' : g.endLabel = (finish.shift k).text)
    (s : Statement) (tail : Bool) (n : Nat) :
    s.code names g tail (n + k) = (s.code names f tail n).map (Command.renumber k) := by
  have name (family : LabelFamily) :
      renumberLabel k (LabelName.mk family n).text = (LabelName.mk family (n + k)).text :=
    renumberLabel_text k ⟨family, n⟩
  cases s with
  | letVariable target value =>
      simp only [Statement.code, sameClass, map_renumber_eq_self k (letVariable_straight _ _)]
  | letElement array index value =>
      simp only [Statement.code, sameClass, map_renumber_eq_self k (letElement_straight _ _ _)]
  | ifThen condition thenBlock =>
      have ifFalse : renumberLabel k (Code.ifFalseLabel n) = Code.ifFalseLabel (n + k) :=
        name .ifFalse
      have inThen := thenBlock.code_add sameClass endIs endIs' false (n + 1)
      rw [Nat.add_right_comm] at inThen
      simp only [Statement.code, sameClass, inThen, List.map_append, List.map_cons, List.map_nil,
        map_renumber_eq_self k condition.code_straight, Command.renumber, ifFalse]
  | ifElse condition thenBlock elseBlock =>
      have ifFalse : renumberLabel k (Code.ifFalseLabel n) = Code.ifFalseLabel (n + k) :=
        name .ifFalse
      have ifEnd : renumberLabel k (Code.ifEndLabel n) = Code.ifEndLabel (n + k) := name .ifEnd
      have inThen := thenBlock.code_add sameClass endIs endIs' false (n + 1)
      have inElse := elseBlock.code_add sameClass endIs endIs' false (n + 1 + thenBlock.labels)
      rw [Nat.add_right_comm] at inThen
      rw [Nat.add_right_comm, Nat.add_right_comm n 1 k] at inElse
      simp only [Statement.code, sameClass, inThen, inElse, List.map_append, List.map_cons,
        List.map_nil, map_renumber_eq_self k condition.code_straight, Command.renumber, ifFalse,
        ifEnd]
  | whileLoop condition block =>
      have start : renumberLabel k (Code.whileLabel n) = Code.whileLabel (n + k) :=
        name .whileStart
      have leave : renumberLabel k (Code.whileEndLabel n) = Code.whileEndLabel (n + k) :=
        name .whileEnd
      have inBlock := block.code_add sameClass endIs endIs' false (n + 1)
      rw [Nat.add_right_comm] at inBlock
      simp only [Statement.code, sameClass, inBlock, List.map_append, List.map_cons, List.map_nil,
        map_renumber_eq_self k condition.code_straight, Command.renumber, start, leave]
  | doCall c => simp only [Statement.code, sameClass, map_renumber_eq_self k (doCall_straight _)]
  | returnValue value =>
      have finish : renumberLabel k f.endLabel = g.endLabel := by
        rw [endIs, endIs', renumberLabel_text]
      cases value with
      | none => cases tail <;> simp [Statement.code, Command.renumber, finish]
      | some e =>
          cases tail <;> simp [Statement.code, Command.renumber, finish, sameClass,
            map_renumber_eq_self k e.code_straight]

/-- The code of statements behind more label numbers is the same code with its numbers raised.  The
label at the end of the subroutine is raised with them. -/
theorem Statements.code_add (sameClass : g.className = f.className)
    (endIs : f.endLabel = finish.text) (endIs' : g.endLabel = (finish.shift k).text)
    (ss : Statements) (tail : Bool) (n : Nat) :
    ss.code names g tail (n + k) = (ss.code names f tail n).map (Command.renumber k) := by
  cases ss with
  | nil => rfl
  | cons first rest =>
      have inRest := rest.code_add sameClass endIs endIs' tail (n + first.labels)
      rw [Nat.add_right_comm] at inRest
      rw [Statements.code, Statements.code, List.map_append,
        first.code_add sameClass endIs endIs', inRest]

end

/-! ## Subroutines -/

/-- With more label numbers in front, the labels of a subroutine have greater numbers, and nothing
else changes. -/
theorem Subroutine.code_add (options : Options) (c : ClassTree) (n k : Nat) (s : Subroutine) :
    s.code options c (n + k) = (s.code options c n).map (Command.renumber k) := by
  have finish : renumberLabel k (Code.endLabel n) = Code.endLabel (n + k) :=
    renumberLabel_text k ⟨.finish, n⟩
  have labelled : (if s.labelled options then [Command.label (Code.endLabel n)] else []).map
      (Command.renumber k) =
        if s.labelled options then [.label (Code.endLabel (n + k))] else [] := by
    split
    · rw [List.map_singleton, Command.renumber, finish]
    · rfl
  have start : (s.start c).renumber k = s.start c := rfl
  have last : [Command.«return»].map (Command.renumber k) = [.«return»] := rfl
  have sameClass : (c.frame options (n + k)).className = (c.frame options n).className := rfl
  have endIs : (c.frame options n).endLabel = (LabelName.mk .finish n).text := rfl
  have endIs' : (c.frame options (n + k)).endLabel = ((LabelName.mk .finish n).shift k).text := rfl
  have statements :
      s.statements.code (c.namesIn s) (c.frame options (n + k)) options.foldTailReturn
          (n + 1 + k) =
        (s.statements.code (c.namesIn s) (c.frame options n) options.foldTailReturn (n + 1)).map
          (Command.renumber k) :=
    s.statements.code_add sameClass endIs endIs' options.foldTailReturn (n + 1)
  rw [Nat.add_right_comm] at statements
  simp only [Subroutine.code_eq_inner, Subroutine.inner, List.map_cons, List.map_append, start,
    last, labelled, statements, map_renumber_eq_self k (s.prologue_straight c),
    map_renumber_eq_self k s.closing_straight]

/-! ## Classes -/

/-- The class of the same name, with the same variables and with only one subroutine. -/
def ClassTree.only (c : ClassTree) (s : Subroutine) : ClassTree := { c with subroutines := [s] }

/-- The code of a class with one subroutine is the code of that subroutine. -/
theorem ClassTree.code_only (options : Options) (c : ClassTree) (s : Subroutine) :
    (c.only s).code options = s.code options c 0 := by
  rw [ClassTree.code, ClassTree.only, subroutinesCode, subroutinesCode, List.append_nil]
  rfl

/-- A class is acceptable if each of its subroutines is, alone in the class. -/
theorem ClassTree.acceptable_iff_only {options : Options} {c : ClassTree}
    (notEmpty : c.subroutines ≠ []) :
    c.Acceptable options ↔ ∀ s ∈ c.subroutines, (c.only s).Acceptable options := by
  have alone (s : Subroutine) : (c.only s).Acceptable options ↔
      Declarable options c.declarations ∧ s.Acceptable options c :=
    and_congr_right' List.forall_mem_singleton
  simp only [alone]
  constructor
  · intro acceptable s member
    exact ⟨acceptable.1, acceptable.2 s member⟩
  · intro all
    rcases List.exists_mem_of_ne_nil _ notEmpty with ⟨s, member⟩
    exact ⟨(all s member).1, fun s member => (all s member).2⟩

/-- The code of subroutines is made of the code that each of them has alone, with its numbers raised
by those in front. -/
theorem subroutinesCode_eq_renumber (options : Options) (c : ClassTree) (n : Nat)
    (subroutines : List Subroutine) :
    subroutinesCode options c n subroutines = subroutines.zipIdx.flatMap fun (s, i) =>
      (s.code options c 0).map
        (Command.renumber (n + ((subroutines.take i).map Subroutine.labels).sum)) := by
  induction subroutines generalizing n with
  | nil => rfl
  | cons s rest inductionHypothesis =>
      have first := s.code_add options c 0 n
      rw [Nat.zero_add] at first
      rw [subroutinesCode, inductionHypothesis, first, List.zipIdx_cons, List.flatMap_cons,
        List.zipIdx_succ, List.flatMap_map]
      simp only [List.take_zero, List.map_nil, List.sum_nil, Nat.add_zero, List.take_succ_cons,
        List.map_cons, List.sum_cons, Nat.add_assoc]

/-- The code of a class is made of the codes of classes with one subroutine each, with the numbers
of the labels increased. -/
theorem ClassTree.code_eq_renumber (options : Options) (c : ClassTree) :
    c.code options = c.subroutines.zipIdx.flatMap fun (s, i) =>
      ((c.only s).code options).map
        (Command.renumber ((c.subroutines.take i).map Subroutine.labels).sum) := by
  simp only [ClassTree.code_only]
  rw [ClassTree.code, subroutinesCode_eq_renumber]
  simp only [Nat.zero_add]

end Jack
