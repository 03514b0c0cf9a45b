import Std.Data.String.ToNat
import Jack.Proofs.Translation.Blocks

namespace Jack

/-!
# Labels

A label belongs to one of five families and carries a number.  The text of a label tells both, so
labels with different numbers are different.  The numbers are given away in order, so that no label
is set twice in the code of a subroutine (`Subroutine.labelsOf_nodup`).
-/

/-- What a label is for. -/
inductive LabelFamily
  /-- The end of a subroutine. -/
  | finish
  | ifFalse
  | ifEnd
  | whileStart
  | whileEnd
deriving DecidableEq

/-- What the text of a label begins with.  No stem ends with a digit. -/
def LabelFamily.stem : LabelFamily → String
  | finish => "RETURN"
  | ifFalse => "IF_FALSE"
  | ifEnd => "IF_END"
  | whileStart => "WHILE_EXP"
  | whileEnd => "WHILE_END"

/-- A label apart from its text. -/
structure LabelName where
  family : LabelFamily
  number : Nat
deriving DecidableEq

namespace LabelName

/-- The text of a label: its stem, and its number in decimal digits without leading zeros. -/
def text (l : LabelName) : String := l.family.stem ++ Nat.repr l.number

/-- No stem continues another one. -/
theorem family_eq_of_append_eq {f g : LabelFamily} {a b : List Char}
    (same : f.stem.toList ++ a = g.stem.toList ++ b) : f = g := by
  cases f <;> cases g <;> first
    | rfl
    | simp [LabelFamily.stem] at same

/-- Different labels have different texts. -/
theorem text_inj {l l' : LabelName} (same : l.text = l'.text) : l = l' := by
  rcases l with ⟨f, n⟩
  rcases l' with ⟨g, m⟩
  have family : f = g := by
    apply family_eq_of_append_eq (a := (Nat.repr n).toList) (b := (Nat.repr m).toList)
    rw [← String.toList_append, ← String.toList_append]
    exact congrArg String.toList same
  subst family
  have number : n = m := Nat.repr_injective ((String.append_right_inj f.stem).mp same)
  rw [number]

end LabelName

mutual

/-- The labels in the code of a statement behind `n` label numbers, in their order. -/
def Statement.labelNames (n : Nat) : Statement → List LabelName
  | .letVariable _ _ => []
  | .letElement _ _ _ => []
  | .ifThen _ thenBlock => thenBlock.labelNames (n + 1) ++ [⟨.ifFalse, n⟩]
  | .ifElse _ thenBlock elseBlock =>
    thenBlock.labelNames (n + 1) ++ ⟨.ifFalse, n⟩ ::
      (elseBlock.labelNames (n + 1 + thenBlock.labels) ++ [⟨.ifEnd, n⟩])
  | .whileLoop _ block =>
    ⟨.whileStart, n⟩ :: (block.labelNames (n + 1) ++ [⟨.whileEnd, n⟩])
  | .doCall _ => []
  | .returnValue _ => []

/-- The labels in the code of statements, each statement behind the numbers of those before. -/
def Statements.labelNames (n : Nat) : Statements → List LabelName
  | .nil => []
  | .cons first rest => first.labelNames n ++ rest.labelNames (n + first.labels)

end

mutual

/-- The labels of a statement carry the numbers that it takes. -/
theorem Statement.number_mem_labelNames (s : Statement) (n : Nat) {l : LabelName}
    (member : l ∈ s.labelNames n) : n ≤ l.number ∧ l.number < n + s.labels := by
  cases s with
  | ifThen condition thenBlock =>
      rw [Statement.labels]
      rw [Statement.labelNames, List.mem_append, List.mem_singleton] at member
      rcases member with inThen | rfl
      · have bounds := thenBlock.number_mem_labelNames (n + 1) inThen
        omega
      · exact ⟨Nat.le_refl n, Nat.lt_add_of_pos_right (Nat.succ_pos _)⟩
  | ifElse condition thenBlock elseBlock =>
      rw [Statement.labels]
      rw [Statement.labelNames, List.mem_append, List.mem_cons, List.mem_append,
        List.mem_singleton] at member
      rcases member with inThen | rfl | inElse | rfl
      · have bounds := thenBlock.number_mem_labelNames (n + 1) inThen
        omega
      · exact ⟨Nat.le_refl n, Nat.lt_add_of_pos_right (Nat.succ_pos _)⟩
      · have bounds := elseBlock.number_mem_labelNames (n + 1 + thenBlock.labels) inElse
        omega
      · exact ⟨Nat.le_refl n, Nat.lt_add_of_pos_right (Nat.succ_pos _)⟩
  | whileLoop condition block =>
      rw [Statement.labels]
      rw [Statement.labelNames, List.mem_cons, List.mem_append, List.mem_singleton] at member
      rcases member with rfl | inBlock | rfl
      · exact ⟨Nat.le_refl n, Nat.lt_add_of_pos_right (Nat.succ_pos _)⟩
      · have bounds := block.number_mem_labelNames (n + 1) inBlock
        omega
      · exact ⟨Nat.le_refl n, Nat.lt_add_of_pos_right (Nat.succ_pos _)⟩
  | _ => cases member

/-- The numbers of the labels are those that the statements take. -/
theorem Statements.number_mem_labelNames (ss : Statements) (n : Nat) {l : LabelName}
    (member : l ∈ ss.labelNames n) : n ≤ l.number ∧ l.number < n + ss.labels := by
  cases ss with
  | nil => cases member
  | cons first rest =>
      rw [Statements.labels]
      rw [Statements.labelNames, List.mem_append] at member
      rcases member with inFirst | inRest
      · have bounds := first.number_mem_labelNames n inFirst
        omega
      · have bounds := rest.number_mem_labelNames (n + first.labels) inRest
        omega

end

/-- Labels with separate ranges of numbers are different. -/
theorem nodup_append_of_number_lt {first second : List LabelName} {bound : Nat}
    (nodup : first.Nodup) (nodup' : second.Nodup) (below : ∀ l ∈ first, l.number < bound)
    (above : ∀ l ∈ second, bound ≤ l.number) : (first ++ second).Nodup := by
  rw [List.nodup_append]
  refine ⟨nodup, nodup', fun l member l' member' same => ?_⟩
  have less := below l member
  have more := above l' member'
  rw [same] at less
  exact Nat.lt_irrefl _ (Nat.lt_of_lt_of_le less more)

/-- A label with a smaller number is not among labels from a number on. -/
theorem not_mem_of_number_lt {l : LabelName} {labels : List LabelName} {bound : Nat}
    (less : l.number < bound) (above : ∀ l' ∈ labels, bound ≤ l'.number) : l ∉ labels :=
  fun member => Nat.lt_irrefl _ (Nat.lt_of_lt_of_le less (above l member))

theorem nodup_append_singleton {l : LabelName} {labels : List LabelName} (nodup : labels.Nodup)
    (outside : l ∉ labels) : (labels ++ [l]).Nodup := by
  rw [List.nodup_append]
  refine ⟨nodup, List.pairwise_singleton _ _, fun l' member l'' isLast same => outside ?_⟩
  rwa [← List.mem_singleton.mp isLast, ← same]

mutual

/-- No label is set twice in a statement.  Those of the blocks have other numbers, and those of the
statement itself other stems. -/
theorem Statement.labelNames_nodup (s : Statement) (n : Nat) : (s.labelNames n).Nodup := by
  cases s with
  | ifThen condition thenBlock =>
      have above := fun l member => (thenBlock.number_mem_labelNames (n + 1) (l := l) member).1
      exact nodup_append_singleton (thenBlock.labelNames_nodup (n + 1))
        (not_mem_of_number_lt (l := ⟨.ifFalse, n⟩) (Nat.lt_succ_self n) above)
  | ifElse condition thenBlock elseBlock =>
      have inThen := fun l member => thenBlock.number_mem_labelNames (n + 1) (l := l) member
      have inElse := fun l member =>
        elseBlock.number_mem_labelNames (n + 1 + thenBlock.labels) (l := l) member
      have small : n < n + 1 + thenBlock.labels := by omega
      have elseEnd : (elseBlock.labelNames (n + 1 + thenBlock.labels) ++
          [LabelName.mk .ifEnd n]).Nodup :=
        nodup_append_singleton (elseBlock.labelNames_nodup _)
          (not_mem_of_number_lt (l := ⟨.ifEnd, n⟩) small fun l member => (inElse l member).1)
      have falseElse : (LabelName.mk .ifFalse n ::
          (elseBlock.labelNames (n + 1 + thenBlock.labels) ++ [LabelName.mk .ifEnd n])).Nodup := by
        refine List.nodup_cons.mpr ⟨?_, elseEnd⟩
        rw [List.mem_append, List.mem_singleton]
        rintro (member | same)
        · exact not_mem_of_number_lt (l := ⟨.ifFalse, n⟩) small
            (fun l member => (inElse l member).1) member
        · cases same
      rw [Statement.labelNames, List.nodup_append]
      refine ⟨thenBlock.labelNames_nodup (n + 1), falseElse, fun l member l' member' same => ?_⟩
      subst same
      have bounds := inThen l member
      rw [List.mem_cons, List.mem_append, List.mem_singleton] at member'
      rcases member' with rfl | member' | rfl
      · exact Nat.not_succ_le_self n bounds.1
      · exact Nat.lt_irrefl _ (Nat.lt_of_lt_of_le bounds.2 (inElse l member').1)
      · exact Nat.not_succ_le_self n bounds.1
  | whileLoop condition block =>
      have above := fun l member => (block.number_mem_labelNames (n + 1) (l := l) member).1
      have blockEnd : (block.labelNames (n + 1) ++ [LabelName.mk .whileEnd n]).Nodup :=
        nodup_append_singleton (block.labelNames_nodup (n + 1))
          (not_mem_of_number_lt (l := ⟨.whileEnd, n⟩) (Nat.lt_succ_self n) above)
      refine List.nodup_cons.mpr ⟨?_, blockEnd⟩
      rw [List.mem_append, List.mem_singleton]
      rintro (member | same)
      · exact not_mem_of_number_lt (l := ⟨.whileStart, n⟩) (Nat.lt_succ_self n) above member
      · cases same
  | _ => exact List.nodup_nil

/-- No label is set twice in statements, since their numbers are different. -/
theorem Statements.labelNames_nodup (ss : Statements) (n : Nat) : (ss.labelNames n).Nodup := by
  cases ss with
  | nil => exact List.nodup_nil
  | cons first rest =>
      exact nodup_append_of_number_lt (first.labelNames_nodup n)
        (rest.labelNames_nodup (n + first.labels))
        (fun l member => (first.number_mem_labelNames n member).2)
        (fun l member => (rest.number_mem_labelNames (n + first.labels) member).1)

end

/-- The labels of a subroutine are different, also from the one at its end. -/
theorem Statements.labelNames_nodup_finish (ss : Statements) (n : Nat) :
    (ss.labelNames (n + 1) ++ [LabelName.mk .finish n]).Nodup :=
  nodup_append_singleton (ss.labelNames_nodup (n + 1))
    (not_mem_of_number_lt (l := ⟨.finish, n⟩) (Nat.lt_succ_self n)
      fun l member => (ss.number_mem_labelNames (n + 1) (l := l) member).1)

/-! ## The labels of code -/

/-- The label that a command sets. -/
def Command.label? : Command → Option String
  | label name => some name
  | _ => none

/-- The labels that commands set, in their order. -/
def labelsOf (commands : List Command) : List String :=
  commands.filterMap Command.label?

theorem labelsOf_append (first second : List Command) :
    labelsOf (first ++ second) = labelsOf first ++ labelsOf second :=
  List.filterMap_append

theorem labelsOf_label_cons (label : String) (rest : List Command) :
    labelsOf (.label label :: rest) = label :: labelsOf rest := rfl

/-- Straight code sets no labels. -/
theorem labelsOf_eq_nil {commands : List Command}
    (straight : commands.all Command.isStraight = true) : labelsOf commands = [] := by
  rw [labelsOf, List.filterMap_eq_nil_iff]
  rw [List.all_eq_true] at straight
  intro c member
  cases c with
  | label name => exact absurd (straight _ member) Bool.false_ne_true
  | _ => rfl

/-- A command that sets a label is among the labels. -/
theorem mem_labelsOf {commands : List Command} {label : String}
    (member : .label label ∈ commands) : label ∈ labelsOf commands :=
  List.mem_filterMap.mpr ⟨.label label, member, rfl⟩

variable {names : Names} {f : Frame}

mutual

/-- The code of a statement sets the labels that are listed, in the same order. -/
theorem Statement.labelsOf_code (s : Statement) (tail : Bool) (n : Nat) :
    labelsOf (s.code names f tail n) = (s.labelNames n).map LabelName.text := by
  cases s with
  | letVariable target value => exact labelsOf_eq_nil (letVariable_straight target value)
  | letElement array index value => exact labelsOf_eq_nil (letElement_straight array index value)
  | ifThen condition thenBlock =>
      simp only [Statement.code, Statement.labelNames, labelsOf_append, thenBlock.labelsOf_code,
        labelsOf_eq_nil condition.code_straight, List.map_append]
      rfl
  | ifElse condition thenBlock elseBlock =>
      simp only [Statement.code, Statement.labelNames, labelsOf_append, thenBlock.labelsOf_code,
        elseBlock.labelsOf_code, labelsOf_eq_nil condition.code_straight, List.map_append,
        List.map_cons, List.append_assoc]
      rfl
  | whileLoop condition block =>
      simp only [Statement.code, Statement.labelNames, labelsOf_append, block.labelsOf_code,
        labelsOf_label_cons, labelsOf_eq_nil condition.code_straight, List.map_append,
        List.map_cons]
      rfl
  | doCall c => exact labelsOf_eq_nil (doCall_straight c)
  | returnValue value =>
      cases value with
      | none => cases tail <;> rfl
      | some e =>
          rw [Statement.code, labelsOf_append, labelsOf_eq_nil e.code_straight]
          cases tail <;> rfl

/-- The same of statements. -/
theorem Statements.labelsOf_code (ss : Statements) (tail : Bool) (n : Nat) :
    labelsOf (ss.code names f tail n) = (ss.labelNames n).map LabelName.text := by
  cases ss with
  | nil => rfl
  | cons first rest =>
      rw [Statements.code, Statements.labelNames, labelsOf_append, first.labelsOf_code,
        rest.labelsOf_code, List.map_append]

end

/-- The labels of a subroutine are those of its statements and perhaps the one at its end. -/
theorem Subroutine.labelsOf_code (options : Options) (c : ClassTree) (n : Nat) (s : Subroutine) :
    labelsOf (s.code options c n) = (s.statements.labelNames (n + 1)).map LabelName.text ++
      if s.labelled options then [Code.endLabel n] else [] := by
  have finish (labelled : Bool) :
      labelsOf (if labelled then [.label (Code.endLabel n)] else []) =
        if labelled then [Code.endLabel n] else [] := by
    cases labelled <;> rfl
  have start (rest : List Command) : labelsOf (s.start c :: rest) = labelsOf rest := rfl
  have last : labelsOf [.«return»] = [] := rfl
  simp only [Subroutine.code_eq_inner, start, Subroutine.inner, labelsOf_append, last, finish,
    labelsOf_eq_nil (s.prologue_straight c), labelsOf_eq_nil s.closing_straight,
    s.statements.labelsOf_code, List.nil_append, List.append_nil]

/-- No label is set twice in the code of a subroutine. -/
theorem Subroutine.labelsOf_nodup (options : Options) (c : ClassTree) (n : Nat) (s : Subroutine) :
    (labelsOf (s.code options c n)).Nodup := by
  have texts : ((s.statements.labelNames (n + 1) ++ [LabelName.mk .finish n]).map
      LabelName.text).Nodup :=
    List.pairwise_map.mpr
      ((s.statements.labelNames_nodup_finish n).imp fun different same =>
        different (LabelName.text_inj same))
  rw [List.map_append] at texts
  rw [Subroutine.labelsOf_code]
  split
  · exact texts
  · exact texts.sublist ((List.nil_sublist _).append_left _)

end Jack
