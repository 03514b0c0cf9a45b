import Mathlib.Data.List.Nodup
import Mathlib.Data.List.SplitBy
import Jack.Proofs.Translation.TailReturn

namespace Jack

/-!
# Labels belong to a function

The code of a class falls into functions, one for each subroutine.  A label is set at one place of
the whole code, and only the function in which it is set jumps to it.  If the jump of a last
`return` is left out, all labels are needed; otherwise every function has a label at its end.
-/

variable {options : Options} {c : ClassTree} {n : Nat} {s : Subroutine}

/-! ## One function -/

theorem label_mem_of_mem_labelsOf {commands : List Command} {label : String}
    (member : label ∈ labelsOf commands) : .label label ∈ commands := by
  rcases List.mem_filterMap.mp member with ⟨command, inside, set⟩
  cases command with
  | label name => rwa [← Option.some.inj set]
  | _ => cases set

/-- A command that jumps to a label is a mark. -/
theorem Subroutine.exists_mark_of_target {jump : Command} {label : String}
    (member : jump ∈ s.code options c n) (target : jump.target? = some label) :
    ∃ conditional l, jump = (Mark.jump conditional l).command ∧ l.text = label ∧
      .jump conditional l ∈ s.marks options n := by
  have isMark : jump.isMark = true := by
    cases jump with
    | goto name => rfl
    | ifGoto name => rfl
    | _ => cases target
  have inMarks : jump ∈ marksOf (s.code options c n) := List.mem_filter.mpr ⟨member, isMark⟩
  rw [s.marksOf_code, List.mem_map] at inMarks
  rcases inMarks with ⟨a, found, rfl⟩
  match a with
  | .set l => cases target
  | .jump true l => exact ⟨true, l, rfl, Option.some.inj target, found⟩
  | .jump false l => exact ⟨false, l, rfl, Option.some.inj target, found⟩

/-- A subroutine sets the labels to which it jumps. -/
theorem Subroutine.label_mem_code {conditional : Bool} {l : LabelName}
    (member : .jump conditional l ∈ s.marks options n) :
    .label l.text ∈ s.code options c n := by
  apply label_mem_of_mem_labelsOf
  rw [s.labelsOf_code, List.mem_append]
  rw [Subroutine.marks, List.mem_append] at member
  rcases member with inStatements | atEnd
  · rcases s.statements.name_mem_labelNames _ (n + 1) inStatements with same | inside
    · cases same
      have jumps := (s.statements.jump_finish_mem_marks rfl _ (n + 1)).mp inStatements
      right
      rw [Subroutine.labelled, jumps, Bool.true_or, if_pos rfl]
      exact List.mem_singleton.mpr rfl
    · exact .inl (List.mem_map_of_mem inside)
  · split at atEnd
    · cases List.mem_singleton.mp atEnd
    · cases atEnd

/-- If the jump of a last `return` is left out, there is a jump to each label. -/
theorem Subroutine.exists_target_of_label (fold : options.foldTailReturn = true) {label : String}
    (member : label ∈ labelsOf (s.code options c n)) :
    ∃ jump ∈ s.code options c n, jump.target? = some label := by
  have target (conditional : Bool) (l : LabelName) :
      (Mark.jump conditional l).command.target? = some l.text := by
    cases conditional <;> rfl
  have found (conditional : Bool) (l : LabelName)
      (inMarks : .jump conditional l ∈
        s.statements.marks ⟨.finish, n⟩ options.foldTailReturn (n + 1)) :
      ∃ jump ∈ s.code options c n, jump.target? = some l.text :=
    ⟨_, (s.mem_code_iff options c n _).mpr (List.mem_append_left _ inMarks), target conditional l⟩
  rw [s.labelsOf_code, List.mem_append] at member
  rcases member with inStatements | atEnd
  · rcases List.mem_map.mp inStatements with ⟨l, inside, rfl⟩
    rcases s.statements.exists_jump_mem_marks _ (n + 1) inside with ⟨conditional, inMarks⟩
    exact found conditional l inMarks
  · rw [Subroutine.labelled, fold, Bool.not_true, Bool.or_false] at atEnd
    split at atEnd
    · rename_i jumps
      rw [List.mem_singleton.mp atEnd]
      apply found false ⟨.finish, n⟩
      rw [fold]
      exact (s.statements.jump_finish_mem_marks rfl true (n + 1)).mpr jumps
    · cases atEnd

/-- If no jump is left out, a subroutine has one label at its end. -/
theorem Subroutine.endLabels_code (noFold : options.foldTailReturn = false) :
    (labelsOf (s.code options c n)).filter isEndLabel = [Code.endLabel n] := by
  have labelled : s.labelled options = true := by
    rw [Subroutine.labelled, noFold]
    exact Bool.or_true _
  have isEnd : isEndLabel (Code.endLabel n) = true := isEndLabel_text ⟨.finish, n⟩
  have noEnd : ((s.statements.labelNames (n + 1)).map LabelName.text).filter isEndLabel = [] := by
    rw [List.filter_eq_nil_iff]
    intro name member
    rcases List.mem_map.mp member with ⟨l, inside, rfl⟩
    rw [isEndLabel_text, decide_eq_true_eq]
    exact s.statements.family_ne_finish (n + 1) inside
  rw [s.labelsOf_code, labelled, if_pos rfl, List.filter_append, noEnd, List.filter_singleton,
    isEnd]
  rfl

/-- A jump leads to an earlier command exactly if it leads from the end of a loop to its start. -/
theorem Subroutine.earlier_iff {i j : Nat} {conditional : Bool} {l : LabelName}
    (jumps : (s.code options c n)[i]? = some (Mark.jump conditional l).command)
    (sets : (s.code options c n)[j]? = some (.label l.text)) :
    j < i ↔ conditional = false ∧ l.family = .whileStart := by
  have inMarks : ((s.marks options n).map Mark.command).Pairwise fun x y =>
      ∀ a b : Mark, x = a.command → y = b.command → a.InOrder b := by
    refine List.pairwise_map.mpr ((s.pairwise_marks options n).imp fun inOrder a b same same' => ?_)
    rwa [← Mark.command_inj same, ← Mark.command_inj same']
  rw [← s.marksOf_code options c, marksOf, List.pairwise_filter,
    List.pairwise_iff_getElem] at inMarks
  rcases List.getElem?_eq_some_iff.mp jumps with ⟨bound, jumpAt⟩
  rcases List.getElem?_eq_some_iff.mp sets with ⟨bound', labelAt⟩
  have jumpIsMark : ((s.code options c n)[i]).isMark = true := by
    rw [jumpAt]
    exact Command.isMark_command _
  have labelIsMark : ((s.code options c n)[j]).isMark = true := by
    rw [labelAt]
    rfl
  constructor
  · intro less
    exact inMarks j i bound' bound less labelIsMark jumpIsMark (.set l) (.jump conditional l)
      labelAt jumpAt rfl
  · rintro ⟨-, start⟩
    rcases Nat.lt_trichotomy i j with less | rfl | less
    · exact absurd start (inMarks i j bound bound' less jumpIsMark labelIsMark
        (.jump conditional l) (.set l) jumpAt labelAt rfl)
    · rw [jumps] at sets
      cases conditional <;> cases sets
    · exact less

/-! ## The functions of a class -/

/-- The command starts a function. -/
def Command.isFunction : Command → Bool
  | function _ _ => true
  | _ => false

/-- The functions of a listing.  Each reaches from its `function` command to the next one. -/
def functionsOf (commands : List Command) : List (List Command) :=
  commands.splitBy fun _ c => !c.isFunction

/-- Only the first command of the code of a subroutine starts a function. -/
theorem Subroutine.code_eq_cons (options : Options) (c : ClassTree) (n : Nat) (s : Subroutine) :
    ∃ rest, s.code options c n = s.start c :: rest ∧
      ∀ command ∈ rest, command.isFunction = false := by
  refine ⟨_, s.code_eq_inner options c n, fun command member => ?_⟩
  have inner := List.all_eq_true.mp (s.inner_isInner options c n)
  rcases List.mem_append.mp member with inside | last
  · have isInner := inner command inside
    cases command with
    | function name locals => cases isInner
    | _ => rfl
  · rw [List.mem_singleton.mp last]
    rfl

/-- The functions of the code of a class are those of its subroutines. -/
theorem ClassTree.functionsOf_code (options : Options) (c : ClassTree) :
    functionsOf (c.code options) = c.numbered.map fun block => block.2.code options c block.1 := by
  rw [c.code_eq_flatMap, List.flatMap_def, functionsOf]
  have parts : ∀ part ∈ c.numbered.map fun block => block.2.code options c block.1,
      ∃ first rest, part = first :: rest ∧ first.isFunction = true ∧
        ∀ command ∈ rest, command.isFunction = false := by
    intro part member
    rcases List.mem_map.mp member with ⟨⟨n, s⟩, -, rfl⟩
    rcases s.code_eq_cons options c n with ⟨rest, code, inside⟩
    exact ⟨s.start c, rest, code, rfl, inside⟩
  apply List.splitBy_flatten
  · intro empty
    rcases parts [] empty with ⟨first, rest, same, -⟩
    cases same
  · intro part member
    rcases parts part member with ⟨first, rest, rfl, -, inside⟩
    refine (List.pairwise_cons.mpr ⟨fun command found => ?_,
      List.pairwise_of_forall_mem_list fun _ _ command found => ?_⟩).isChain
    · rw [inside command found]
      rfl
    · rw [inside command found]
      rfl
  · refine (List.pairwise_of_forall_mem_list fun part member part' member' => ?_).isChain
    rcases parts part member with ⟨first, rest, rfl, -⟩
    rcases parts part' member' with ⟨first', rest', rfl, isFunction, -⟩
    refine ⟨List.cons_ne_nil _ _, List.cons_ne_nil _ _, ?_⟩
    rw [List.head_cons, isFunction]
    rfl

/-- The labels of a subroutine carry the numbers that it takes. -/
theorem Subroutine.number_of_mem_labelsOf {label : String}
    (member : label ∈ labelsOf (s.code options c n)) :
    ∃ l : LabelName, l.text = label ∧ n ≤ l.number ∧ l.number < n + s.labels := by
  rw [s.labelsOf_code, List.mem_append] at member
  rw [Subroutine.labels]
  rcases member with inStatements | atEnd
  · rcases List.mem_map.mp inStatements with ⟨l, inside, rfl⟩
    have bounds := s.statements.number_mem_labelNames (n + 1) inside
    exact ⟨l, rfl, by omega, by omega⟩
  · split at atEnd
    · exact ⟨⟨.finish, n⟩, (List.mem_singleton.mp atEnd).symm, Nat.le_refl n,
        Nat.lt_add_of_pos_right (Nat.succ_pos _)⟩
    · cases atEnd

/-- No label is set twice in the code of a class. -/
theorem ClassTree.labelsOf_nodup (options : Options) (c : ClassTree) :
    (labelsOf (c.code options)).Nodup := by
  rw [c.code_eq_flatMap, labelsOf, List.filterMap_flatMap, List.nodup_flatMap]
  refine ⟨fun block _ => block.2.labelsOf_nodup options c block.1,
    (pairwise_numberedBehind 0 c.subroutines).imp fun apart label member member' => ?_⟩
  rcases Subroutine.number_of_mem_labelsOf member with ⟨l, rfl, -, less⟩
  rcases Subroutine.number_of_mem_labelsOf member' with ⟨l', same, notLess, -⟩
  rw [LabelName.text_inj same] at notLess
  exact Nat.lt_irrefl _ (Nat.lt_of_lt_of_le less (Nat.le_trans apart notLess))

end Jack
