import Mathlib.Data.List.Count
import Mathlib.Data.List.Nodup
import Jack.Proofs.Translation.Targets

namespace Jack

/-!
# Jumps to the next command

A `return` jumps to the end of its subroutine.  If nothing stands between, the jump leads to the
next command, and if no jump is left, the label is of no use.  The code of a class in which no jump
is left out becomes the code in which the jump of a last `return` is left out when just these jumps
and labels are deleted (`ClassTree.foldTailReturn_code`).  All other `return` statements, at
whatever depth they stand, keep their jump (`Subroutine.count_goto_code`).
-/

/-- The label stands at the end of a subroutine: its text begins with `RETURN`. -/
def isEndLabel (name : String) : Bool := "RETURN".toList.isPrefixOf name.toList

/-- Among the labels of the compiler, those at the end of a subroutine are told by their texts. -/
theorem isEndLabel_text (l : LabelName) : isEndLabel l.text = decide (l.family = .finish) := by
  rcases l with ⟨family, number⟩
  rw [isEndLabel, LabelName.text, String.toList_append]
  cases family <;> simp [LabelFamily.stem, List.isPrefixOf]

/-! ## Deleting jumps and labels -/

/-- The command jumps to the end of a subroutine, which is the next command. -/
def isIdle (c : Command) (behind : List Command) : Bool :=
  match c, behind with
  | .goto name, .label here :: _ => name = here && isEndLabel name
  | _, _ => false

/-- The commands without jumps to the end of a subroutine that is the next command. -/
def withoutIdleJumps : List Command → List Command
  | [] => []
  | c :: behind =>
    if isIdle c behind then withoutIdleJumps behind else c :: withoutIdleJumps behind

/-- The command is not the label at the end of a subroutine, or there is a jump to it. -/
def isLive (commands : List Command) : Command → Bool
  | .label name => !isEndLabel name || commands.contains (.goto name)
  | _ => true

/-- The commands without labels at the end of a subroutine to which nothing jumps. -/
def withoutDeadEnds (commands : List Command) : List Command :=
  commands.filter (isLive commands)

/-- Leave out jumps that lead to the next command, then labels to which no jump is left. -/
def foldTailReturn (commands : List Command) : List Command :=
  withoutDeadEnds (withoutIdleJumps commands)

/-- An idle jump stands right in front of its label. -/
theorem isIdle_eq_true_iff {c : Command} {behind : List Command} :
    isIdle c behind = true ↔ ∃ name rest, c = .goto name ∧ behind = .label name :: rest ∧
      isEndLabel name = true := by
  constructor
  · intro idle
    unfold isIdle at idle
    split at idle
    · rename_i name here rest
      rw [Bool.and_eq_true, decide_eq_true_eq] at idle
      rcases idle with ⟨rfl, isEnd⟩
      exact ⟨name, rest, rfl, rfl, isEnd⟩
    · cases idle
  · rintro ⟨name, rest, rfl, rfl, isEnd⟩
    rw [isIdle, isEnd, Bool.and_true, decide_eq_true_eq]

/-- No jump is deleted where two pieces of code meet, unless the first ends with it and the second
begins with its label. -/
theorem withoutIdleJumps_append {first second : List Command}
    (apart : ∀ name, isEndLabel name = true → second.head? = some (.label name) →
      first.getLast? ≠ some (.goto name)) :
    withoutIdleJumps (first ++ second) = withoutIdleJumps first ++ withoutIdleJumps second := by
  induction first with
  | nil => rfl
  | cons c rest inductionHypothesis =>
      have sameIdle : isIdle c (rest ++ second) = isIdle c rest := by
        cases rest with
        | cons d more => cases c <;> cases d <;> rfl
        | nil =>
            have notIdle : isIdle c second = false := by
              rw [Bool.eq_false_iff]
              intro idle
              rcases isIdle_eq_true_iff.mp idle with ⟨name, behind, rfl, rfl, isEnd⟩
              exact apart name isEnd rfl rfl
            rw [List.nil_append, notIdle]
            cases c <;> rfl
      have behind : withoutIdleJumps (rest ++ second) =
          withoutIdleJumps rest ++ withoutIdleJumps second := by
        apply inductionHypothesis
        intro name isEnd head last
        apply apart name isEnd head
        cases rest with
        | nil => cases last
        | cons d more => rwa [List.getLast?_cons_cons]
      rw [List.cons_append, withoutIdleJumps, withoutIdleJumps, sameIdle, behind]
      split
      · rfl
      · rw [List.cons_append]

/-- Without a label at an end, no jump is deleted. -/
theorem withoutIdleJumps_eq_self {commands : List Command}
    (noEnd : ∀ name ∈ labelsOf commands, isEndLabel name = false) :
    withoutIdleJumps commands = commands := by
  induction commands with
  | nil => rfl
  | cons c rest inductionHypothesis =>
      have notIdle : isIdle c rest = false := by
        rw [Bool.eq_false_iff]
        intro idle
        rcases isIdle_eq_true_iff.mp idle with ⟨name, behind, rfl, rfl, isEnd⟩
        rw [noEnd name (mem_labelsOf (List.mem_cons_of_mem _ List.mem_cons_self))] at isEnd
        cases isEnd
      have behind : ∀ name ∈ labelsOf rest, isEndLabel name = false := by
        intro name member
        apply noEnd name
        exact List.Sublist.mem member ((List.sublist_cons_self c rest).filterMap _)
      rw [withoutIdleJumps, notIdle, if_neg Bool.false_ne_true, inductionHypothesis behind]

/-- A command that is not straight is not among straight ones. -/
theorem not_mem_of_all_isStraight {commands : List Command} {c : Command}
    (straight : commands.all Command.isStraight = true) (notStraight : c.isStraight = false) :
    c ∉ commands := by
  intro member
  rw [List.all_eq_true] at straight
  rw [straight c member] at notStraight
  cases notStraight

/-- Commands that run straight through are kept in front of all others. -/
theorem withoutIdleJumps_straight_append {first : List Command}
    (straight : first.all Command.isStraight = true) (second : List Command) :
    withoutIdleJumps (first ++ second) = first ++ withoutIdleJumps second := by
  have noEnd : ∀ name ∈ labelsOf first, isEndLabel name = false := by
    rw [labelsOf_eq_nil straight]
    exact nofun
  have apart : ∀ name, isEndLabel name = true → second.head? = some (.label name) →
      first.getLast? ≠ some (.goto name) :=
    fun _ _ _ last =>
      not_mem_of_all_isStraight straight rfl (List.mem_of_getLast? last)
  rw [withoutIdleJumps_append apart, withoutIdleJumps_eq_self noEnd]

/-- Where each piece of code ends with a `return` command, each piece can be treated alone. -/
theorem withoutIdleJumps_flatMap {α : Type} (pieces : List α) (code : α → List Command)
    (ends : ∀ piece ∈ pieces, (code piece).getLast? = some .«return») :
    withoutIdleJumps (pieces.flatMap code) =
      pieces.flatMap fun piece => withoutIdleJumps (code piece) := by
  induction pieces with
  | nil => rfl
  | cons first rest inductionHypothesis =>
      have apart : ∀ name, isEndLabel name = true →
          (rest.flatMap code).head? = some (.label name) →
          (code first).getLast? ≠ some (.goto name) := by
        intro name _ _
        rw [ends first List.mem_cons_self]
        simp only [ne_eq, Option.some.injEq, reduceCtorEq, not_false_eq_true]
      rw [List.flatMap_cons, List.flatMap_cons, withoutIdleJumps_append apart,
        inductionHypothesis fun piece member => ends piece (List.mem_cons_of_mem _ member)]

/-! ## Labels and jumps of statements -/

variable {names : Names} {f g : Frame}

/-- The code of a statement sets no label at the end of a subroutine. -/
theorem Statement.noEnd_code (s : Statement) (tail : Bool) (n : Nat) :
    ∀ name ∈ labelsOf (s.code names f tail n), isEndLabel name = false := by
  intro name member
  rw [s.labelsOf_code, List.mem_map] at member
  rcases member with ⟨l, inside, rfl⟩
  rw [isEndLabel_text, decide_eq_false (s.family_ne_finish n inside)]

/-- The same of statements. -/
theorem Statements.noEnd_code (ss : Statements) (tail : Bool) (n : Nat) :
    ∀ name ∈ labelsOf (ss.code names f tail n), isEndLabel name = false := by
  intro name member
  rw [ss.labelsOf_code, List.mem_map] at member
  rcases member with ⟨l, inside, rfl⟩
  rw [isEndLabel_text, decide_eq_false (ss.family_ne_finish n inside)]

mutual

/-- The code of statements does not depend on whether jumps are left out elsewhere. -/
theorem Statement.code_congr (s : Statement) (sameClass : f.className = g.className)
    (sameEnd : f.endLabel = g.endLabel) (tail : Bool) (n : Nat) :
    s.code names f tail n = s.code names g tail n := by
  cases s with
  | letVariable target value => simp only [Statement.code, sameClass]
  | letElement array index value => simp only [Statement.code, sameClass]
  | ifThen condition thenBlock =>
      simp only [Statement.code, sameClass, thenBlock.code_congr sameClass sameEnd]
  | ifElse condition thenBlock elseBlock =>
      simp only [Statement.code, sameClass, thenBlock.code_congr sameClass sameEnd,
        elseBlock.code_congr sameClass sameEnd]
  | whileLoop condition block =>
      simp only [Statement.code, sameClass, block.code_congr sameClass sameEnd]
  | doCall c => simp only [Statement.code, sameClass]
  | returnValue value => simp only [Statement.code, sameClass, sameEnd]

/-- Whether tail returns are folded is known to the code of statements from its parameter alone. -/
theorem Statements.code_congr (ss : Statements) (sameClass : f.className = g.className)
    (sameEnd : f.endLabel = g.endLabel) (tail : Bool) (n : Nat) :
    ss.code names f tail n = ss.code names g tail n := by
  cases ss with
  | nil => rfl
  | cons first rest =>
      rw [Statements.code, Statements.code, first.code_congr sameClass sameEnd,
        rest.code_congr sameClass sameEnd]

end

/-! ## The jump of the last statement -/

/-- The code of the value of a `return` statement, which may have none. -/
def returnedCode (names : Names) (className : String) : Option Expression → List Command
  | some value => value.code names className
  | none => []

/-- A `return` statement pushes its value, if it has any, and jumps unless it stands at the end. -/
theorem Statement.code_returnValue (value : Option Expression) (tail : Bool) (n : Nat) :
    (Statement.returnValue value).code names f tail n =
      returnedCode names f.className value ++ if tail then [] else [.goto f.endLabel] := by
  cases value <;> rfl

theorem returnedCode_straight {className : String} (value : Option Expression) :
    (returnedCode names className value).all Command.isStraight = true := by
  cases value with
  | none => rfl
  | some e => exact e.code_straight

/-- The statement is a `return` statement. -/
def Statement.isReturn : Statement → Bool
  | .returnValue _ => true
  | _ => false

/-- A `return` statement has a value or none. -/
theorem Statement.eq_returnValue {s : Statement} (isReturn : s.isReturn = true) :
    ∃ value, s = .returnValue value := by
  cases s with
  | returnValue value => exact ⟨value, rfl⟩
  | _ => cases isReturn

theorem popName_eq_singleton {name : String} (declared : (names name).isSome = true) :
    ∃ segment index, popName names name = [.pop segment index] := by
  rcases Option.isSome_iff_exists.mp declared with ⟨s, found⟩
  exact ⟨s.kind.segment, s.index, by rw [popName, found]⟩

/-- The code of a statement is not empty, and only that of a `return` ends with a jump. -/
theorem Statement.code_eq_concat (s : Statement) (acceptable : s.Acceptable names) (n : Nat) :
    ∃ front last, s.code names f false n = front ++ [last] ∧
      (s.isReturn = false → s.code names f true n = front ++ [last] ∧
        ∀ name, last ≠ .goto name) := by
  cases s with
  | letVariable target value =>
      rcases popName_eq_singleton acceptable.1 with ⟨segment, index, pop⟩
      refine ⟨value.code names f.className, .pop segment index, ?_, fun _ => ⟨?_, nofun⟩⟩
      · rw [Statement.code, pop]
      · rw [Statement.code, pop]
  | letElement array index value =>
      refine ⟨pushName names array ++ index.code names f.className ++ .arithmetic .add ::
        value.code names f.className ++ [.pop .temp 0, .pop .pointer 1,
          .push .temp 0], .pop .that 0, ?_, fun _ => ⟨?_, nofun⟩⟩
      · rw [Statement.code, storeCommands, List.append_assoc _ _ [Command.pop .that 0]]
        rfl
      · rw [Statement.code, storeCommands, List.append_assoc _ _ [Command.pop .that 0]]
        rfl
  | ifThen condition thenBlock => exact ⟨_, _, rfl, fun _ => ⟨rfl, nofun⟩⟩
  | ifElse condition thenBlock elseBlock => exact ⟨_, _, rfl, fun _ => ⟨rfl, nofun⟩⟩
  | whileLoop condition block =>
      refine ⟨.label (Code.whileLabel n) :: condition.code names f.className ++
        [.arithmetic .not, .ifGoto (Code.whileEndLabel n)] ++ block.code names f false (n + 1) ++
        [.goto (Code.whileLabel n)], .label (Code.whileEndLabel n), ?_, fun _ => ⟨?_, nofun⟩⟩
      · rw [Statement.code, List.append_assoc _ _ [Command.label (Code.whileEndLabel n)]]
        rfl
      · rw [Statement.code, List.append_assoc _ _ [Command.label (Code.whileEndLabel n)]]
        rfl
  | doCall c => exact ⟨_, _, rfl, fun _ => ⟨rfl, nofun⟩⟩
  | returnValue value => exact ⟨_, _, rfl, nofun⟩

/-- Deleting idle jumps from a last statement deletes its jump if it is a `return`, and nothing
otherwise. -/
theorem Statement.withoutIdleJumps_code (s : Statement) (acceptable : s.Acceptable names)
    (isEnd : isEndLabel f.endLabel = true) (n : Nat) (rest : List Command) :
    withoutIdleJumps (s.code names f false n ++ .label f.endLabel :: rest) =
      s.code names f true n ++ .label f.endLabel :: withoutIdleJumps rest := by
  cases isReturn : s.isReturn with
  | false =>
      rcases s.code_eq_concat (f := f) acceptable n with ⟨front, last, code, kept⟩
      rcases kept isReturn with ⟨sameCode, noJump⟩
      have apart : ∀ name, isEndLabel name = true →
          (Command.label f.endLabel :: rest).head? = some (.label name) →
          (s.code names f false n).getLast? ≠ some (.goto name) := by
        intro name _ _ jump
        rw [code, List.getLast?_concat, Option.some.injEq] at jump
        exact noJump name jump
      rw [withoutIdleJumps_append apart, withoutIdleJumps_eq_self (s.noEnd_code false n), code,
        sameCode]
      rfl
  | true =>
      rcases s.eq_returnValue isReturn with ⟨value, rfl⟩
      have deleted : withoutIdleJumps (.goto f.endLabel :: .label f.endLabel :: rest) =
          .label f.endLabel :: withoutIdleJumps rest := by
        rw [withoutIdleJumps, if_pos (isIdle_eq_true_iff.mpr ⟨_, _, rfl, rfl, isEnd⟩)]
        rfl
      have straight : (returnedCode names f.className value).all Command.isStraight = true :=
        returnedCode_straight value
      have parted := withoutIdleJumps_straight_append straight
        (.goto f.endLabel :: .label f.endLabel :: rest)
      rw [deleted] at parted
      simpa only [Statement.code_returnValue, if_true, Bool.false_eq_true, if_false,
        List.append_nil, List.append_assoc, List.singleton_append] using parted

/-- Deleting idle jumps in front of the end of a subroutine deletes the jump of a `return` that is
the last statement, and nothing else. -/
theorem Statements.withoutIdleJumps_code (ss : Statements) (acceptable : ss.Acceptable names)
    (isEnd : isEndLabel f.endLabel = true) (n : Nat) (rest : List Command) :
    withoutIdleJumps (ss.code names f false n ++ .label f.endLabel :: rest) =
      ss.code names f true n ++ .label f.endLabel :: withoutIdleJumps rest := by
  cases ss with
  | nil => rfl
  | cons first more =>
      cases more with
      | nil =>
          rw [Statements.code, Statements.code, Statements.code, Statements.code, List.append_nil,
            List.append_nil]
          exact first.withoutIdleJumps_code acceptable.1 isEnd n rest
      | cons second others =>
          have behind := Statements.withoutIdleJumps_code (.cons second others) acceptable.2 isEnd
            (n + first.labels) rest
          have apart : ∀ name, isEndLabel name = true →
              ((Statements.cons second others).code names f false (n + first.labels) ++
                .label f.endLabel :: rest).head? = some (.label name) →
              (first.code names f false n).getLast? ≠ some (.goto name) := by
            intro name isEndName head
            rcases second.code_eq_concat (f := f) acceptable.2.1 (n + first.labels) with
              ⟨begin, final, codeSecond, -⟩
            have notEmpty : (Statements.cons second others).code names f false (n + first.labels) ≠
                [] := by
              rw [Statements.code, Bool.false_and, codeSecond]
              simp only [ne_eq, List.append_eq_nil_iff, List.cons_ne_nil, and_false, false_and,
                not_false_eq_true]
            rw [List.head?_append_of_ne_nil _ notEmpty] at head
            have inSecond := (Statements.cons second others).noEnd_code (f := f) false
              (n + first.labels) name (mem_labelsOf (List.mem_of_mem_head? head))
            rw [isEndName] at inSecond
            cases inSecond
          have whole (tail : Bool) :
              (Statements.cons first (.cons second others)).code names f tail n =
                first.code names f false n ++
                  (Statements.cons second others).code names f tail (n + first.labels) := by
            rw [Statements.code, Statements.isEmpty, Bool.and_false]
          rw [whole, whole, List.append_assoc, withoutIdleJumps_append apart,
            withoutIdleJumps_eq_self (first.noEnd_code false n), behind, List.append_assoc]

/-! ## The end of a subroutine -/

variable {c : ClassTree} {s : Subroutine}

/-- Deleting idle jumps from a subroutine that leaves out no jump leaves out the jump of a `return`
that is its last statement. -/
theorem Subroutine.withoutIdleJumps_code (strict : Bool) (n : Nat)
    (acceptable : s.statements.Acceptable (c.namesIn s)) :
    withoutIdleJumps (s.code ⟨strict, false⟩ c n) =
      s.start c :: (s.prologue c ++
        (s.statements.code (c.namesIn s) (c.frame ⟨strict, true⟩ n) true (n + 1) ++
          .label (Code.endLabel n) :: (s.closing ++ [.«return»]))) := by
  have isEnd : isEndLabel (Code.endLabel n) = true := isEndLabel_text ⟨.finish, n⟩
  have labelled : s.labelled ⟨strict, false⟩ = true := Bool.or_true _
  have start (rest : List Command) :
      withoutIdleJumps (s.start c :: rest) = s.start c :: withoutIdleJumps rest := rfl
  have statements := s.statements.withoutIdleJumps_code (f := c.frame ⟨strict, false⟩ n)
    acceptable isEnd (n + 1) (s.closing ++ [.«return»])
  have sameCode :
      s.statements.code (c.namesIn s) (c.frame ⟨strict, false⟩ n) true (n + 1) =
        s.statements.code (c.namesIn s) (c.frame ⟨strict, true⟩ n) true (n + 1) :=
    s.statements.code_congr (f := c.frame ⟨strict, false⟩ n) (g := c.frame ⟨strict, true⟩ n)
      rfl rfl true (n + 1)
  rw [withoutIdleJumps_straight_append s.closing_straight, sameCode] at statements
  rw [Subroutine.code_eq_inner, Subroutine.inner, labelled, if_pos rfl, start, List.append_assoc,
    withoutIdleJumps_straight_append (s.prologue_straight c), List.append_assoc,
    List.append_assoc, List.singleton_append]
  exact congrArg (fun rest => s.start c :: (s.prologue c ++ rest)) statements

/-- Which jumps to the end of a subroutine are left. -/
theorem Subroutine.goto_mem_withoutIdleJumps_code {strict : Bool} {n m : Nat}
    (acceptable : s.statements.Acceptable (c.namesIn s)) :
    .goto (Code.endLabel m) ∈ withoutIdleJumps (s.code ⟨strict, false⟩ c n) ↔
      m = n ∧ s.statements.jumps true = true := by
  have endIs : (c.frame ⟨strict, true⟩ n).endLabel = (LabelName.mk .finish n).text := rfl
  have start (rest : List Command) : marksOf (s.start c :: rest) = marksOf rest := rfl
  have finish (rest : List Command) :
      marksOf (.label (Code.endLabel n) :: rest) = .label (Code.endLabel n) :: marksOf rest := rfl
  have last : marksOf [.«return»] = [] := rfl
  have marks : marksOf (withoutIdleJumps (s.code ⟨strict, false⟩ c n)) =
      (s.statements.marks ⟨.finish, n⟩ true (n + 1) ++ [Mark.set ⟨.finish, n⟩]).map
        Mark.command := by
    rw [s.withoutIdleJumps_code strict n acceptable]
    simp only [start, finish, last, marksOf_append, marksOf_eq_nil (s.prologue_straight c),
      marksOf_eq_nil s.closing_straight, s.statements.marksOf_code endIs, List.map_append,
      List.nil_append]
    rfl
  have member : .goto (Code.endLabel m) ∈ withoutIdleJumps (s.code ⟨strict, false⟩ c n) ↔
      .jump false ⟨.finish, m⟩ ∈ s.statements.marks ⟨.finish, n⟩ true (n + 1) := by
    have isMark := mem_iff_of_marksOf_eq marks (.jump false ⟨.finish, m⟩)
    rwa [List.mem_append, List.mem_singleton, or_iff_left Mark.noConfusion] at isMark
  rw [member]
  constructor
  · intro found
    rcases s.statements.name_mem_labelNames true (n + 1) found with same | inside
    · cases same
      exact ⟨rfl, (s.statements.jump_finish_mem_marks rfl true (n + 1)).mp found⟩
    · exact absurd rfl (s.statements.family_ne_finish (n + 1) inside)
  · rintro ⟨rfl, jumps⟩
    exact (s.statements.jump_finish_mem_marks rfl true (m + 1)).mpr jumps

/-- No straight command is a label. -/
theorem filter_isLive_of_straight {commands : List Command}
    (straight : commands.all Command.isStraight = true) (all : List Command) :
    commands.filter (isLive all) = commands := by
  rw [List.filter_eq_self]
  rw [List.all_eq_true] at straight
  intro c member
  cases c with
  | label name => exact absurd (straight _ member) Bool.false_ne_true
  | _ => rfl

/-- No label of statements is deleted, as only labels at the end of a subroutine are. -/
theorem Statements.filter_isLive_code (ss : Statements) (tail : Bool) (n : Nat)
    (all : List Command) :
    (ss.code names f tail n).filter (isLive all) = ss.code names f tail n := by
  rw [List.filter_eq_self]
  intro c member
  cases c with
  | label name => rw [isLive, ss.noEnd_code tail n name (mem_labelsOf member)]; rfl
  | _ => rfl

/-- Deleting the label without a jump makes the code in which that jump is left out. -/
theorem Subroutine.filter_isLive_code {strict : Bool} {n : Nat} {all : List Command}
    (acceptable : s.statements.Acceptable (c.namesIn s))
    (live : .goto (Code.endLabel n) ∈ all ↔ s.statements.jumps true = true) :
    (withoutIdleJumps (s.code ⟨strict, false⟩ c n)).filter (isLive all) =
      s.code ⟨strict, true⟩ c n := by
  have isEnd : isEndLabel (Code.endLabel n) = true := isEndLabel_text ⟨.finish, n⟩
  have labelled : s.labelled ⟨strict, true⟩ = s.statements.jumps true := Bool.or_false _
  have liveEnd : isLive all (.label (Code.endLabel n)) = s.labelled ⟨strict, true⟩ := by
    rw [labelled, isLive, isEnd, Bool.not_true, Bool.false_or, Bool.eq_iff_iff,
      List.contains_iff_mem, live]
  have start : isLive all (s.start c) = true := rfl
  have last : [Command.«return»].filter (isLive all) = [.«return»] := rfl
  rw [s.withoutIdleJumps_code strict n acceptable, Subroutine.code_eq_inner, Subroutine.inner]
  simp only [List.filter_cons, List.filter_append, start, liveEnd, last,
    filter_isLive_of_straight (s.prologue_straight c), filter_isLive_of_straight s.closing_straight,
    s.statements.filter_isLive_code, if_pos, List.append_assoc]
  split
  · rfl
  · rfl

/-! ## Classes -/

/-- The numbers in front of the subroutines are different. -/
theorem ClassTree.subroutine_unique {n : Nat} {s s' : Subroutine} (member : (n, s) ∈ c.numbered)
    (member' : (n, s') ∈ c.numbered) : s' = s := by
  have nodup : (c.numbered.map Prod.fst).Nodup :=
    List.pairwise_map.mpr ((pairwise_numberedBehind 0 c.subroutines).imp fun apart same => by
      rw [same, Subroutine.labels] at apart
      omega)
  exact (Prod.mk.inj (List.inj_on_of_nodup_map nodup member' member rfl)).2

/-- When idle jumps and then dead ends are deleted from the code of a class in which no jump is left
out, this makes the code in which the jump of a last `return` is left out. -/
theorem ClassTree.foldTailReturn_code (strict : Bool) (c : ClassTree)
    (acceptable : ∀ s ∈ c.subroutines, s.statements.Acceptable (c.namesIn s)) :
    foldTailReturn (c.code ⟨strict, false⟩) = c.code ⟨strict, true⟩ := by
  have inClass : ∀ block ∈ c.numbered, block.2.statements.Acceptable (c.namesIn block.2) :=
    fun _ member => acceptable _ (ClassTree.mem_of_numbered member)
  have ends : ∀ block ∈ c.numbered,
      (block.2.code ⟨strict, false⟩ c block.1).getLast? = some .«return» := by
    intro block _
    rw [Subroutine.code_eq_inner, ← List.cons_append, List.getLast?_concat]
  have idle := withoutIdleJumps_flatMap c.numbered _ ends
  rw [foldTailReturn, withoutDeadEnds, c.code_eq_flatMap, c.code_eq_flatMap, idle,
    List.filter_flatMap]
  apply List.flatMap_congr
  rintro ⟨n, s⟩ member
  apply s.filter_isLive_code (inClass _ member)
  rw [List.mem_flatMap]
  constructor
  · rintro ⟨⟨m, s'⟩, member', found⟩
    rcases (Subroutine.goto_mem_withoutIdleJumps_code (inClass _ member')).mp found with
      ⟨rfl, jumps⟩
    rwa [← c.subroutine_unique member member']
  · intro jumps
    exact ⟨(n, s), member,
      (Subroutine.goto_mem_withoutIdleJumps_code (inClass _ member)).mpr ⟨rfl, jumps⟩⟩

/-! ## The jumps that are left -/

mutual

/-- The number of `return` statements, at whatever depth. -/
def Statement.returns : Statement → Nat
  | .letVariable _ _ => 0
  | .letElement _ _ _ => 0
  | .ifThen _ thenBlock => thenBlock.returns
  | .ifElse _ thenBlock elseBlock => thenBlock.returns + elseBlock.returns
  | .whileLoop _ block => block.returns
  | .doCall _ => 0
  | .returnValue _ => 1

/-- The number of `return` statements, at whatever depth. -/
def Statements.returns : Statements → Nat
  | .nil => 0
  | .cons first rest => first.returns + rest.returns

end

/-- The last of the statements is a `return`. -/
def Statements.endsInReturn : Statements → Bool
  | .nil => false
  | .cons first rest => if rest.isEmpty then first.isReturn else rest.endsInReturn

mutual

/-- Each `return` jumps to the end, apart from one at the tail. -/
theorem Statement.count_finish_marks {finish : LabelName} (isFinish : finish.family = .finish)
    (s : Statement) (tail : Bool) (n : Nat) :
    (s.marks finish tail n).count (.jump false finish) + (if tail && s.isReturn then 1 else 0) =
      s.returns := by
  have other (conditional : Bool) (family : LabelFamily) (different : family ≠ .finish) :
      Mark.jump conditional ⟨family, n⟩ ≠ .jump false finish := by
    intro same
    rw [← isFinish, ← (Mark.jump.inj same).2] at different
    exact different rfl
  have noSet (l : LabelName) : Mark.set l ≠ .jump false finish := nofun
  have noReturn (count : Nat) : count + (if tail && false then 1 else 0) = count := by
    rw [Bool.and_false, if_neg Bool.false_ne_true, Nat.add_zero]
  cases s with
  | ifThen condition thenBlock =>
      have inThen := thenBlock.count_finish_marks isFinish false (n + 1)
      rw [Bool.false_and, if_neg Bool.false_ne_true] at inThen
      refine (noReturn _).trans ?_
      rw [Statement.marks, List.count_cons_of_ne (other true .ifFalse nofun), List.count_append,
        List.count_cons_of_ne (noSet _)]
      exact inThen
  | ifElse condition thenBlock elseBlock =>
      have inThen := thenBlock.count_finish_marks isFinish false (n + 1)
      have inElse := elseBlock.count_finish_marks isFinish false (n + 1 + thenBlock.labels)
      rw [Bool.false_and, if_neg Bool.false_ne_true, Nat.add_zero] at inThen inElse
      refine (noReturn _).trans ?_
      rw [Statement.marks, List.count_cons_of_ne (other true .ifFalse nofun), List.count_append,
        List.count_cons_of_ne (other false .ifEnd nofun), List.count_cons_of_ne (noSet _),
        List.count_append, List.count_cons_of_ne (noSet _), inThen, inElse, Statement.returns]
      rfl
  | whileLoop condition block =>
      have inBlock := block.count_finish_marks isFinish false (n + 1)
      rw [Bool.false_and, if_neg Bool.false_ne_true] at inBlock
      refine (noReturn _).trans ?_
      rw [Statement.marks, List.count_cons_of_ne (noSet _),
        List.count_cons_of_ne (other true .whileEnd nofun), List.count_append,
        List.count_cons_of_ne (other false .whileStart nofun), List.count_cons_of_ne (noSet _)]
      exact inBlock
  | returnValue value =>
      rw [Statement.marks]
      cases tail with
      | true => rfl
      | false => exact List.count_singleton_self
  | _ => exact noReturn 0

/-- All `return` statements jump, except one that stands at the end. -/
theorem Statements.count_finish_marks {finish : LabelName} (isFinish : finish.family = .finish)
    (ss : Statements) (tail : Bool) (n : Nat) :
    (ss.marks finish tail n).count (.jump false finish) +
      (if tail && ss.endsInReturn then 1 else 0) = ss.returns := by
  cases ss with
  | nil =>
      rw [Statements.endsInReturn, Bool.and_false, if_neg Bool.false_ne_true]
      rfl
  | cons first rest =>
      have inFirst := first.count_finish_marks isFinish (tail && rest.isEmpty) n
      have inRest := rest.count_finish_marks isFinish tail (n + first.labels)
      rw [Statements.marks, List.count_append, Statements.returns, ← inFirst, ← inRest,
        Statements.endsInReturn]
      -- Either the first statement or one of the others is the last one.
      cases rest with
      | nil => simp [Statements.isEmpty, Statements.endsInReturn, Statements.marks]
      | cons second others =>
          simp only [Statements.isEmpty, Bool.and_false, Bool.false_and, Bool.false_eq_true,
            if_false]
          omega

end

/-- In the code of a subroutine, all `return` statements jump to its end, except that the jump of a
last one may be left out. -/
theorem Subroutine.count_goto_code (options : Options) (c : ClassTree) (n : Nat) (s : Subroutine) :
    (s.code options c n).count (.goto (Code.endLabel n)) +
      (if options.foldTailReturn && s.statements.endsInReturn then 1 else 0) =
        s.statements.returns := by
  have inMarks : (s.code options c n).count (.goto (Code.endLabel n)) =
      (marksOf (s.code options c n)).count (Mark.jump false ⟨.finish, n⟩).command :=
    (List.count_filter rfl).symm
  have atEnd : (if s.labelled options then [Mark.set ⟨.finish, n⟩] else []).count
      (Mark.jump false ⟨.finish, n⟩) = 0 := by
    split <;> rfl
  rw [inMarks, s.marksOf_code, List.count_map_of_injective _ _ fun _ _ => Mark.command_inj,
    Subroutine.marks, List.count_append, atEnd]
  exact s.statements.count_finish_marks rfl options.foldTailReturn (n + 1)

end Jack
