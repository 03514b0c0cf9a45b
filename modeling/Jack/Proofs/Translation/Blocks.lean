import Jack.Proofs.Translation.Code

namespace Jack

/-!
# Blocks of commands

The code of an expression runs straight through: it has no label and no jump.  The code of
statements has both, but never starts or leaves a function.  So the code of a subroutine is one
block, which begins with its only `function` command and ends with its only `return` command, and
the code of a class is a sequence of such blocks.
-/

namespace Command

/-- The command is followed by the next one, wherever it stands. -/
def isStraight : Command → Bool
  | push _ _ | pop _ _ | arithmetic _ | call _ _ => true
  | label _ | goto _ | ifGoto _ | function _ _ | «return» => false

/-- The command neither starts nor leaves a function. -/
def isInner : Command → Bool
  | function _ _ | «return» => false
  | _ => true

/-- Straight commands stand inside of a subroutine. -/
theorem isInner_of_isStraight {c : Command} (straight : c.isStraight = true) :
    c.isInner = true := by
  cases c with
  | function name locals => cases straight
  | «return» => cases straight
  | _ => rfl

end Command

theorem all_isInner_of_all_isStraight {commands : List Command}
    (straight : commands.all Command.isStraight = true) :
    commands.all Command.isInner = true := by
  rw [List.all_eq_true] at straight ⊢
  intro c member
  exact Command.isInner_of_isStraight (straight c member)

/-! ## Expressions -/

/-- Reading a variable is straight code. -/
theorem pushName_straight (names : Names) (name : String) :
    (pushName names name).all Command.isStraight = true := by
  unfold pushName
  split
  · rfl
  · rfl

theorem popName_straight (names : Names) (name : String) :
    (popName names name).all Command.isStraight = true := by
  unfold popName
  split
  · rfl
  · rfl

/-- Pushing the object of a call is straight code. -/
theorem CallTarget.receiver_straight (names : Names) (target : CallTarget) :
    (target.receiver names).all Command.isStraight = true := by
  cases target with
  | own name => rfl
  | qualified object member => exact pushName_straight names object

/-- Making a string is straight code; its calls come back. -/
theorem stringCommands_straight (characters : List Char) :
    (stringCommands characters).all Command.isStraight = true := by
  simp only [stringCommands, List.all_append, List.all_cons, List.all_flatMap,
    Command.isStraight, List.all_nil, Bool.and_true, Bool.true_and]
  exact List.all_eq_true.mpr fun _ _ => rfl

/-- An operator is a command of the machine or a call. -/
theorem BinaryOperator.command_straight (o : BinaryOperator) : o.command.isStraight = true := by
  cases o <;> rfl

theorem UnaryOperator.command_straight (o : UnaryOperator) : o.command.isStraight = true := by
  cases o <;> rfl

theorem KeywordConstant.commands_straight (k : KeywordConstant) :
    k.commands.all Command.isStraight = Bool.true := by
  cases k <;> rfl

variable {names : Names} {className : String}

mutual

/-- Expressions have no labels and no jumps in their code. -/
theorem Expression.code_straight (e : Expression) :
    (e.code names className).all Command.isStraight = true := by
  cases e with
  | chain first rest =>
      rw [Expression.code, List.all_append, first.code_straight, rest.code_straight, Bool.true_and]

/-- The same of the operators behind a term. -/
theorem Operators.code_straight (operators : Operators) :
    (operators.code names className).all Command.isStraight = true := by
  cases operators with
  | nil => rfl
  | cons o operand rest =>
      rw [Operators.code, List.all_append, List.all_cons, operand.code_straight,
        rest.code_straight, o.command_straight, Bool.true_and, Bool.true_and]

/-- The same of a term. -/
theorem Term.code_straight (t : Term) :
    (t.code names className).all Command.isStraight = true := by
  cases t with
  | integer digits => rfl
  | string text => exact stringCommands_straight _
  | constant k => exact k.commands_straight
  | unary o operand =>
      rw [Term.code, List.all_append, operand.code_straight, List.all_cons, o.command_straight]
      rfl
  | parenthesis inner => exact inner.code_straight
  | plain name => exact pushName_straight names name
  | element array index =>
      rw [Term.code, List.all_append, List.all_append, pushName_straight, index.code_straight]
      rfl
  | call c => exact c.code_straight

/-- The same of a call.  The call itself comes back to the next command. -/
theorem Call.code_straight (c : Call) :
    (c.code names className).all Command.isStraight = true := by
  cases c with
  | invoke target listed =>
      rw [Call.code, List.all_append, List.all_append, CallTarget.receiver_straight,
        listed.code_straight]
      rfl

/-- The same of arguments. -/
theorem Arguments.code_straight (listed : Arguments) :
    (listed.code names className).all Command.isStraight = true := by
  cases listed with
  | nil => rfl
  | cons first rest =>
      rw [Arguments.code, List.all_append, first.code_straight, rest.code_straight, Bool.true_and]

end

/-! ## Statements -/

variable {f : Frame}

/-- An assignment to a variable has no labels and no jumps. -/
theorem letVariable_straight (target : String) (value : Expression) :
    (value.code names className ++ popName names target).all Command.isStraight = true := by
  rw [List.all_append, value.code_straight, popName_straight, Bool.true_and]

/-- An assignment to an element has no labels and no jumps. -/
theorem letElement_straight (array : String) (index value : Expression) :
    (pushName names array ++ index.code names className ++ .arithmetic .add ::
      value.code names className ++ storeCommands).all Command.isStraight = true := by
  rw [List.all_append, List.all_append, List.all_append, List.all_cons, pushName_straight,
    index.code_straight, value.code_straight]
  rfl

/-- A `do` statement has no labels and no jumps. -/
theorem doCall_straight (c : Call) :
    (c.code names className ++ [Command.pop .temp 0]).all Command.isStraight = true := by
  rw [List.all_append, c.code_straight]
  rfl

/-- The code of an expression opens no function and returns from none. -/
theorem Expression.code_inner (e : Expression) :
    (e.code names className).all Command.isInner = true :=
  all_isInner_of_all_isStraight e.code_straight

mutual

/-- The code of a statement opens no function and returns from none.  A `return` statement only
jumps to the end. -/
theorem Statement.code_inner (s : Statement) (tail : Bool) (n : Nat) :
    (s.code names f tail n).all Command.isInner = true := by
  cases s with
  | letVariable target value =>
      exact all_isInner_of_all_isStraight (letVariable_straight target value)
  | letElement array index value =>
      exact all_isInner_of_all_isStraight (letElement_straight array index value)
  | ifThen condition thenBlock =>
      simp only [Statement.code, List.all_append, condition.code_inner, thenBlock.code_inner]
      rfl
  | ifElse condition thenBlock elseBlock =>
      simp only [Statement.code, List.all_append, condition.code_inner, thenBlock.code_inner,
        elseBlock.code_inner]
      rfl
  | whileLoop condition block =>
      simp only [Statement.code, List.all_append, List.all_cons, List.cons_append,
        condition.code_inner, block.code_inner]
      rfl
  | doCall c => exact all_isInner_of_all_isStraight (doCall_straight c)
  | returnValue value =>
      cases value with
      | none => cases tail <;> rfl
      | some e =>
          simp only [Statement.code, List.all_append, e.code_inner]
          cases tail <;> rfl

/-- The same of statements. -/
theorem Statements.code_inner (statements : Statements) (tail : Bool) (n : Nat) :
    (statements.code names f tail n).all Command.isInner = true := by
  cases statements with
  | nil => rfl
  | cons first rest =>
      rw [Statements.code, List.all_append, first.code_inner, rest.code_inner, Bool.true_and]

end

/-! ## Subroutines -/

/-- The `function` command of a subroutine. -/
def Subroutine.start (c : ClassTree) (s : Subroutine) : Command :=
  .function (Code.qualified c.name s.name)
    (UInt16.ofNat (countKind .«local» (s.declarations c.name)))

/-- What is done before the statements: a constructor allocates its object, and a method takes it
from its first argument. -/
def Subroutine.prologue (c : ClassTree) (s : Subroutine) : List Command :=
  Code.prologue s.kind (UInt16.ofNat (countKind .field c.declarations))

/-- There is a label behind the statements. -/
def Subroutine.labelled (options : Options) (s : Subroutine) : Bool :=
  s.statements.jumps options.foldTailReturn || !options.foldTailReturn

/-- What stands between the statements and the `return` command, apart from a label. -/
def Subroutine.closing (s : Subroutine) : List Command :=
  if s.isVoid then [.push .constant 0] else []

/-- What stands between the `function` and the `return` command of a subroutine. -/
def Subroutine.inner (options : Options) (c : ClassTree) (n : Nat) (s : Subroutine) :
    List Command :=
  s.prologue c ++
    (s.statements.code (c.namesIn s) (c.frame options n) options.foldTailReturn (n + 1) ++
      ((if s.labelled options then [.label (Code.endLabel n)] else []) ++ s.closing))

/-- The code of a subroutine begins with its `function` command and ends with its `return`
command. -/
theorem Subroutine.code_eq_inner (options : Options) (c : ClassTree) (n : Nat) (s : Subroutine) :
    s.code options c n = s.start c :: (s.inner options c n ++ [.«return»]) := by
  have epilogue (labelled : Bool) (name : String) (isVoid : Bool) :
      Code.epilogue (if labelled then some name else none) isVoid =
        (if labelled then [.label name] else []) ++
          ((if isVoid then [.push .constant 0] else []) ++ [.«return»]) := by
    cases labelled <;> rfl
  simp only [Subroutine.code, Subroutine.inner, Subroutine.start, Subroutine.prologue,
    Subroutine.closing, epilogue, List.cons_append, List.append_assoc]
  rfl

theorem Subroutine.prologue_straight (c : ClassTree) (s : Subroutine) :
    (s.prologue c).all Command.isStraight = true := by
  unfold Subroutine.prologue
  cases s.kind <;> rfl

theorem Subroutine.closing_straight (s : Subroutine) :
    s.closing.all Command.isStraight = true := by
  unfold Subroutine.closing
  split
  · rfl
  · rfl

/-- There is no other `function` or `return` command in it. -/
theorem Subroutine.inner_isInner (options : Options) (c : ClassTree) (n : Nat) (s : Subroutine) :
    (s.inner options c n).all Command.isInner = true := by
  simp only [Subroutine.inner, List.all_append, s.statements.code_inner,
    all_isInner_of_all_isStraight (s.prologue_straight c),
    all_isInner_of_all_isStraight s.closing_straight, Bool.true_and, Bool.and_true]
  split
  · rfl
  · rfl

/-- The only `return` command stands at the end. -/
theorem Subroutine.return_last {options : Options} {c : ClassTree} {n place : Nat} {s : Subroutine}
    (found : (s.code options c n)[place]? = some .«return») :
    place + 1 = (s.code options c n).length := by
  have inner := s.inner_isInner options c n
  rw [Subroutine.code_eq_inner] at found ⊢
  cases place with
  | zero => cases found
  | succ place =>
      rw [List.getElem?_cons_succ] at found
      rw [List.length_cons, List.length_append, List.length_singleton]
      rcases Nat.lt_or_ge place (s.inner options c n).length with within | behind
      · rw [List.getElem?_append_left within] at found
        rw [List.all_eq_true] at inner
        exact absurd (inner _ (List.mem_of_getElem? found)) Bool.false_ne_true
      · rw [List.getElem?_append_right behind] at found
        have last := (List.getElem?_eq_some_iff.mp found).1
        rw [List.length_singleton] at last
        omega

/-! ## Classes -/

/-- Subroutines with the number of labels numbers that are given away in front of each, if `n` are
given away in front of the first. -/
def numberedBehind (n : Nat) : List Subroutine → List (Nat × Subroutine)
  | [] => []
  | s :: rest => (n, s) :: numberedBehind (n + s.labels) rest

/-- The subroutines of a class in their order, with the number of label numbers in front of each. -/
def ClassTree.numbered (c : ClassTree) : List (Nat × Subroutine) :=
  numberedBehind 0 c.subroutines

/-- All subroutines are listed, in their order. -/
theorem map_snd_numberedBehind (n : Nat) (subroutines : List Subroutine) :
    (numberedBehind n subroutines).map Prod.snd = subroutines := by
  induction subroutines generalizing n with
  | nil => rfl
  | cons s rest inductionHypothesis =>
      rw [numberedBehind, List.map_cons, inductionHypothesis]

/-- What is listed with a number is a subroutine of the class. -/
theorem ClassTree.mem_of_numbered {c : ClassTree} {n : Nat} {s : Subroutine}
    (member : (n, s) ∈ c.numbered) : s ∈ c.subroutines := by
  rw [← map_snd_numberedBehind 0 c.subroutines]
  exact List.mem_map_of_mem member

/-- Numbers only grow. -/
theorem le_of_mem_numberedBehind {n : Nat} {subroutines : List Subroutine}
    {block : Nat × Subroutine} (member : block ∈ numberedBehind n subroutines) : n ≤ block.1 := by
  induction subroutines generalizing n with
  | nil => cases member
  | cons s rest inductionHypothesis =>
      rcases List.mem_cons.mp member with rfl | inRest
      · exact Nat.le_refl n
      · exact Nat.le_trans (Nat.le_add_right n s.labels) (inductionHypothesis inRest)

/-- The label numbers of a subroutine are all given away in front of the next one. -/
theorem pairwise_numberedBehind (n : Nat) (subroutines : List Subroutine) :
    (numberedBehind n subroutines).Pairwise fun block other =>
      block.1 + block.2.labels ≤ other.1 := by
  induction subroutines generalizing n with
  | nil => exact .nil
  | cons s rest inductionHypothesis =>
      exact .cons (fun _ member => le_of_mem_numberedBehind member)
        (inductionHypothesis (n + s.labels))

/-- The code of subroutines is made of the code of each, behind its number. -/
theorem subroutinesCode_eq_flatMap (options : Options) (c : ClassTree) (n : Nat)
    (subroutines : List Subroutine) :
    subroutinesCode options c n subroutines =
      (numberedBehind n subroutines).flatMap fun block => block.2.code options c block.1 := by
  induction subroutines generalizing n with
  | nil => rfl
  | cons s rest inductionHypothesis =>
      rw [subroutinesCode, inductionHypothesis, numberedBehind, List.flatMap_cons]

/-- The code of a class consists of the blocks of its subroutines, in their order. -/
theorem ClassTree.code_eq_flatMap (options : Options) (c : ClassTree) :
    c.code options = c.numbered.flatMap fun block => block.2.code options c block.1 :=
  subroutinesCode_eq_flatMap options c 0 c.subroutines

end Jack
