import Jack.Proofs.Translation.Blocks

namespace Jack

/-!
# The height of the stack

How many words a command takes from the stack and how many it leaves there depends on the command
alone.  So the height of the stack behind commands that run straight through is known from the
height in front of them.  The code of an acceptable expression adds one word, whatever lies below,
and the code of a `let` or `do` statement adds none.
-/

namespace Command

/-- The number of words that a command takes from the stack. -/
def removes : Command → Nat
  | pop _ _ => 1
  | arithmetic .neg | arithmetic .not => 1
  | arithmetic _ => 2
  | ifGoto _ => 1
  | call _ arguments => arguments.toNat
  | «return» => 1
  | push _ _ | label _ | goto _ | function _ _ => 0

/-- The number of words that a command then leaves on the stack. -/
def adds : Command → Nat
  | push _ _ | arithmetic _ | call _ _ => 1
  | _ => 0

/-- The height of the stack behind a command. -/
def behind (c : Command) (height : Nat) : Nat := height - c.removes + c.adds

end Command

/-- The height of the stack behind commands, if there are always enough words. -/
def heightBehind? : List Command → Nat → Option Nat
  | [], height => some height
  | c :: rest, height =>
    if c.removes ≤ height then heightBehind? rest (c.behind height) else none

/-- Commands turn the topmost words, a given number of them, into another number of words.  They do
not need what lies below. -/
def Turns (commands : List Command) (before after : Nat) : Prop :=
  ∀ below, heightBehind? commands (below + before) = some (below + after)

namespace Turns

variable {first second : List Command} {before middle after : Nat}

theorem nil (height : Nat) : Turns [] height height := fun _ => rfl

/-- The first command finds the words that it removes, and the others go on from what it leaves. -/
theorem cons {c : Command} {rest : List Command} (enough : c.removes ≤ before)
    (behind : Turns rest (c.behind before) after) : Turns (c :: rest) before after := by
  intro below
  have enough' : c.removes ≤ below + before := Nat.le_add_left_of_le enough
  have same : c.behind (below + before) = below + c.behind before := by
    unfold Command.behind
    omega
  rw [heightBehind?, if_pos enough', same]
  exact behind below

/-- One code behind another. -/
theorem append (turns : Turns first before middle) (turns' : Turns second middle after) :
    Turns (first ++ second) before after := by
  intro below
  have joined : ∀ (commands : List Command) (height : Nat),
      heightBehind? (commands ++ second) height =
        (heightBehind? commands height).bind (heightBehind? second) := by
    intro commands
    induction commands with
    | nil => exact fun _ => rfl
    | cons c rest inductionHypothesis =>
        intro height
        rw [List.cons_append, heightBehind?, heightBehind?]
        split
        · exact inductionHypothesis _
        · rfl
  rw [joined, turns below]
  exact turns' below

/-- There may be nothing below. -/
theorem behind (turns : Turns first before after) : heightBehind? first before = some after := by
  have above := turns 0
  rwa [Nat.zero_add, Nat.zero_add] at above

/-- More words may lie below. -/
theorem above (turns : Turns first before after) (more : Nat) :
    Turns first (more + before) (more + after) := by
  intro below
  rw [← Nat.add_assoc, ← Nat.add_assoc]
  exact turns (below + more)

end Turns

/-! ## Expressions -/

variable {names : Names} {className : String}

theorem turns_singleton {c : Command} {before : Nat} (enough : c.removes ≤ before) :
    Turns [c] before (c.behind before) :=
  .cons enough (.nil _)

/-- A variable that is declared is pushed with one command.  An undeclared one would be pushed with
none. -/
theorem pushName_turns {name : String} (declared : (names name).isSome = true) :
    Turns (pushName names name) 0 1 := by
  rcases Option.isSome_iff_exists.mp declared with ⟨s, found⟩
  rw [pushName, found]
  exact turns_singleton (Nat.le_refl 0)

/-- A variable that is declared is stored with one command. -/
theorem popName_turns {name : String} (declared : (names name).isSome = true) :
    Turns (popName names name) 1 0 := by
  rcases Option.isSome_iff_exists.mp declared with ⟨s, found⟩
  rw [popName, found]
  exact turns_singleton (Nat.le_refl 1)

/-- A binary operator takes two words and leaves one, also if it is a call. -/
theorem binary_turns (o : BinaryOperator) : Turns [o.command] 2 1 := by
  cases o <;> exact turns_singleton (Nat.le_refl 2)

theorem unary_turns (o : UnaryOperator) : Turns [o.command] 1 1 := by
  cases o <;> exact turns_singleton (Nat.le_refl 1)

/-- A constant word leaves one word. -/
theorem constant_turns (k : KeywordConstant) : Turns k.commands 0 1 := by
  cases k with
  | true => exact .cons (Nat.zero_le _) (turns_singleton (Nat.le_refl 1))
  | _ => exact turns_singleton (Nat.le_refl 0)

/-- A string constant leaves one word, and for each character there is one more on top of it for a
while. -/
theorem string_turns (characters : List Char) : Turns (stringCommands characters) 0 1 := by
  have appended : Turns (characters.flatMap fun c =>
      [.push .constant (UInt16.ofNat c.toNat), .call "String.appendChar" 2]) 1 1 := by
    induction characters with
    | nil => exact .nil 1
    | cons c rest inductionHypothesis =>
        rw [List.flatMap_cons]
        exact .append (.cons (Nat.zero_le _) (turns_singleton (Nat.le_refl 2)))
          inductionHypothesis
  exact .cons (Nat.zero_le _) (.cons (Nat.le_refl 1) appended)

/-- A call takes its arguments and leaves one word. -/
theorem call_turns (name : String) {arguments : Nat} (few : arguments ≤ 65535) :
    Turns [.call name (UInt16.ofNat arguments)] arguments 1 := by
  have same : (UInt16.ofNat arguments).toNat = arguments := by
    rw [UInt16.toNat_ofNat']
    exact Nat.mod_eq_of_lt (Nat.lt_succ_of_le few)
  have enough : (Command.call name (UInt16.ofNat arguments)).removes ≤ arguments :=
    Nat.le_of_eq same
  have left : (Command.call name (UInt16.ofNat arguments)).behind arguments = 1 := by
    rw [Command.behind, Command.removes, same, Nat.sub_self]
    rfl
  have turns := turns_singleton enough
  rwa [left] at turns

/-- The object of a call leaves a word, if there is an object. -/
theorem receiver_turns (target : CallTarget) :
    Turns (target.receiver names) 0 (target.implicit names) := by
  cases target with
  | own name => exact turns_singleton (Nat.le_refl 0)
  | qualified object member =>
      rw [CallTarget.receiver, CallTarget.implicit]
      cases found : names object with
      | none =>
          rw [pushName, found]
          exact .nil 0
      | some s =>
          rw [Option.isSome_some, if_pos rfl]
          exact pushName_turns (by rw [found, Option.isSome_some])

mutual

/-- An acceptable expression leaves one word more than it finds, and it needs none. -/
theorem Expression.code_turns (e : Expression) (acceptable : e.Acceptable names) :
    Turns (e.code names className) 0 1 := by
  cases e with
  | chain first rest =>
      rw [Expression.Acceptable] at acceptable
      exact (first.code_turns acceptable.1).append (rest.code_turns acceptable.2)

/-- Operators take the word of the first term and leave one. -/
theorem Operators.code_turns (operators : Operators) (acceptable : operators.Acceptable names) :
    Turns (operators.code names className) 1 1 := by
  cases operators with
  | nil => exact .nil 1
  | cons o operand rest =>
      rw [Operators.Acceptable] at acceptable
      rw [Operators.code, ← List.singleton_append]
      exact ((operand.code_turns acceptable.1).above 1).append
        ((binary_turns o).append (rest.code_turns acceptable.2))

/-- An acceptable term leaves one word. -/
theorem Term.code_turns (t : Term) (acceptable : t.Acceptable names) :
    Turns (t.code names className) 0 1 := by
  cases t with
  | integer digits => exact turns_singleton (Nat.le_refl 0)
  | string text => exact string_turns _
  | constant k => exact constant_turns k
  | unary o operand => exact (operand.code_turns acceptable).append (unary_turns o)
  | parenthesis inner => exact inner.code_turns acceptable
  | plain name => exact pushName_turns acceptable
  | element array index =>
      rw [Term.Acceptable] at acceptable
      have load : Turns (.arithmetic .add :: loadCommands) 2 1 :=
        .cons (Nat.le_refl 2) (.cons (Nat.le_refl 1) (turns_singleton (Nat.zero_le _)))
      exact ((pushName_turns acceptable.1).append ((index.code_turns acceptable.2).above 1)).append
        load
  | call c => exact c.code_turns acceptable

/-- A call takes as many words as its command tells, which are those of the object and the
arguments, and leaves one.  That its command can tell them is part of being acceptable. -/
theorem Call.code_turns (c : Call) (acceptable : c.Acceptable names) :
    Turns (c.code names className) 0 1 := by
  cases c with
  | invoke target listed =>
      rw [Call.Acceptable] at acceptable
      have arguments := (listed.code_turns acceptable.2).above (target.implicit names)
      rw [Nat.add_zero, Nat.add_comm _ listed.length] at arguments
      exact ((receiver_turns target).append arguments).append (call_turns _ acceptable.1)

/-- Arguments leave one word each. -/
theorem Arguments.code_turns (listed : Arguments) (acceptable : listed.Acceptable names) :
    Turns (listed.code names className) 0 listed.length := by
  cases listed with
  | nil => exact .nil 0
  | cons first rest =>
      rw [Arguments.Acceptable] at acceptable
      rw [Arguments.length, Nat.add_comm]
      exact (first.code_turns acceptable.1).append ((rest.code_turns acceptable.2).above 1)

end

/-! ## Statements that run straight through -/

/-- An assignment to a variable leaves the stack as it finds it. -/
theorem letVariable_turns {target : String} {value : Expression}
    (declared : (names target).isSome = true) (acceptable : value.Acceptable names) :
    Turns (value.code names className ++ popName names target) 0 0 :=
  (value.code_turns acceptable).append (popName_turns declared)

/-- An assignment to an element leaves the stack as it finds it.  The address waits there while the
value is computed. -/
theorem letElement_turns {array : String} {index value : Expression}
    (declared : (names array).isSome = true) (acceptableIndex : index.Acceptable names)
    (acceptable : value.Acceptable names) :
    Turns (pushName names array ++ index.code names className ++ .arithmetic .add ::
      value.code names className ++ storeCommands) 0 0 := by
  have operands : Turns (pushName names array ++ index.code names className) 0 2 :=
    (pushName_turns declared).append ((index.code_turns acceptableIndex).above 1)
  have valued : Turns (.arithmetic .add :: value.code names className) 2 2 :=
    .cons (Nat.le_refl 2) ((value.code_turns acceptable).above 1)
  have stored : Turns storeCommands 2 0 :=
    .cons (by decide) (.cons (by decide) (.cons (by decide) (turns_singleton (by decide))))
  exact (operands.append valued).append stored

/-- The result of a `do` statement is dropped. -/
theorem doCall_turns {c : Call} (acceptable : c.Acceptable names) :
    Turns (c.code names className ++ [.pop .temp 0]) 0 0 :=
  (c.code_turns acceptable).append (turns_singleton (Nat.le_refl 1))

end Jack
