import Jack.Proofs.Machine.Evaluation
import Jack.Proofs.Translation.Code

namespace Jack

open Machine

/-!
# The code of an expression computes its value

Running the code of an acceptable expression, from any stack and any memory, pushes the value of the
expression and leaves the memory that its evaluation leaves.  What is below on the stack stays as it
is, and so does the pointer to the current object.  The induction is on the tree.
-/

variable {World : Type} {env : Environment World} {m : Machine World}

/-- Running commands ends with the word of an evaluation on top of a given stack, and with the
memory that the evaluation leaves. -/
def Leaves (env : Environment World) (commands : List Command) (value : Evaluation World Word)
    (m : Machine World) (stack : List Word) : Prop :=
  Reaches env.routines commands m ((value m.memory).1 :: stack) (value m.memory).2

/-- Running commands pushes the words of an evaluation, the last one on top. -/
def Pushes (env : Environment World) (commands : List Command)
    (values : Evaluation World (List Word)) (m : Machine World) : Prop :=
  Reaches env.routines commands m ((values m.memory).1.reverse ++ m.stack) (values m.memory).2

/-- Code that leaves a word, and behind it code that goes on from that word.  The base of arrays may
be any in between. -/
theorem Leaves.bind {first second : List Command} {value : Evaluation World Word}
    {f : Word → Evaluation World Word} {stack stack' : List Word}
    (leaves : Leaves env first value m stack)
    (behind : ∀ that, Leaves env second (f (value m.memory).1)
      ⟨(value m.memory).1 :: stack, (value m.memory).2, m.this, that⟩ stack') :
    Leaves env (first ++ second) (value >>= f) m stack' :=
  Reaches.append leaves behind

/-! ## Single commands -/

/-- The code for a variable leaves its value.  The variables of an object need that the object is
the same. -/
theorem pushName_leaves {name : String} (sameThis : m.this = env.this)
    (declared : (env.names name).isSome = true) :
    Leaves env (pushName env.names name) (env.variableValue name) m m.stack := by
  rcases Option.isSome_iff_exists.mp declared with ⟨s, found⟩
  have pushed : pushName env.names name = [.push s.kind.segment s.index] := by
    simp only [pushName, found]
  have value : env.variableValue name = env.value s := by
    simp only [Environment.variableValue, found]
  rw [pushed, value]
  apply reaches_singleton m.that
  cases kind : s.kind with
  | field =>
      simp only [execute?, SymbolKind.segment, read?, Option.map_some, Environment.value, kind,
        sameThis]
      rfl
  | _ =>
      simp only [execute?, SymbolKind.segment, read?, Option.map_some, Environment.value, kind]
      rfl

/-- The command for an operator takes two words and leaves the result, with the right operand on
top. -/
theorem binary_leaves (o : BinaryOperator) (left right : Word) (stack : List Word)
    (memory : Memory World) (this that : Word) :
    Leaves env [o.command] (env.combine o left right)
      ⟨right :: left :: stack, memory, this, that⟩ stack := by
  have few : [left, right].length ≤ 65535 := Nat.le_of_ble_eq_true rfl
  apply reaches_singleton that
  cases o with
  | multiply =>
      exact execute?_call env.routines "Math.multiply" [left, right] stack memory this that few
  | divide =>
      exact execute?_call env.routines "Math.divide" [left, right] stack memory this that few
  | _ => rfl

/-- The pointer to the element is set to its address and read through. -/
theorem element_leaves (base offset : Word) (stack : List Word) (memory : Memory World)
    (this that : Word) :
    Leaves env (.arithmetic .add :: loadCommands) (wordAt (base + offset))
      ⟨offset :: base :: stack, memory, this, that⟩ stack := by
  have address : base + offset + 0 = base + offset := UInt16.add_zero _
  refine ⟨base + offset, ?_⟩
  calc run? env.routines (.arithmetic .add :: loadCommands)
        ⟨offset :: base :: stack, memory, this, that⟩
      = some ⟨memory.heap (base + offset + 0) :: stack, memory, this, base + offset⟩ := rfl
    _ = some ⟨memory.heap (base + offset) :: stack, memory, this, base + offset⟩ := by
        rw [address]

/-- The code for a constant word leaves its value, where `true` is all ones. -/
theorem constant_leaves (k : KeywordConstant) (sameThis : m.this = env.this) :
    Leaves env k.commands (pure (env.constant k)) m m.stack := by
  cases k with
  | this =>
      rw [Environment.constant, ← sameThis]
      exact reaches_singleton m.that rfl
  | _ => exact ⟨m.that, rfl⟩

/-- A call of a routine whose arguments have been pushed. -/
theorem call_leaves (env : Environment World) (name : String) (arguments stack : List Word)
    (memory : Memory World) (this that : Word) (few : arguments.length ≤ 65535) :
    Leaves env [.call name (UInt16.ofNat arguments.length)] (env.call name arguments)
      ⟨arguments.reverse ++ stack, memory, this, that⟩ stack :=
  reaches_singleton that (execute?_call env.routines name arguments stack memory this that few)

/-- A constant is the last argument of a call. -/
theorem constantCall_leaves (env : Environment World) (name : String) (before : List Word)
    (word : Word) (stack : List Word) (memory : Memory World) (this that : Word)
    (few : (before ++ [word]).length ≤ 65535) :
    Leaves env [.push .constant word, .call name (UInt16.ofNat (before ++ [word]).length)]
      (env.call name (before ++ [word])) ⟨before.reverse ++ stack, memory, this, that⟩ stack := by
  have called := call_leaves env name (before ++ [word]) stack memory this that few
  rw [List.reverse_append] at called
  exact called

/-- The code of a string constant makes the object and appends one character after the other. -/
theorem string_leaves (characters : List Char) :
    Leaves env (stringCommands characters) (env.string characters) m m.stack := by
  have small (n : Nat) (below : n.ble 65535 = true) : n ≤ 65535 := Nat.le_of_ble_eq_true below
  have appended (characters : List Char) (object : Word) (stack : List Word)
      (memory : Memory World) (this that : Word) :
      Leaves env (characters.flatMap fun c =>
          [.push .constant (UInt16.ofNat c.toNat), .call "String.appendChar" 2])
        (env.appendCharacters object characters) ⟨object :: stack, memory, this, that⟩ stack := by
    induction characters generalizing object memory that with
    | nil => exact ⟨that, rfl⟩
    | cons c rest inductionHypothesis =>
        rw [List.flatMap_cons, Environment.appendCharacters]
        exact (constantCall_leaves env "String.appendChar" [object] (UInt16.ofNat c.toNat) stack
          memory this that (small 2 rfl)).bind fun that' => inductionHypothesis _ _ that'
  rw [stringCommands, Environment.string]
  exact (constantCall_leaves env "String.new" [] (UInt16.ofNat characters.length) m.stack m.memory
    m.this m.that (small 1 rfl)).bind fun that' => appended characters _ m.stack _ m.this that'

/-- The implicit arguments of a call are pushed, as many as the call counts. -/
theorem receiver_pushes (target : CallTarget) (sameThis : m.this = env.this) :
    Pushes env (target.receiver env.names) (env.receivers target) m := by
  cases target with
  | own name =>
      refine ⟨m.that, ?_⟩
      rw [CallTarget.receiver, run?, execute?, read?]
      simp only [Environment.receivers, ← sameThis]
      rfl
  | qualified object member =>
      cases found : env.names object with
      | none =>
          refine ⟨m.that, ?_⟩
          simp only [CallTarget.receiver, pushName, Environment.receivers, found]
          rfl
      | some s =>
          have declared : (env.names object).isSome = true := by rw [found, Option.isSome_some]
          have pushed := pushName_leaves (m := m) sameThis declared
          simp only [Leaves, Environment.variableValue, found] at pushed
          simp only [Pushes, CallTarget.receiver, Environment.receivers, found]
          exact pushed

/-- The object of a call counts as one argument, if there is any. -/
theorem length_receivers (target : CallTarget) (memory : Memory World) :
    ((env.receivers target) memory).1.length = target.implicit env.names := by
  cases target with
  | own name => rfl
  | qualified object member =>
      cases found : env.names object with
      | none =>
          simp only [Environment.receivers, CallTarget.implicit, found]
          rfl
      | some s =>
          simp only [Environment.receivers, CallTarget.implicit, found]
          rfl

/-- The routine of a call is the one that the evaluation takes, although the two are told apart. -/
theorem routine_eq (target : CallTarget) :
    target.routine env.names env.className = env.routine target := by
  cases target with
  | own name => rfl
  | qualified object member =>
      cases found : env.names object with
      | none => simp only [CallTarget.routine, Environment.routine, found]
      | some s => simp only [CallTarget.routine, Environment.routine, found]

/-- There are as many words as arguments. -/
theorem Arguments.length_evaluate (listed : Arguments) (memory : Memory World) :
    ((listed.evaluate env) memory).1.length = listed.length := by
  cases listed with
  | nil =>
      rw [Arguments.evaluate]
      rfl
  | cons first rest =>
      have behind := rest.length_evaluate ((first.evaluate env) memory).2
      rw [Arguments.evaluate, Arguments.length, ← behind]
      rfl

/-! ## Expressions -/

mutual

/-- The code of an acceptable expression leaves its value on the stack.  It may change the memory by
the routines that it calls and the base of arrays, but neither the object nor the words below. -/
theorem Expression.run_code (e : Expression) (acceptable : e.Acceptable env.names)
    (m : Machine World) (sameThis : m.this = env.this) :
    Leaves env (e.code env.names env.className) (e.evaluate env) m m.stack := by
  cases e with
  | chain first rest =>
      rw [Expression.code, Expression.evaluate]
      apply (first.run_code acceptable.1 m sameThis).bind
      intro that
      exact rest.run_code acceptable.2 _ m.stack _ m.this that sameThis

/-- The code of operators leaves the value of the chain, from left to right. -/
theorem Operators.run_code (operators : Operators) (acceptable : operators.Acceptable env.names)
    (left : Word) (stack : List Word) (memory : Memory World) (this that : Word)
    (sameThis : this = env.this) :
    Leaves env (operators.code env.names env.className) (operators.evaluate env left)
      ⟨left :: stack, memory, this, that⟩ stack := by
  cases operators with
  | nil =>
      rw [Operators.code, Operators.evaluate]
      exact ⟨that, rfl⟩
  | cons o operand rest =>
      rw [Operators.code, Operators.evaluate, ← List.singleton_append (x := o.command)]
      apply (operand.run_code acceptable.1 ⟨left :: stack, memory, this, that⟩ sameThis).bind
      intro that'
      apply (binary_leaves o left _ stack _ this that').bind
      intro that''
      exact rest.run_code acceptable.2 _ stack _ this that'' sameThis

/-- The code of an acceptable term leaves its value on the stack. -/
theorem Term.run_code (t : Term) (acceptable : t.Acceptable env.names)
    (m : Machine World) (sameThis : m.this = env.this) :
    Leaves env (t.code env.names env.className) (t.evaluate env) m m.stack := by
  cases t with
  | integer digits =>
      rw [Term.code, Term.evaluate]
      exact reaches_singleton m.that rfl
  | string text =>
      rw [Term.code, Term.evaluate]
      exact string_leaves _
  | constant k =>
      rw [Term.code, Term.evaluate]
      exact constant_leaves k sameThis
  | unary o operand =>
      rw [Term.code]
      cases o with
      | negate =>
          rw [Term.evaluate]
          apply (operand.run_code acceptable m sameThis).bind
          intro that
          exact reaches_singleton that rfl
      | complement =>
          rw [Term.evaluate]
          apply (operand.run_code acceptable m sameThis).bind
          intro that
          exact reaches_singleton that rfl
  | parenthesis inner =>
      rw [Term.code, Term.evaluate]
      exact inner.run_code acceptable m sameThis
  | plain name =>
      rw [Term.code, Term.evaluate]
      exact pushName_leaves sameThis acceptable
  | element array index =>
      rw [Term.code, Term.evaluate, List.append_assoc]
      apply (pushName_leaves sameThis acceptable.1).bind
      intro that
      apply (index.run_code acceptable.2
        ⟨_ :: m.stack, (env.variableValue array m.memory).2, m.this, that⟩ sameThis).bind
      intro that'
      exact element_leaves _ _ m.stack _ m.this that'
  | call c =>
      rw [Term.code, Term.evaluate]
      exact c.run_code acceptable m sameThis

/-- The code of an acceptable call pushes the object and the arguments, and then calls.  It leaves
the word that the routine yields. -/
theorem Call.run_code (c : Call) (acceptable : c.Acceptable env.names)
    (m : Machine World) (sameThis : m.this = env.this) :
    Leaves env (c.code env.names env.className) (c.evaluate env) m m.stack := by
  cases c with
  | invoke target listed =>
      rw [Call.code, Call.evaluate, List.append_assoc, routine_eq]
      apply Reaches.append (receiver_pushes target sameThis)
      intro that
      apply Reaches.append (listed.run_code acceptable.2 ⟨_, _, m.this, that⟩ sameThis)
      intro that'
      have count : ((env.receivers target m.memory).1 ++
          (listed.evaluate env (env.receivers target m.memory).2).1).length =
          listed.length + target.implicit env.names := by
        rw [List.length_append, length_receivers, listed.length_evaluate, Nat.add_comm]
      have called := call_leaves env (env.routine target)
        ((env.receivers target m.memory).1 ++
          (listed.evaluate env (env.receivers target m.memory).2).1)
        m.stack (listed.evaluate env (env.receivers target m.memory).2).2 m.this that'
        (Nat.le_trans (Nat.le_of_eq count) acceptable.1)
      rw [count, List.reverse_append, List.append_assoc] at called
      exact called

/-- The code of arguments pushes their values in order. -/
theorem Arguments.run_code (listed : Arguments) (acceptable : listed.Acceptable env.names)
    (m : Machine World) (sameThis : m.this = env.this) :
    Pushes env (listed.code env.names env.className) (listed.evaluate env) m := by
  cases listed with
  | nil =>
      rw [Arguments.code, Arguments.evaluate]
      exact ⟨m.that, rfl⟩
  | cons first rest =>
      rw [Arguments.code, Arguments.evaluate]
      apply Reaches.append (first.run_code acceptable.1 m sameThis)
      intro that
      have pushed := rest.run_code acceptable.2 ⟨(first.evaluate env m.memory).1 :: m.stack,
        (first.evaluate env m.memory).2, m.this, that⟩ sameThis
      rw [Pushes, List.append_cons, ← List.reverse_cons] at pushed
      exact pushed

end

end Jack
