import Mathlib.Logic.Relation
import Jack.Proofs.Compiler.StatementSuccess
import Jack.Proofs.Compiler.StatementTree
import Jack.Proofs.Machine.Compiled
import Jack.Proofs.Stream.Items

namespace Jack

open Machine

/-!
# Assignments to array elements

The address of the element is computed first.  While the value is computed, it waits on the stack,
where neither the accesses to other elements nor the routines that are called reach it.  Then the
value goes through a temporary place, so that the address below it can be taken from the stack.

What is left in the memory is told without a machine: evaluation changes it by calls of routines
only, and the word is stored in what evaluation leaves.
-/

variable {World : Type} {env : Environment World}

/-! ## Evaluation changes the memory by calls -/

/-- A call of some routine leads from one memory to the other. -/
def Called (routines : Routines World) (before after : Memory World) : Prop :=
  ∃ name arguments, after = (routines name arguments before).2

/-- An evaluation changes no memory but by calls of routines. -/
def OnlyCalls {α : Type} (routines : Routines World) (x : Evaluation World α) : Prop :=
  ∀ memory, Relation.ReflTransGen (Called routines) memory (x memory).2

namespace OnlyCalls

variable {α β : Type} {routines : Routines World}

theorem pure (a : α) : OnlyCalls routines (Pure.pure a) := fun _ => .refl

/-- One evaluation after another.  The memory between them has changed by calls only, too. -/
theorem bind {x : Evaluation World α} {f : α → Evaluation World β}
    (first : OnlyCalls routines x) (behind : ∀ a, OnlyCalls routines (f a)) :
    OnlyCalls routines (x >>= f) :=
  fun memory => (first memory).trans (behind _ _)

/-- A call changes the memory as its routine does. -/
theorem call (name : String) (arguments : List Word) :
    OnlyCalls env.routines (env.call name arguments) :=
  fun _ => .single ⟨name, arguments, rfl⟩

theorem wordAt (address : Word) : OnlyCalls routines (wordAt address) := fun _ => .refl

/-- Reading a variable changes nothing. -/
theorem value (s : Symbol) : OnlyCalls env.routines (env.value s) := by
  intro memory
  have unchanged : (env.value s memory).2 = memory := by
    cases kind : s.kind <;> simp only [Environment.value, kind] <;> rfl
  rw [unchanged]

theorem variableValue (name : String) : OnlyCalls env.routines (env.variableValue name) := by
  unfold Environment.variableValue
  cases env.names name with
  | some s => exact .value s
  | none => exact .pure 0

/-- Multiplication and division are calls, and the other operators change nothing. -/
theorem combine (o : BinaryOperator) (left right : Word) :
    OnlyCalls env.routines (env.combine o left right) := by
  cases o with
  | multiply => exact .call "Math.multiply" [left, right]
  | divide => exact .call "Math.divide" [left, right]
  | _ => exact .pure _

/-- Appending the characters of a string is a chain of calls. -/
theorem appendCharacters (characters : List Char) (object : Word) :
    OnlyCalls env.routines (env.appendCharacters object characters) := by
  induction characters generalizing object with
  | nil => exact .pure object
  | cons c rest inductionHypothesis =>
      rw [Environment.appendCharacters]
      exact (OnlyCalls.call _ _).bind inductionHypothesis

theorem receivers (target : CallTarget) : OnlyCalls env.routines (env.receivers target) := by
  cases target with
  | own name => exact .pure _
  | qualified object member =>
      rw [Environment.receivers]
      cases env.names object with
      | some s => exact (OnlyCalls.value s).bind fun _ => .pure _
      | none => exact .pure _

end OnlyCalls

mutual

/-- Evaluating an expression changes the memory by calls of routines only.  In particular, an index
or a value changes no element by itself. -/
theorem Expression.onlyCalls (e : Expression) : OnlyCalls env.routines (e.evaluate env) := by
  cases e with
  | chain first rest =>
      rw [Expression.evaluate]
      exact first.onlyCalls.bind rest.onlyCalls

/-- The same of the operators behind a term. -/
theorem Operators.onlyCalls (operators : Operators) (left : Word) :
    OnlyCalls env.routines (operators.evaluate env left) := by
  cases operators with
  | nil =>
      rw [Operators.evaluate]
      exact .pure left
  | cons o operand rest =>
      rw [Operators.evaluate]
      exact operand.onlyCalls.bind fun right => (OnlyCalls.combine o left right).bind rest.onlyCalls

/-- The same of a term. -/
theorem Term.onlyCalls (t : Term) : OnlyCalls env.routines (t.evaluate env) := by
  cases t with
  | string text =>
      rw [Term.evaluate]
      exact (OnlyCalls.call _ _).bind (OnlyCalls.appendCharacters _)
  | unary o operand =>
      cases o <;> rw [Term.evaluate] <;> exact operand.onlyCalls.bind fun _ => .pure _
  | parenthesis inner =>
      rw [Term.evaluate]
      exact inner.onlyCalls
  | plain name =>
      rw [Term.evaluate]
      exact .variableValue name
  | element array index =>
      rw [Term.evaluate]
      exact (OnlyCalls.variableValue array).bind fun base =>
        index.onlyCalls.bind fun offset => .wordAt (base + offset)
  | call c =>
      rw [Term.evaluate]
      exact c.onlyCalls
  | _ =>
      rw [Term.evaluate]
      exact .pure _

/-- The same of a call with its arguments. -/
theorem Call.onlyCalls (c : Call) : OnlyCalls env.routines (c.evaluate env) := by
  cases c with
  | invoke target listed =>
      rw [Call.evaluate]
      exact (OnlyCalls.receivers target).bind fun _ => listed.onlyCalls.bind fun _ => .call _ _

/-- The same of arguments. -/
theorem Arguments.onlyCalls (listed : Arguments) :
    OnlyCalls env.routines (listed.evaluate env) := by
  cases listed with
  | nil =>
      rw [Arguments.evaluate]
      exact .pure []
  | cons first rest =>
      rw [Arguments.evaluate]
      exact first.onlyCalls.bind fun _ => rest.onlyCalls.bind fun _ => .pure _

end

/-! ## Storing an element -/

/-- The address of an element and the word for it.  The array is read before the index and the
value are evaluated. -/
def Environment.assignment (env : Environment World) (array : String) (index value : Expression) :
    Evaluation World (Word × Word) := do
  let base ← env.variableValue array
  let offset ← index.evaluate env
  let word ← value.evaluate env
  return (base + offset, word)

/-- All that an assignment does before it stores is to call routines. -/
theorem Environment.assignment_onlyCalls (env : Environment World) (array : String)
    (index value : Expression) : OnlyCalls env.routines (env.assignment array index value) :=
  (OnlyCalls.variableValue array).bind fun _ =>
    index.onlyCalls.bind fun _ => value.onlyCalls.bind fun _ => .pure _

/-- The memory with a word at an address. -/
def Memory.store (memory : Memory World) (address word : Word) : Memory World :=
  { memory with heap := update memory.heap address word }

/-- The memory after a word has passed through the temporary place of commands. -/
def Memory.passed (memory : Memory World) (word : Word) : Memory World :=
  { memory with temps := update memory.temps 0 word }

/-- Only a field can be changed by storing a word, and only if the word is stored there. -/
theorem Environment.value_stored (env : Environment World) (memory : Memory World)
    (address word : Word) (s : Symbol)
    (elsewhere : s.kind = .field → env.this + s.index ≠ address) :
    (env.value s ((memory.store address word).passed word)).1 = (env.value s memory).1 := by
  cases kind : s.kind with
  | field =>
      simp only [Environment.value, kind]
      exact if_neg (elsewhere kind)
  | _ =>
      simp only [Environment.value, kind]
      rfl

/-- The word on top is stored at the address below it. -/
theorem run?_storeCommands (routines : Routines World) (word address : Word) (stack : List Word)
    (memory : Memory World) (this that : Word) :
    run? routines storeCommands ⟨word :: address :: stack, memory, this, that⟩ =
      some ⟨stack, (memory.store address word).passed word, this, address⟩ := by
  have kept : update memory.temps 0 word 0 = word := if_pos rfl
  have sameAddress : address + 0 = address := UInt16.add_zero _
  calc run? routines storeCommands ⟨word :: address :: stack, memory, this, that⟩
      = some ⟨stack, (memory.store (address + 0) (update memory.temps 0 word 0)).passed word, this,
          address⟩ := rfl
    _ = some ⟨stack, (memory.store address word).passed word, this, address⟩ := by
        rw [kept, sameAddress]

/-- The code of an assignment to an array element stores the word at the address, whatever else
is on the stack. -/
theorem Statement.run_letElement (env : Environment World) {array : String}
    {index value : Expression} {f : Frame} {tail : Bool} {n : Nat} (m : Machine World)
    (sameThis : m.this = env.this)
    (sameClass : f.className = env.className)
    (acceptable : (Statement.letElement array index value).Acceptable env.names) :
    let evaluated := env.assignment array index value m.memory
    run? env.routines ((Statement.letElement array index value).code env.names f tail n) m =
      some ⟨m.stack, (evaluated.2.store evaluated.1.1 evaluated.1.2).passed evaluated.1.2, m.this,
        evaluated.1.1⟩ := by
  intro evaluated
  rcases acceptable with ⟨declared, acceptableIndex, acceptableValue⟩
  let base := env.variableValue array m.memory
  let offset := index.evaluate env base.2
  rcases pushName_leaves sameThis declared with ⟨that, readBase⟩
  rcases index.run_code acceptableIndex ⟨base.1 :: m.stack, base.2, m.this, that⟩ sameThis with
    ⟨that', readOffset⟩
  rcases value.run_code acceptableValue ⟨(base.1 + offset.1) :: m.stack, offset.2, m.this, that'⟩
    sameThis with ⟨that'', readWord⟩
  have added : run? env.routines [.arithmetic .add]
      ⟨offset.1 :: base.1 :: m.stack, offset.2, m.this, that'⟩ =
      some ⟨(base.1 + offset.1) :: m.stack, offset.2, m.this, that'⟩ := rfl
  rw [Statement.code, sameClass, ← List.singleton_append (x := Command.arithmetic .add)]
  simp only [List.append_assoc]
  rw [run?_append, readBase, Option.bind_some, run?_append, readOffset, Option.bind_some,
    run?_append, added, Option.bind_some, run?_append, readWord, Option.bind_some]
  exact run?_storeCommands env.routines _ _ m.stack _ m.this that''

/-- The commands that compilation of an assignment to an array element emits run to their end on
every machine and leave its stack as it was.  What they leave in the memory is the word of the
value, stored at the address that was computed first, in what the evaluation leaves; besides, the
word has passed through the temporary place.  Evaluation changes the memory by calls of routines
only, and storing changes no variable but a field at that address. -/
theorem Step.letElement_stores {f : Frame} {bound : Nat} {p q : Progress} {u : Unit}
    {array : String} {index value : Expression}
    (run : Step.letStatement f bound p = .ok u q)
    (reads : p.stream.Reads (Statement.letElement array index value).lexemes q.stream) :
    ∃ commands : List Command, q.code.toList = p.code.toList ++ commands ∧
      ∀ (World : Type) (routines : Routines World) (m : Machine World),
        let env : Environment World := ⟨p.symbols.get?, f.className, routines, m.this⟩
        ∃ (address word : Word) (evaluated : Memory World),
          env.assignment array index value m.memory = ((address, word), evaluated) ∧
          Relation.ReflTransGen (Called routines) m.memory evaluated ∧
          run? routines commands m =
            some ⟨m.stack, (evaluated.store address word).passed word, m.this, address⟩ ∧
          ∀ s : Symbol, (s.kind = .field → m.this + s.index ≠ address) →
            (env.value s ((evaluated.store address word).passed word)).1 =
              (env.value s evaluated).1 := by
  rcases reads.of_cons with ⟨t, current, -, isLet, -⟩
  have start : t.kind.statementKind? = some .«let» := by
    rw [← Token.kind_lexeme, isLet]
    rfl
  rcases Step.letStatement_ok rfl current start run with ⟨s, acceptable, -, described⟩
  have goes := (described false).2
  have same : s.lexemes ++ [] = (Statement.letElement array index value).lexemes ++ [] :=
    congrArg (· ++ []) (goes.1.lexemes_unique reads)
  obtain rfl := (s.append_inj (.letElement array index value) same (.nil _) (.nil _)).1
  refine ⟨_, goes.code, fun World routines m => ?_⟩
  let env : Environment World := ⟨p.symbols.get?, f.className, routines, m.this⟩
  let evaluated := env.assignment array index value m.memory
  exact ⟨evaluated.1.1, evaluated.1.2, evaluated.2, rfl,
    env.assignment_onlyCalls array index value m.memory,
    Statement.run_letElement env m rfl rfl acceptable,
    env.value_stored evaluated.2 evaluated.1.1 evaluated.1.2⟩

/-- The index is read from the array itself, and the value is computed by a routine that is given
another element. -/
theorem Step.letElement_stores_nested :
    let source := "let a[a[0]]=f(a[1]);".toList
    let symbols : SymbolTable :=
      ⟨∅, (∅ : Scope).insert "a" ⟨"a", "Array", .«local», 0⟩, ⟨0, 0, 0, 1⟩⟩
    let p : Progress := { Progress.ofSource source with symbols := symbols }
    let index : Expression := .chain (.element "a" (.chain (.integer "0") .nil)) .nil
    let value : Expression := .chain (.call (.invoke (.own "f")
      (.cons (.chain (.element "a" (.chain (.integer "1") .nil)) .nil) .nil))) .nil
    ∃ q, Step.letStatement ⟨"Main", "RETURN0", true⟩ 64 p = .ok () q ∧
      p.stream.Reads (Statement.letElement "a" index value).lexemes q.stream ∧
      ∀ (World : Type) (routines : Routines World) (m : Machine World),
        let env : Environment World := ⟨symbols.get?, "Main", routines, m.this⟩
        ∃ (address word : Word) (evaluated : Memory World),
          env.assignment "a" index value m.memory = ((address, word), evaluated) ∧
          Relation.ReflTransGen (Called routines) m.memory evaluated ∧
          run? routines [.push .«local» 0, .push .«local» 0, .push .constant 0, .arithmetic .add,
              .pop .pointer 1, .push .that 0, .arithmetic .add, .push .pointer 0, .push .«local» 0,
              .push .constant 1, .arithmetic .add, .pop .pointer 1, .push .that 0,
              .call "Main.f" 2, .pop .temp 0, .pop .pointer 1, .push .temp 0, .pop .that 0] m =
            some ⟨m.stack, (evaluated.store address word).passed word, m.this, address⟩ ∧
          ∀ s : Symbol, (s.kind = .field → m.this + s.index ≠ address) →
            (env.value s ((evaluated.store address word).passed word)).1 =
              (env.value s evaluated).1 := by
  intro source symbols p index value
  have lexes : Lexes source ((Statement.letElement "a" index value).lexemes ++ [.endOfFile]) :=
    lexes_of_items (by
      simp only [source, index, value]
      cbv)
  rcases lexes_iff_reads.mp lexes with ⟨s, reads, -⟩
  have declared : (symbols.get? "a").isSome = true := by
    simp only [symbols]
    cbv
  have few : 1 + 1 ≤ 65535 := Nat.le_of_ble_eq_true rfl
  have acceptable (names : Names) (declared : (names "a").isSome = true) :
      (Statement.letElement "a" index value).Acceptable names :=
    ⟨declared, ⟨⟨declared, ⟨trivial, trivial⟩⟩, trivial⟩,
      ⟨⟨few, ⟨⟨⟨declared, ⟨trivial, trivial⟩⟩, trivial⟩, trivial⟩⟩, trivial⟩⟩
  have emitted : (Step.letStatement ⟨"Main", "RETURN0", true⟩ 64).emitted? p =
      some [.push .«local» 0, .push .«local» 0, .push .constant 0, .arithmetic .add,
        .pop .pointer 1, .push .that 0, .arithmetic .add, .push .pointer 0, .push .«local» 0,
        .push .constant 1, .arithmetic .add, .pop .pointer 1, .push .that 0, .call "Main.f" 2,
        .pop .temp 0, .pop .pointer 1, .push .temp 0, .pop .that 0] := by
    simp only [p, source, symbols]
    cbv
  rcases emitted?_eq_some.mp emitted with ⟨u, q, run, code⟩
  have front : p.InFront symbols ((Statement.letElement "a" index value).lexemes ++ []) s :=
    ⟨rfl, (List.append_nil _).symm ▸ reads, TokenStream.spelled_ofSource source⟩
  have stops : (Step.letStatement ⟨"Main", "RETURN0", true⟩ 64).Succeeds p
      fun _ r => r.InFront symbols [] s :=
    succeeds_letElement (acceptable _ declared) front
  rw [Succeeds, run] at stops
  have readsAll : p.stream.Reads (Statement.letElement "a" index value).lexemes q.stream :=
    stops.reads.of_nil ▸ reads
  rcases letElement_stores run readsAll with ⟨commands, appended, stores⟩
  refine ⟨q, run, readsAll, ?_⟩
  rw [← code, appended]
  exact stores

end Jack
