import Jack.Proofs.Compiler.Moves
import Jack.Proofs.Translation.Code

namespace Jack

open Progress

/-!
# Compiled expressions have trees

Every run of the functions on expressions that succeeds has read the lexemes of some tree, which is
acceptable under the names of the progress, and has appended the code of that tree and nothing else.
The tree is built from the run: one induction on the bound serves all functions, since each of them
calls the others with a smaller one.
-/

namespace Step

variable {p q : Progress} {names : Names} {className : String}

/-- A variable is pushed from the place that the names give it. -/
theorem pushVariable_ok {name : String} {s : Symbol} {u : Unit} (found : names name = some s)
    (run : pushVariable s p = .ok u q) : p.Goes [] (pushName names name) 0 q := by
  have pushed : pushName names name = [.push s.kind.segment s.index] := by
    simp only [pushName, found]
  rw [pushed]
  exact emit_ok run

/-- A variable is stored at the place that the names give it. -/
theorem popVariable_ok {name : String} {s : Symbol} {u : Unit} (found : names name = some s)
    (run : popVariable s p = .ok u q) : p.Goes [] (popName names name) 0 q := by
  have popped : popName names name = [.pop s.kind.segment s.index] := by
    simp only [popName, found]
  rw [popped]
  exact emit_ok run

/-- A string constant that goes well fits the machine, and the commands make the string of its
characters. -/
theorem stringConstant_ok {t : Token} {u : Unit} (run : stringConstant t p = .ok u q) :
    FitsMachine (charactersBetweenQuotes t.text) ∧
      p.Goes [] (stringCommands (charactersBetweenQuotes t.text)) 0 q := by
  unfold stringConstant at run
  rw [t.content_eq, Code.string_eq] at run
  split at run
  · cases run
  · rename_i short
    split at run
    · cases run
    · rename_i small
      refine ⟨⟨Nat.le_of_not_lt short, fun c member => Nat.le_of_not_lt fun large => ?_⟩,
        emit_ok run⟩
      exact small (List.any_eq_true.mpr ⟨c, member, decide_eq_true large⟩)

/-- An integer constant that goes well is pushed. -/
theorem integerConstant_ok {t : Token} {u : Unit} (run : integerConstant t p = .ok u q) :
    p.Goes [] [.push .constant (UInt16.ofNat t.value)] 0 q := by
  unfold integerConstant at run
  cases spells : Token.word? t.text.toList with
  | none =>
      rw [spells] at run
      exact absurd run unexpected_ne_ok
  | some value =>
      rw [spells, Token.eq_of_word? spells] at run
      exact emit_ok run

/-- Reading whom a call addresses tells the routine and the number of implicit arguments, and pushes
the object. -/
theorem callee_ok {found : Callee} (seen : p.symbols.get? = names)
    (run : callee className p = .ok found q) :
    ∃ target : CallTarget,
      found = ⟨target.routine names className, target.implicit names⟩ ∧
        p.Goes target.lexemes (target.receiver names) 0 q := by
  rw [callee_eq] at run
  rcases bind_eq_ok.mp run with ⟨first, p₁, readFirst, run⟩
  have goesFirst := consume_identifier_ok readFirst
  rcases bind_eq_ok.mp run with ⟨dotted, p₂, readDot, run⟩
  rcases accept_symbol_ok readDot with ⟨rfl, goesDot⟩ | ⟨rfl, rfl⟩
  · rcases bind_eq_ok.mp run with ⟨member, p₃, readMember, run⟩
    have goesMember := (goesFirst.trans goesDot).trans (consume_identifier_ok readMember)
    rcases bind_eq_ok.mp run with ⟨object, p₄, looked, run⟩
    rcases symbol?_ok looked with ⟨declared, rfl⟩
    rw [goesMember.names seen] at declared
    refine ⟨.qualified first.text member.text, ?_⟩
    cases object with
    | none =>
        rcases pure_eq_ok.mp run with ⟨rfl, rfl⟩
        simp only [CallTarget.routine, CallTarget.implicit, CallTarget.receiver, pushName,
          ← declared]
        exact ⟨rfl, goesMember⟩
    | some object =>
        rcases bind_eq_ok.mp run with ⟨_, p₅, pushed, run⟩
        rcases pure_eq_ok.mp run with ⟨rfl, rfl⟩
        simp only [CallTarget.routine, CallTarget.implicit, CallTarget.receiver, ← declared]
        exact ⟨rfl, goesMember.trans (pushVariable_ok declared.symm pushed)⟩
  · rcases bind_eq_ok.mp run with ⟨_, p₃, pushed, run⟩
    rcases pure_eq_ok.mp run with ⟨rfl, rfl⟩
    exact ⟨.own first.text, rfl, goesFirst.trans (emit_ok pushed)⟩

/-- What the functions on expressions have done when they succeed under a bound. -/
structure ReadTrees (names : Names) (className : String) (bound : Nat) : Prop where
  expression : ∀ {p q : Progress} {u : Unit}, p.symbols.get? = names →
    expression className bound p = .ok u q →
    ∃ e : Expression, e.Acceptable names ∧ p.Goes e.lexemes (e.code names className) 0 q
  operators : ∀ {p q : Progress} {u : Unit}, p.symbols.get? = names →
    operators className bound p = .ok u q →
    ∃ o : Operators, o.Acceptable names ∧ p.Goes o.lexemes (o.code names className) 0 q
  term : ∀ {p q : Progress} {u : Unit}, p.symbols.get? = names →
    term className bound p = .ok u q →
    ∃ t : Term, t.Acceptable names ∧ p.Goes t.lexemes (t.code names className) 0 q
  element : ∀ {p q : Progress} {u : Unit}, p.symbols.get? = names →
    element className bound p = .ok u q →
    ∃ t : Term, t.Acceptable names ∧ p.Goes t.lexemes (t.code names className) 0 q
  call : ∀ {p q : Progress} {u : Unit}, p.symbols.get? = names →
    call className bound p = .ok u q →
    ∃ c : Call, c.Acceptable names ∧ p.Goes c.lexemes (c.code names className) 0 q
  arguments : ∀ {p q : Progress} {count : Nat}, p.symbols.get? = names →
    arguments className bound p = .ok count q →
    ∃ l : Arguments, count = l.length ∧ l.Acceptable names ∧
      p.Goes l.lexemes (l.code names className) 0 q
  argumentsBehind : ∀ {p q : Progress} {before count : Nat}, p.symbols.get? = names →
    argumentsBehind className bound before p = .ok count q →
    ∃ (first : Expression) (rest : Arguments), count = before + (rest.length + 1) ∧
      (Arguments.cons first rest).Acceptable names ∧
        p.Goes (Arguments.cons first rest).lexemes
          ((Arguments.cons first rest).code names className) 0 q

/-- Without a bound nothing is read. -/
theorem readTrees_zero : ReadTrees names className 0 where
  expression _ run := by rw [expression] at run; cases run
  operators _ run := by rw [operators] at run; cases run
  term _ run := by rw [term] at run; cases run
  element _ run := by rw [element] at run; cases run
  call _ run := by rw [call] at run; cases run
  arguments _ run := by rw [arguments] at run; cases run
  argumentsBehind _ run := by rw [argumentsBehind] at run; cases run

namespace ReadTrees

variable {bound : Nat} (below : ReadTrees names className bound)

include below

/-- An expression that goes well is a tree, with its lexemes and its code. -/
theorem expression_succ {u : Unit} (seen : p.symbols.get? = names)
    (run : Step.expression className (bound + 1) p = .ok u q) :
    ∃ e : Expression, e.Acceptable names ∧ p.Goes e.lexemes (e.code names className) 0 q := by
  rw [Step.expression] at run
  rcases bind_eq_ok.mp run with ⟨_, p₁, first, rest⟩
  rcases below.term seen first with ⟨t, acceptable, goes⟩
  rcases below.operators (goes.names seen) rest with ⟨o, acceptable', goes'⟩
  refine ⟨.chain t o, ⟨acceptable, acceptable'⟩, ?_⟩
  rw [Expression.lexemes, Expression.code]
  exact goes.trans goes'

/-- Operators are read as long as there is one, so that they are all operators of the same chain. -/
theorem operators_succ {u : Unit} (seen : p.symbols.get? = names)
    (run : Step.operators className (bound + 1) p = .ok u q) :
    ∃ o : Operators, o.Acceptable names ∧ p.Goes o.lexemes (o.code names className) 0 q := by
  rw [operators_eq] at run
  rcases bind_eq_ok.mp run with ⟨t, p₁, looked, run⟩
  rcases peek_ok looked with ⟨current, rfl⟩
  cases operator : t.kind.binaryOperator? with
  | none =>
      simp only [operator] at run
      rcases pure_eq_ok.mp run with ⟨-, rfl⟩
      exact ⟨.nil, trivial, Goes.refl _⟩
  | some o =>
      simp only [operator] at run
      have kind := TokenKind.eq_of_binaryOperator? operator
      have more : t.kind ≠ .endOfFile := by
        rw [kind]
        simp only [ne_eq, reduceCtorEq, not_false_eq_true]
      rcases bind_eq_ok.mp run with ⟨_, p₂, skipped, run⟩
      have goesOperator := skip_ok skipped current more
      rw [Token.lexeme_eq_symbol kind] at goesOperator
      rcases bind_eq_ok.mp run with ⟨_, p₃, readOperand, run⟩
      rcases below.term (goesOperator.names seen) readOperand with
        ⟨operand, acceptable, goesOperand⟩
      rcases bind_eq_ok.mp run with ⟨_, p₄, emitted, run⟩
      have goesHere := (goesOperator.trans goesOperand).trans (emit_ok emitted)
      rw [Code.binary_eq] at goesHere
      rcases below.operators (goesHere.names seen) run with ⟨rest, acceptable', goesRest⟩
      refine ⟨.cons o operand rest, ⟨acceptable, acceptable'⟩, ?_⟩
      have goes := goesHere.trans goesRest
      simpa only [Operators.lexemes, Operators.code, List.append_nil, List.nil_append,
        List.append_assoc, List.cons_append] using goes

/-- The element of an array that is declared. -/
theorem element_succ {u : Unit} (seen : p.symbols.get? = names)
    (run : Step.element className (bound + 1) p = .ok u q) :
    ∃ t : Term, t.Acceptable names ∧ p.Goes t.lexemes (t.code names className) 0 q := by
  rw [Step.element] at run
  rcases bind_eq_ok.mp run with ⟨name, p₁, readName, run⟩
  have goesName := consume_identifier_ok readName
  rcases bind_eq_ok.mp run with ⟨array, p₂, resolved, run⟩
  rcases resolve_ok resolved with ⟨found, rfl⟩
  rw [goesName.names seen] at found
  rcases bind_eq_ok.mp run with ⟨_, p₃, readOpen, run⟩
  rcases bind_eq_ok.mp run with ⟨_, p₄, pushed, run⟩
  have goesArray :=
    (goesName.trans (symbol_ok readOpen)).trans (pushVariable_ok found pushed)
  rcases bind_eq_ok.mp run with ⟨_, p₅, readIndex, run⟩
  rcases below.expression (goesArray.names seen) readIndex with ⟨index, acceptable, goesIndex⟩
  rcases bind_eq_ok.mp run with ⟨_, p₆, readClose, loaded⟩
  refine ⟨.element name.text index, ⟨by rw [found]; rfl, acceptable⟩, ?_⟩
  have goes := ((goesArray.trans goesIndex).trans (symbol_ok readClose)).trans (emit_ok loaded)
  rw [Code.loadElement_eq] at goes
  simpa only [Term.lexemes, Term.code, List.append_nil, List.nil_append, List.append_assoc,
    List.cons_append] using goes

/-- A call with the number of arguments that its command tells.  For a method this counts the
object, too. -/
theorem call_succ {u : Unit} (seen : p.symbols.get? = names)
    (run : Step.call className (bound + 1) p = .ok u q) :
    ∃ c : Call, c.Acceptable names ∧ p.Goes c.lexemes (c.code names className) 0 q := by
  rw [Step.call] at run
  rcases bind_eq_ok.mp run with ⟨found, p₁, addressed, run⟩
  rcases callee_ok seen addressed with ⟨target, rfl, goesTarget⟩
  rcases bind_eq_ok.mp run with ⟨_, p₂, readOpen, run⟩
  have goesOpen := goesTarget.trans (symbol_ok readOpen)
  rcases bind_eq_ok.mp run with ⟨count, p₃, readListed, run⟩
  rcases below.arguments (goesOpen.names seen) readListed with ⟨listed, rfl, acceptable, goesListed⟩
  rcases bind_eq_ok.mp run with ⟨close, p₄, readClose, run⟩
  dsimp only at run
  split at run
  · cases run
  · rename_i few
    refine ⟨.invoke target listed, ⟨Nat.le_of_not_lt few, acceptable⟩, ?_⟩
    have goes := ((goesOpen.trans goesListed).trans (consume_symbol_ok readClose)).trans
      (emit_ok run)
    simpa only [Call.lexemes, Call.code, List.append_nil, List.nil_append, List.append_assoc,
      List.cons_append] using goes

/-- The count that is given back is that of the arguments in the tree. -/
theorem arguments_succ {count : Nat} (seen : p.symbols.get? = names)
    (run : Step.arguments className (bound + 1) p = .ok count q) :
    ∃ l : Arguments, count = l.length ∧ l.Acceptable names ∧
      p.Goes l.lexemes (l.code names className) 0 q := by
  rw [Step.arguments] at run
  rcases bind_eq_ok.mp run with ⟨t, p₁, looked, run⟩
  rcases peek_ok looked with ⟨-, rfl⟩
  split at run
  · rcases pure_eq_ok.mp run with ⟨rfl, rfl⟩
    exact ⟨.nil, rfl, trivial, Goes.refl _⟩
  · rcases below.argumentsBehind seen run with ⟨first, rest, counted, acceptable, goes⟩
    exact ⟨.cons first rest, by rw [counted, Nat.zero_add, Arguments.length], acceptable, goes⟩

/-- There is at least one argument, and those before it are counted as well. -/
theorem argumentsBehind_succ {before count : Nat} (seen : p.symbols.get? = names)
    (run : Step.argumentsBehind className (bound + 1) before p = .ok count q) :
    ∃ (first : Expression) (rest : Arguments), count = before + (rest.length + 1) ∧
      (Arguments.cons first rest).Acceptable names ∧
        p.Goes (Arguments.cons first rest).lexemes
          ((Arguments.cons first rest).code names className) 0 q := by
  rw [Step.argumentsBehind] at run
  rcases bind_eq_ok.mp run with ⟨t, p₁, looked, run⟩
  rcases peek_ok looked with ⟨-, rfl⟩
  split at run
  · cases run
  · rcases bind_eq_ok.mp run with ⟨_, p₂, readFirst, run⟩
    rcases below.expression seen readFirst with ⟨first, acceptable, goesFirst⟩
    rcases bind_eq_ok.mp run with ⟨more, p₃, readComma, run⟩
    rcases accept_symbol_ok readComma with ⟨rfl, goesComma⟩ | ⟨rfl, rfl⟩
    · have goesHere := goesFirst.trans goesComma
      rcases below.argumentsBehind (goesHere.names seen) run with
        ⟨second, rest, counted, acceptable', goesRest⟩
      refine ⟨first, .cons second rest, ?_, ⟨acceptable, acceptable'⟩, ?_⟩
      · rw [counted, Arguments.length]
        omega
      · have goes := goesHere.trans goesRest
        simpa only [Arguments.lexemes, Arguments.behind, Arguments.code, List.append_nil,
          List.append_assoc, List.cons_append, List.nil_append] using goes
    · rcases pure_eq_ok.mp run with ⟨rfl, rfl⟩
      refine ⟨first, .nil, rfl, ⟨acceptable, trivial⟩, ?_⟩
      simpa only [Arguments.lexemes, Arguments.behind, Arguments.code, List.append_nil] using
        goesFirst

/-- A term that its first token tells to be a name is told apart by the second token. -/
theorem name_succ {t : Token} {u : Unit} (seen : p.symbols.get? = names)
    (current : p.stream.current = .ok t) (kind : t.kind = .identifier)
    (run : (do
      match (← peekNext).kind with
      | .symbol .leftBracket => Step.element className bound
      | .symbol .leftParen => Step.call className bound
      | .symbol .dot => Step.call className bound
      | _ =>
        let name ← consume .identifier
        pushVariable (← resolve name)) p = .ok u q) :
    ∃ t : Term, t.Acceptable names ∧ p.Goes t.lexemes (t.code names className) 0 q := by
  have more : t.kind ≠ .endOfFile := by
    rw [kind]
    simp only [ne_eq, reduceCtorEq, not_false_eq_true]
  have called (run : Step.call className bound p = .ok u q) :
      ∃ t : Term, t.Acceptable names ∧ p.Goes t.lexemes (t.code names className) 0 q := by
    rcases below.call seen run with ⟨c, acceptable, goes⟩
    exact ⟨.call c, acceptable, by rwa [Term.lexemes, Term.code]⟩
  rcases bind_eq_ok.mp run with ⟨next, p₁, looked, run⟩
  rcases peekNext_ok looked current more with ⟨-, rfl⟩
  generalize next.kind = second at run
  split at run
  · exact below.element seen run
  · exact called run
  · exact called run
  · rcases bind_eq_ok.mp run with ⟨name, p₂, readName, run⟩
    have goesName := consume_identifier_ok readName
    rcases bind_eq_ok.mp run with ⟨s, p₃, resolved, run⟩
    rcases resolve_ok resolved with ⟨found, rfl⟩
    rw [goesName.names seen] at found
    refine ⟨.plain name.text, by rw [Term.Acceptable, found, Option.isSome_some], ?_⟩
    have goes := goesName.trans (pushVariable_ok found run)
    rwa [List.append_nil] at goes

/-- Which form a term has is told by its first token, and for a name by the one behind it. -/
theorem term_succ {u : Unit} (seen : p.symbols.get? = names)
    (run : Step.term className (bound + 1) p = .ok u q) :
    ∃ t : Term, t.Acceptable names ∧ p.Goes t.lexemes (t.code names className) 0 q := by
  rw [Step.term] at run
  rcases bind_eq_ok.mp run with ⟨t, p₁, looked, run⟩
  rcases peek_ok looked with ⟨current, rfl⟩
  cases start : t.kind.termKind? with
  | none =>
      simp only [start] at run
      exact absurd run unexpected_ne_ok
  | some form =>
      have kind := TokenKind.eq_of_termKind? start
      have more : t.kind ≠ .endOfFile := by
        rw [kind]
        cases form <;> simp only [ne_eq, reduceCtorEq, not_false_eq_true]
      simp only [start] at run
      cases form with
      | integer =>
          rcases bind_eq_ok.mp run with ⟨_, p₂, skipped, run⟩
          have goes := (skip_ok skipped current more).trans (integerConstant_ok run)
          rw [Token.lexeme_eq_integer kind] at goes
          exact ⟨.integer t.text, trivial, goes⟩
      | string =>
          rcases bind_eq_ok.mp run with ⟨_, p₂, skipped, run⟩
          rcases stringConstant_ok run with ⟨fits, goesCode⟩
          have goes := (skip_ok skipped current more).trans goesCode
          rw [Token.lexeme_eq_string kind] at goes
          exact ⟨.string t.text, fits, goes⟩
      | constant k =>
          rcases bind_eq_ok.mp run with ⟨_, p₂, skipped, run⟩
          have goes := (skip_ok skipped current more).trans (emit_ok run)
          rw [Token.lexeme_eq_keyword kind, Code.constant_eq] at goes
          exact ⟨.constant k, trivial, goes⟩
      | unary o =>
          rcases bind_eq_ok.mp run with ⟨_, p₂, skipped, run⟩
          have goesOperator := skip_ok skipped current more
          rw [Token.lexeme_eq_symbol kind] at goesOperator
          rcases bind_eq_ok.mp run with ⟨_, p₃, readOperand, run⟩
          rcases below.term (goesOperator.names seen) readOperand with
            ⟨operand, acceptable, goesOperand⟩
          have goes := (goesOperator.trans goesOperand).trans (emit_ok run)
          rw [Code.unary_eq] at goes
          refine ⟨.unary o operand, acceptable, ?_⟩
          simpa only [Term.lexemes, Term.code, List.append_nil, List.nil_append,
            List.cons_append] using goes
      | parenthesis =>
          rcases bind_eq_ok.mp run with ⟨_, p₂, skipped, run⟩
          have goesOpen := skip_ok skipped current more
          rw [Token.lexeme_eq_symbol kind] at goesOpen
          rcases bind_eq_ok.mp run with ⟨_, p₃, readInner, run⟩
          rcases below.expression (goesOpen.names seen) readInner with
            ⟨inner, acceptable, goesInner⟩
          have goes := (goesOpen.trans goesInner).trans (symbol_ok run)
          refine ⟨.parenthesis inner, acceptable, ?_⟩
          simpa only [Term.lexemes, Term.code, List.append_nil, List.nil_append,
            List.cons_append] using goes
      | name => exact below.name_succ seen current kind run

end ReadTrees

/-- Every successful run has a tree. -/
theorem readTrees (names : Names) (className : String) (bound : Nat) :
    ReadTrees names className bound := by
  induction bound with
  | zero => exact readTrees_zero
  | succ bound inductionHypothesis =>
      exact
        { expression := inductionHypothesis.expression_succ
          operators := inductionHypothesis.operators_succ
          term := inductionHypothesis.term_succ
          element := inductionHypothesis.element_succ
          call := inductionHypothesis.call_succ
          arguments := inductionHypothesis.arguments_succ
          argumentsBehind := inductionHypothesis.argumentsBehind_succ }

end Step

end Jack
