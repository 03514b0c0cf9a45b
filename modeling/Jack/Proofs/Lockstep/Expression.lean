import Jack.Proofs.Grammar.Lexeme
import Jack.Proofs.Lockstep.Coupling

namespace Jack

/-!
# Expressions in step

Two compilations of expressions keep up with each other, by induction on the bounds of both.
-/

namespace PartialCoupling

variable {c : PartialCoupling} {className : String}

/-- Both compilations emit the same string, or complain about the same limit. -/
theorem inStep_stringConstant {t u : Token} (tokens : c.tokens t u) :
    c.InStep (Step.stringConstant t) (Step.stringConstant u) Eq := by
  have content : t.content = u.content := by
    rw [t.content_eq, u.content_eq, c.text tokens]
  unfold Step.stringConstant
  rw [content]
  split
  · exact inStep_unexpected _ tokens
  · split
    · exact inStep_unexpected _ tokens
    · exact inStep_emit _ _

/-- Both compilations emit the same number. -/
theorem inStep_integerConstant {t u : Token} (tokens : c.tokens t u) :
    c.InStep (Step.integerConstant t) (Step.integerConstant u) Eq := by
  unfold Step.integerConstant
  rw [c.text tokens]
  split
  · exact inStep_emit _ _
  · exact inStep_unexpected _ tokens

/-- What is called begins with a name in both compilations. -/
theorem opensWithName_callee (className : String) :
    c.OpensWithName (Step.callee className) (Step.callee className) Eq := by
  rw [Step.callee_eq]
  refine opensWithName fun first first' tokens => ?_
  refine (inStep_accept _).bind_eq fun dotted => ?_
  rw [c.text tokens]
  cases dotted with
  | true =>
      refine (inStep_consume _).bind fun member member' tokens' => ?_
      rw [c.text tokens']
      refine (inStep_symbol? _).bind_eq fun object => ?_
      cases object with
      | none => exact inStep_pure rfl
      | some object => exact (inStep_emit _ _).bind_eq fun _ => inStep_pure rfl
  | false => exact (inStep_emit _ _).bind_eq fun _ => inStep_pure rfl

/-- The functions on expressions keep up with each other under given bounds. -/
structure ExpressionsInStep (c : PartialCoupling) (className : String) (bound bound' : Nat) :
    Prop where
  expression : c.InStep (Step.expression className bound) (Step.expression className bound') Eq
  operators : c.InStep (Step.operators className bound) (Step.operators className bound') Eq
  term : c.InStep (Step.term className bound) (Step.term className bound') Eq
  element : c.OpensWithName (Step.element className bound) (Step.element className bound') Eq
  call : c.OpensWithName (Step.call className bound) (Step.call className bound') Eq
  arguments : c.InStep (Step.arguments className bound) (Step.arguments className bound') Eq
  argumentsBehind : ∀ count, c.InStep (Step.argumentsBehind className bound count)
    (Step.argumentsBehind className bound' count) Eq

/-- Nothing is said without a bound. -/
theorem expressionsInStep_zero_left (bound' : Nat) : ExpressionsInStep c className 0 bound' where
  expression := by rw [Step.expression]; exact inStep_exhausted_left
  operators := by rw [Step.operators]; exact inStep_exhausted_left
  term := by rw [Step.term]; exact inStep_exhausted_left
  element := by rw [Step.element]; exact opensWithName_exhausted_left
  call := by rw [Step.call]; exact opensWithName_exhausted_left
  arguments := by rw [Step.arguments]; exact inStep_exhausted_left
  argumentsBehind count := by rw [Step.argumentsBehind]; exact inStep_exhausted_left

namespace ExpressionsInStep

variable {bound bound' : Nat}

/-- What keeps up under one bound of the second compilation also does so if that bound is reached.
-/
theorem zero_right (inStep : ExpressionsInStep c className bound bound') :
    ExpressionsInStep c className bound 0 where
  expression := by rw [Step.expression.eq_1]; exact inStep.expression.exhausted_right
  operators := by rw [Step.operators.eq_1]; exact inStep.operators.exhausted_right
  term := by rw [Step.term.eq_1]; exact inStep.term.exhausted_right
  element := by rw [Step.element.eq_1]; exact inStep.element.exhausted_right
  call := by rw [Step.call.eq_1]; exact inStep.call.exhausted_right
  arguments := by rw [Step.arguments.eq_1]; exact inStep.arguments.exhausted_right
  argumentsBehind count := by
    rw [Step.argumentsBehind.eq_1]
    exact (inStep.argumentsBehind count).exhausted_right

variable (below : ExpressionsInStep c className bound bound')

include below

theorem expression_succ : c.InStep (Step.expression className (bound + 1))
    (Step.expression className (bound' + 1)) Eq := by
  rw [Step.expression, Step.expression]
  exact below.term.bind_eq fun _ => below.operators

theorem operators_succ : c.InStep (Step.operators className (bound + 1))
    (Step.operators className (bound' + 1)) Eq := by
  rw [Step.operators_eq, Step.operators_eq]
  refine inStep_peek.bind fun t u tokens => ?_
  rw [c.kind tokens]
  cases u.kind.binaryOperator? with
  | none => exact inStep_pure rfl
  | some o =>
      refine inStep_skip.bind_eq fun _ => ?_
      refine below.term.bind_eq fun _ => ?_
      exact (inStep_emit _ _).bind_eq fun _ => below.operators

/-- The token behind a name may already be the end of the common part.  Whatever the first
compilation does then, it passes the name. -/
theorem term_succ : c.InStep (Step.term className (bound + 1))
    (Step.term className (bound' + 1)) Eq := by
  rw [Step.term, Step.term]
  refine inStep_peek_bind fun t u tokens => ?_
  cases form : t.kind.termKind? with
  | none =>
      rw [c.kind tokens] at form
      rw [form]
      exact (inStep_unexpected _ tokens).at
  | some form' =>
      have name := TokenKind.eq_of_termKind? form
      rw [c.kind tokens] at form
      rw [form]
      cases form' with
      | integer => exact (inStep_skip.bind_eq fun _ => inStep_integerConstant tokens).at
      | string => exact (inStep_skip.bind_eq fun _ => inStep_stringConstant tokens).at
      | constant k => exact (inStep_skip.bind_eq fun _ => inStep_emit _ _).at
      | unary o =>
          refine (inStep_skip.bind_eq fun _ => ?_).at
          exact below.term.bind_eq fun _ => inStep_emit _ _
      | parenthesis =>
          refine (inStep_skip.bind_eq fun _ => ?_).at
          exact below.expression.bind_eq fun _ => inStep_symbol _
      | name =>
          refine inStepAt_peekNext_bind name fun next next' sameKind => ?_
          rw [sameKind]
          generalize next'.kind = second
          split
          · exact below.element
          · exact below.call
          · exact below.call
          · refine opensWithName fun name name' sameName => ?_
            exact (inStep_resolve sameName).bind_eq fun s => inStep_emit _ _

theorem element_succ : c.OpensWithName (Step.element className (bound + 1))
    (Step.element className (bound' + 1)) Eq := by
  rw [Step.element, Step.element]
  refine opensWithName fun name name' tokens => ?_
  refine (inStep_resolve tokens).bind_eq fun array => ?_
  refine (inStep_symbol _).bind_eq fun _ => ?_
  refine (inStep_emit _ _).bind_eq fun _ => ?_
  refine below.expression.bind_eq fun _ => ?_
  exact (inStep_symbol _).bind_eq fun _ => inStep_emit _ _

/-- Both compilations count the same arguments. -/
theorem call_succ : c.OpensWithName (Step.call className (bound + 1))
    (Step.call className (bound' + 1)) Eq := by
  rw [Step.call, Step.call]
  refine (opensWithName_callee className).bind_eq fun target => ?_
  refine (inStep_symbol _).bind_eq fun _ => ?_
  refine below.arguments.bind_eq fun listed => ?_
  refine (inStep_consume _).bind fun close close' tokens => ?_
  dsimp only
  split
  · exact inStep_unexpected _ tokens
  · exact inStep_emit _ _

theorem arguments_succ : c.InStep (Step.arguments className (bound + 1))
    (Step.arguments className (bound' + 1)) Eq := by
  rw [Step.arguments, Step.arguments]
  refine inStep_peek.bind fun t u tokens => ?_
  rw [c.kind tokens]
  split
  · exact inStep_pure rfl
  · exact below.argumentsBehind 0

/-- Both compilations have counted the same arguments so far. -/
theorem argumentsBehind_succ (count : Nat) :
    c.InStep (Step.argumentsBehind className (bound + 1) count)
      (Step.argumentsBehind className (bound' + 1) count) Eq := by
  rw [Step.argumentsBehind, Step.argumentsBehind]
  refine inStep_peek.bind fun t u tokens => ?_
  split
  · exact inStep_unexpected _ tokens
  · refine below.expression.bind_eq fun _ => ?_
    refine (inStep_accept _).bind_eq fun more => ?_
    cases more with
    | true => exact below.argumentsBehind (count + 1)
    | false => exact inStep_pure rfl

end ExpressionsInStep

/-- Compilations of expressions keep up with each other. -/
theorem expressionsInStep (c : PartialCoupling) (className : String) (bound bound' : Nat) :
    ExpressionsInStep c className bound bound' := by
  induction bound generalizing bound' with
  | zero => exact expressionsInStep_zero_left bound'
  | succ bound inductionHypothesis =>
      have step (bound' : Nat) : ExpressionsInStep c className (bound + 1) (bound' + 1) :=
        have below := inductionHypothesis bound'
        { expression := below.expression_succ
          operators := below.operators_succ
          term := below.term_succ
          element := below.element_succ
          call := below.call_succ
          arguments := below.arguments_succ
          argumentsBehind := below.argumentsBehind_succ }
      cases bound' with
      | zero => exact (step 0).zero_right
      | succ bound' => exact step bound'

end PartialCoupling

end Jack
