import Jack.Proofs.Lockstep.Expression

namespace Jack

/-!
# Statements in step

Compilations of statements keep up with each other, also if one of them leaves out the jump of a
`return` at the end of the subroutine and the other does not.  Only the first of them looks behind
such a `return`, so it may meet a lexical fault there while the other one goes on; but then the
other meets the same fault with its next look (`Lags`).
-/

namespace PartialCoupling

variable {c : PartialCoupling} {f g : Frame}

/-! ## Single statements -/

/-- Which form of assignment it is, is told by the same token in both compilations. -/
theorem inStep_letStatement (sameClass : f.className = g.className) (bound bound' : Nat) :
    c.InStep (Step.letStatement f bound) (Step.letStatement g bound') Eq := by
  unfold Step.letStatement
  rw [sameClass]
  have value := (expressionsInStep c g.className bound bound').expression
  refine inStep_skip.bind_eq fun _ => ?_
  refine (inStep_consume _).bind fun name name' tokens => ?_
  refine (inStep_resolve tokens).bind_eq fun target => ?_
  refine (inStep_accept _).bind_eq fun indexed => ?_
  cases indexed with
  | true =>
      refine (inStep_emit _ _).bind_eq fun _ => ?_
      refine value.bind_eq fun _ => ?_
      refine (inStep_symbol _).bind_eq fun _ => ?_
      refine (inStep_emit _ _).bind_eq fun _ => ?_
      refine (inStep_symbol _).bind_eq fun _ => ?_
      refine value.bind_eq fun _ => ?_
      exact (inStep_symbol _).bind_eq fun _ => inStep_emit _ _
  | false =>
      refine (inStep_symbol _).bind_eq fun _ => ?_
      refine value.bind_eq fun _ => ?_
      exact (inStep_symbol _).bind_eq fun _ => inStep_emit _ _

theorem inStep_doStatement (sameClass : f.className = g.className) (bound bound' : Nat) :
    c.InStep (Step.doStatement f bound) (Step.doStatement g bound') Eq := by
  unfold Step.doStatement
  rw [sameClass]
  refine inStep_skip.bind_eq fun _ => ?_
  refine (expressionsInStep c g.className bound bound').call.inStep.bind_eq fun _ => ?_
  exact (inStep_symbol _).bind_eq fun _ => inStep_emit _ _

theorem inStep_returnValue (sameClass : f.className = g.className) (bound bound' : Nat) :
    c.InStep (Step.returnValue f bound) (Step.returnValue g bound') Eq := by
  unfold Step.returnValue
  rw [sameClass]
  refine inStep_peek.bind fun t u tokens => ?_
  rw [c.kind tokens]
  split
  · exact inStep_pure rfl
  · exact (expressionsInStep c g.className bound bound').expression

/-- Two compilations decide alike whether a `return` jumps, if both leave out jumps or if they are
inside of a block, where every `return` jumps. -/
theorem inStep_needsJump {nested : Bool}
    (sameChoice : nested = true ∨ f.foldTailReturn = g.foldTailReturn) :
    c.InStep (Step.needsJump f nested) (Step.needsJump g nested) Eq := by
  have choice : (f.foldTailReturn && !nested) = (g.foldTailReturn && !nested) := by
    rcases sameChoice with inside | same
    · rw [inside, Bool.not_true, Bool.and_false, Bool.and_false]
    · rw [same]
  unfold Step.needsJump
  rw [choice]
  split
  · refine inStep_peek.bind fun t u tokens => ?_
    rw [c.kind tokens]
    exact inStep_pure rfl
  · exact inStep_pure rfl

/-- Both compilations decide on the jump in the same way: the statement stands in a block, or both
fold tail returns, or neither does. -/
theorem inStep_returnStatement (sameClass : f.className = g.className) {nested : Bool}
    (sameChoice : nested = true ∨ f.foldTailReturn = g.foldTailReturn) (bound bound' : Nat) :
    c.InStep (Step.returnStatement f bound nested) (Step.returnStatement g bound' nested) Eq := by
  unfold Step.returnStatement
  refine inStep_skip.bind_eq fun _ => ?_
  refine (inStep_returnValue sameClass bound bound').bind_eq fun _ => ?_
  refine (inStep_symbol _).bind_eq fun _ => ?_
  refine (inStep_needsJump sameChoice).bind_eq fun jumps => ?_
  cases jumps with
  | true => exact (inStep_emit _ _).bind_eq fun _ => inStep_pure rfl
  | false => exact inStep_pure rfl

/-! ## Statements and blocks -/

/-- The functions on statements keep up with each other under given bounds. -/
structure StatementsInStep (c : PartialCoupling) (f g : Frame) (bound bound' : Nat) : Prop where
  statements : ∀ {nested : Bool} (jumps : Bool),
    nested = true ∨ f.foldTailReturn = g.foldTailReturn →
    c.InStep (Step.statements f bound nested jumps) (Step.statements g bound' nested jumps) Eq
  statement : ∀ {nested : Bool} (kind : StatementKind),
    nested = true ∨ f.foldTailReturn = g.foldTailReturn →
    c.InStep (Step.statement f bound nested kind) (Step.statement g bound' nested kind) Eq
  block : c.InStep (Step.block f bound) (Step.block g bound') Eq
  ifStatement : c.InStep (Step.ifStatement f bound) (Step.ifStatement g bound') Eq
  whileStatement : c.InStep (Step.whileStatement f bound) (Step.whileStatement g bound') Eq

/-- Nothing is said without a bound. -/
theorem statementsInStep_zero_left (bound' : Nat) : StatementsInStep c f g 0 bound' where
  statements jumps _ := by rw [Step.statements]; exact inStep_exhausted_left
  statement kind _ := by rw [Step.statement]; exact inStep_exhausted_left
  block := by rw [Step.block]; exact inStep_exhausted_left
  ifStatement := by rw [Step.ifStatement]; exact inStep_exhausted_left
  whileStatement := by rw [Step.whileStatement]; exact inStep_exhausted_left

namespace StatementsInStep

variable {bound bound' : Nat}

/-- What keeps up under one bound of the second compilation also does so if that bound is reached.
-/
theorem zero_right (inStep : StatementsInStep c f g bound bound') :
    StatementsInStep c f g bound 0 where
  statements jumps sameChoice := by
    rw [Step.statements.eq_1]
    exact (inStep.statements jumps sameChoice).exhausted_right
  statement kind sameChoice := by
    rw [Step.statement.eq_1]
    exact (inStep.statement kind sameChoice).exhausted_right
  block := by rw [Step.block.eq_1]; exact inStep.block.exhausted_right
  ifStatement := by rw [Step.ifStatement.eq_1]; exact inStep.ifStatement.exhausted_right
  whileStatement := by rw [Step.whileStatement.eq_1]; exact inStep.whileStatement.exhausted_right

variable (sameClass : f.className = g.className) (below : StatementsInStep c f g bound bound')

include below

/-- Both compilations see the same first word of each statement, or a token that starts none. -/
theorem statements_succ {nested : Bool} (jumps : Bool)
    (sameChoice : nested = true ∨ f.foldTailReturn = g.foldTailReturn) :
    c.InStep (Step.statements f (bound + 1) nested jumps)
      (Step.statements g (bound' + 1) nested jumps) Eq := by
  rw [Step.statements, Step.statements]
  refine inStep_peek.bind fun t u tokens => ?_
  rw [c.kind tokens]
  cases u.kind.statementKind? with
  | none => exact inStep_pure rfl
  | some kind =>
      exact (below.statement kind sameChoice).bind_eq fun jumpsHere =>
        below.statements (jumps || jumpsHere) sameChoice

theorem block_succ : c.InStep (Step.block f (bound + 1)) (Step.block g (bound' + 1)) Eq := by
  rw [Step.block, Step.block]
  refine (inStep_symbol _).bind_eq fun _ => ?_
  refine (below.statements false (.inl rfl)).bind_eq fun jumps => ?_
  exact (inStep_symbol _).bind_eq fun _ => inStep_pure rfl

include sameClass

/-- Both compilations take the same label number, before those of the blocks. -/
theorem ifStatement_succ :
    c.InStep (Step.ifStatement f (bound + 1)) (Step.ifStatement g (bound' + 1)) Eq := by
  rw [Step.ifStatement, Step.ifStatement, sameClass]
  refine inStep_skip.bind_eq fun _ => ?_
  refine (inStep_symbol _).bind_eq fun _ => ?_
  refine (expressionsInStep c g.className bound bound').expression.bind_eq fun _ => ?_
  refine (inStep_symbol _).bind_eq fun _ => ?_
  refine inStep_freshLabel.bind_eq fun id => ?_
  refine (inStep_emit _ _).bind_eq fun _ => ?_
  refine below.block.bind_eq fun jumpsThen => ?_
  refine (inStep_accept _).bind_eq fun two => ?_
  cases two with
  | true =>
      refine (inStep_emit _ _).bind_eq fun _ => ?_
      refine below.block.bind_eq fun jumpsElse => ?_
      exact (inStep_emit _ _).bind_eq fun _ => inStep_pure rfl
  | false => exact (inStep_emit _ _).bind_eq fun _ => inStep_pure rfl

/-- Both compilations take the same label number, before those of the block. -/
theorem whileStatement_succ :
    c.InStep (Step.whileStatement f (bound + 1)) (Step.whileStatement g (bound' + 1)) Eq := by
  rw [Step.whileStatement, Step.whileStatement, sameClass]
  refine inStep_skip.bind_eq fun _ => ?_
  refine inStep_freshLabel.bind_eq fun id => ?_
  refine (inStep_emit _ _).bind_eq fun _ => ?_
  refine (inStep_symbol _).bind_eq fun _ => ?_
  refine (expressionsInStep c g.className bound bound').expression.bind_eq fun _ => ?_
  refine (inStep_symbol _).bind_eq fun _ => ?_
  refine (inStep_emit _ _).bind_eq fun _ => ?_
  refine below.block.bind_eq fun jumps => ?_
  exact (inStep_emit _ _).bind_eq fun _ => inStep_pure rfl

theorem statement_succ {nested : Bool} (kind : StatementKind)
    (sameChoice : nested = true ∨ f.foldTailReturn = g.foldTailReturn) :
    c.InStep (Step.statement f (bound + 1) nested kind)
      (Step.statement g (bound' + 1) nested kind) Eq := by
  cases kind <;> rw [Step.statement, Step.statement]
  case «let» =>
      exact (inStep_letStatement sameClass bound bound').bind_eq fun _ => inStep_pure rfl
  case «do» =>
      exact (inStep_doStatement sameClass bound bound').bind_eq fun _ => inStep_pure rfl
  case «return» => exact inStep_returnStatement sameClass sameChoice bound bound'
  case «if» => exact below.ifStatement
  case «while» => exact below.whileStatement

end StatementsInStep

/-- Compilations of statements keep up with each other. -/
theorem statementsInStep (c : PartialCoupling) (sameClass : f.className = g.className)
    (bound bound' : Nat) : StatementsInStep c f g bound bound' := by
  induction bound generalizing bound' with
  | zero => exact statementsInStep_zero_left bound'
  | succ bound inductionHypothesis =>
      have step (bound' : Nat) : StatementsInStep c f g (bound + 1) (bound' + 1) :=
        have below := inductionHypothesis bound'
        { statements := below.statements_succ
          statement := below.statement_succ sameClass
          block := below.block_succ
          ifStatement := below.ifStatement_succ sameClass
          whileStatement := below.whileStatement_succ sameClass }
      cases bound' with
      | zero => exact (step 0).zero_right
      | succ bound' => exact step bound'

/-! ## The end of a subroutine -/

/-- Two steps keep up with each other, except that the second may succeed in front of a lexical
fault for which the first has failed. -/
structure Lags {α β : Type} (c : PartialCoupling) (x : Step α) (y : Step β)
    (related : α → β → Prop) : Prop where
  meets : ∀ p q, c.Alike p q → c.Meets related (x p) (y q) ∨
    ∃ e p' b q' e', x p = .error (.failed e) p' ∧ y q = .ok b q' ∧
      q'.stream.current = .error e' ∧ c.errors e (.token (.lexical e'))
  behind : ∀ p, c.passed p.stream → c.Behind related (x p)

section Lags

variable {α α' β β' : Type} {x : Step α} {y : Step β} {h : α → Step α'} {k : β → Step β'}
  {related : α → β → Prop} {related' : α' → β' → Prop}

/-- Steps that are in step keep up with each other in this sense, too. -/
theorem InStep.lags (inStep : c.InStep x y related) : c.Lags x y related where
  meets p q alike := .inl (inStep.meets p q alike)
  behind := inStep.behind

theorem Lags.exhausted_right {z : Step β} (lags : c.Lags x z related) :
    c.Lags x Step.exhausted related where
  meets _ _ _ := .inl .rightDefect
  behind := lags.behind

/-- A step in common may stand in front. -/
theorem InStep.bind_lags (first : c.InStep x y related)
    (second : ∀ a b, related a b → c.Lags (h a) (k b) related') :
    c.Lags (x >>= h) (y >>= k) related' where
  meets p q alike := by
    have meets := first.meets p q alike
    have continued (left : c.Behind related (x p)) : c.Behind related' ((x >>= h) p) :=
      left.bind fun a b r results => (second a b results).behind r
    simp only [Bind.bind, EStateM.bind] at continued ⊢
    generalize x p = left, y q = right at meets continued ⊢
    cases meets with
    | ok results alike => exact (second _ _ results).meets _ _ alike
    | failed errors => exact .inl (.failed errors)
    | leftDefect => exact .inl .leftDefect
    | rightDefect => exact .inl .rightDefect
    | behind left => exact .inl (.behind (continued left))
  behind p passed := (first.behind p passed).bind fun a b q results => (second a b results).behind q

/-- In front of a lexical fault the step fails for it, unless its bound is reached. -/
def Looks (y : Step β) : Prop :=
  ∀ q e, q.stream.current = .error e →
    y q = .error (.failed (.token (.lexical e))) q ∨ ∃ q', y q = .error (.defect .exhausted) q'

/-- The second step catches up if it goes on with a look at the current token. -/
theorem Lags.bind (first : c.Lags x y related)
    (second : ∀ a b, related a b → c.InStep (h a) (k b) related')
    (looks : ∀ b, Looks (k b)) : c.InStep (x >>= h) (y >>= k) related' where
  meets p q alike := by
    rcases first.meets p q alike with meets | ⟨e, p', b, q', e', left, right, fault, errors⟩
    · exact meets.bind second
    · simp only [Bind.bind, EStateM.bind, left, right]
      rcases looks b q' e' fault with failed | ⟨q'', exhausted⟩
      · rw [failed]
        exact .failed errors
      · rw [exhausted]
        exact .rightDefect
  behind p passed := (first.behind p passed).bind fun a b q results => (second a b results).behind q

end Lags

/-- Statements begin with a look at the current token.  It is the same look that the decision on a
jump has made. -/
theorem looks_statements (bound : Nat) (nested jumps : Bool) :
    Looks (Step.statements g bound nested jumps) := by
  intro q e fault
  cases bound with
  | zero =>
      rw [Step.statements]
      exact .inr ⟨q, rfl⟩
  | succ bound =>
      rw [Step.statements]
      left
      simp only [Bind.bind, EStateM.bind, Step.peek, TokenStream.peek, fault]

/-- What a `return` does behind its value: it jumps if it has to. -/
def jumpIfNeeded (f : Frame) (nested : Bool) : Step Bool := do
  if ← Step.needsJump f nested then
    Step.emit [.goto f.endLabel]
    return true
  else return false

/-- The decision on a jump fails if there is no token to look at, and otherwise it emits a jump or
not.  It changes nothing else. -/
theorem jumpIfNeeded_eq (f : Frame) (nested : Bool) (p : Progress) :
    (∃ e, p.stream.current = .error e ∧
        jumpIfNeeded f nested p = .error (.failed (.token (.lexical e))) p) ∨
      ∃ jumps code, jumpIfNeeded f nested p = .ok jumps { p with code := code } := by
  have decided (jumps : Bool) : ∃ result code,
      (if jumps then (do Step.emit [.goto f.endLabel]; return true)
        else return false : Step Bool) p =
        .ok result { p with code := code } := by
    cases jumps with
    | true => exact ⟨true, _, rfl⟩
    | false => exact ⟨false, _, rfl⟩
  unfold jumpIfNeeded Step.needsJump
  cases f.foldTailReturn && !nested with
  | false => exact .inr (decided true)
  | true =>
      simp only [if_true, Bind.bind, EStateM.bind, Step.peek, TokenStream.peek]
      cases p.stream.current with
      | error e => exact .inl ⟨e, rfl, rfl⟩
      | ok t => exact .inr (decided _)

/-- If tail returns are not folded, a `return` statement always jumps, without a look at the next
token. -/
theorem jumpIfNeeded_of_not_fold (keeps : g.foldTailReturn = false) (nested : Bool)
    (q : Progress) :
    jumpIfNeeded g nested q =
      .ok true { q with code := [Command.goto g.endLabel].foldl Array.push q.code } := by
  simp only [jumpIfNeeded, Step.needsJump, keeps, Bool.false_and]
  rfl

/-- A look decides about the jump of the first `return`, and the second jumps in any case. -/
theorem lags_jumpIfNeeded (keeps : g.foldTailReturn = false) (nested : Bool) :
    c.Lags (jumpIfNeeded f nested) (jumpIfNeeded g nested) fun _ _ => True where
  meets p q alike := by
    have right := jumpIfNeeded_of_not_fold keeps nested q
    rcases jumpIfNeeded_eq f nested p with ⟨e, fault, left⟩ | ⟨jumps, code, left⟩
    · have items := c.current alike.stream
      rw [fault] at items
      cases fault' : q.stream.current with
      | ok u =>
          rw [fault'] at items
          exact items.elim
      | error e' =>
          rw [fault'] at items
          exact .inr ⟨_, _, _, _, _, left, right, fault', items⟩
    · rw [left, right]
      exact .inl (.ok trivial ⟨alike.stream, alike.symbols, alike.labels⟩)
  behind p passed := by
    rcases jumpIfNeeded_eq f nested p with ⟨e, -, left⟩ | ⟨jumps, code, left⟩
    · rw [left]
      exact .inl passed
    · rw [left]
      exact ⟨passed, true, trivial⟩

/-- A compilation that does not fold makes no look behind a `return` statement, and so the other one
may fail first. -/
theorem lags_returnStatement (sameClass : f.className = g.className)
    (keeps : g.foldTailReturn = false) (nested : Bool) (bound bound' : Nat) :
    c.Lags (Step.returnStatement f bound nested) (Step.returnStatement g bound' nested)
      fun _ _ => True := by
  refine inStep_skip.bind_lags fun _ _ _ => ?_
  refine (inStep_returnValue sameClass bound bound').bind_lags fun _ _ _ => ?_
  refine (inStep_symbol _).bind_lags fun _ _ _ => ?_
  exact lags_jumpIfNeeded keeps nested

/-- Only `return` statements make a difference, and only outside of all blocks. -/
theorem lags_statement (sameClass : f.className = g.className) (keeps : g.foldTailReturn = false)
    (nested : Bool) (kind : StatementKind) (bound bound' : Nat) :
    c.Lags (Step.statement f bound nested kind) (Step.statement g bound' nested kind)
      fun _ _ => True := by
  cases bound with
  | zero =>
      rw [Step.statement]
      exact inStep_exhausted_left.lags
  | succ bound =>
      have step (bound' : Nat) : c.Lags (Step.statement f (bound + 1) nested kind)
          (Step.statement g (bound' + 1) nested kind) fun _ _ => True := by
        have within := statementsInStep c sameClass bound bound'
        cases kind <;> rw [Step.statement, Step.statement]
        case «let» =>
            exact ((inStep_letStatement sameClass bound bound').bind_eq fun _ =>
              inStep_pure trivial).lags
        case «do» =>
            exact ((inStep_doStatement sameClass bound bound').bind_eq fun _ =>
              inStep_pure trivial).lags
        case «return» => exact lags_returnStatement sameClass keeps nested bound bound'
        case «if» => exact (within.ifStatement.mono fun _ _ _ => trivial).lags
        case «while» => exact (within.whileStatement.mono fun _ _ _ => trivial).lags
      cases bound' with
      | zero =>
          rw [Step.statement.eq_1 (f := g)]
          exact (step 0).exhausted_right
      | succ bound' => exact step bound'

/-- All statements of a subroutine keep up with each other, whether or not the first compilation
leaves out jumps. -/
theorem inStep_statements_of_not_fold (sameClass : f.className = g.className)
    (keeps : g.foldTailReturn = false) (nested jumps jumps' : Bool) (bound bound' : Nat) :
    c.InStep (Step.statements f bound nested jumps) (Step.statements g bound' nested jumps')
      fun _ _ => True := by
  induction bound generalizing bound' jumps jumps' with
  | zero =>
      rw [Step.statements]
      exact inStep_exhausted_left
  | succ bound inductionHypothesis =>
      refine inStep_of_bound (z := fun bound' => Step.statements g bound' nested jumps')
        (Step.statements.eq_1 g nested jumps') (fun bound' => ?_) bound'
      rw [Step.statements, Step.statements]
      refine inStep_peek.bind fun t u tokens => ?_
      rw [c.kind tokens]
      cases u.kind.statementKind? with
      | none => exact inStep_pure trivial
      | some kind =>
          refine (lags_statement sameClass keeps nested kind bound bound').bind ?_ ?_
          · exact fun jumpsHere jumpsHere' _ => inductionHypothesis _ _ bound'
          · exact fun jumpsHere' => looks_statements bound' nested _

end PartialCoupling

end Jack
