import Jack.Compiler.Class

namespace Jack

/-!
# The bound on the number of steps

Every function of the compiler takes a bound on the number of calls behind it.  Here it is shown
that a bound in proportion to the number of tokens left is never reached: on the way from a call
back to the same function at least one token is passed.  Neither is any other defect met.  The main
statement is `Step.wholeClass_ne_defect`, which lets the compiler be a total function of its source.
-/

/-- Upper bound for the number of tokens that are left to a compilation. -/
def Progress.remaining (p : Progress) : Nat := p.stream.remaining

namespace Step

/-- The step does not run into its bound or another defect, and if it succeeds, fewer than `m`
tokens are left. -/
def Finishes {α : Type} (x : Step α) (p : Progress) (m : Nat) : Prop :=
  match x p with
  | .ok _ q => q.remaining < m
  | .error (.failed _) _ => True
  | .error (.defect _) _ => False

/-- The bound on the tokens left may be raised. -/
theorem Finishes.mono {α : Type} {x : Step α} {p : Progress} {m k : Nat}
    (finishes : x.Finishes p m) (le : m ≤ k) : x.Finishes p k := by
  unfold Finishes at *
  cases result : x p with
  | ok a q =>
    rw [result] at finishes
    exact Nat.lt_of_lt_of_le finishes le
  | error stop q =>
    rw [result] at finishes
    cases stop <;> simp_all

/-- Steps finish behind steps that finish.  The second steps may rely on what the first ones have
left, and only where there is no error. -/
theorem Finishes.bind {α β : Type} {x : Step α} {f : α → Step β} {p : Progress}
    {m k : Nat} (first : x.Finishes p m)
    (second : ∀ a q, q.remaining < m → (f a).Finishes q k) :
    (x >>= f).Finishes p k := by
  unfold Finishes at *
  simp only [Bind.bind, EStateM.bind]
  cases result : x p with
  | ok a q =>
    rw [result] at first
    exact second a q first
  | error stop q =>
    rw [result] at first
    cases stop <;> simp_all

/-- Nothing is read, so what is left before has to be small enough already. -/
theorem finishes_pure {α : Type} (a : α) {p : Progress} {m : Nat}
    (left : p.remaining < m) : (pure a : Step α).Finishes p m := left

/-- A reported error is an end.  It says nothing about the tokens that are left. -/
theorem finishes_fail {α : Type} (e : CompileError) {p : Progress} {m : Nat} :
    (fail e : Step α).Finishes p m := trivial

/-- A complaint about a token is an end. -/
theorem finishes_unexpected {α : Type} (expected : String) (t : Token) {p : Progress} {m : Nat} :
    (unexpected expected t : Step α).Finishes p m := trivial

theorem finishes_emit (commands : List Command) {p : Progress} {m : Nat}
    (left : p.remaining < m) : (emit commands).Finishes p m := left

/-- Events are recorded without reading. -/
theorem finishes_record (e : Event) {p : Progress} {m : Nat}
    (left : p.remaining < m) : (record e).Finishes p m := left

theorem finishes_freshLabel {p : Progress} {m : Nat}
    (left : p.remaining < m) : freshLabel.Finishes p m := left

theorem finishes_codeSize {p : Progress} {m : Nat}
    (left : p.remaining < m) : codeSize.Finishes p m := left

theorem finishes_symbol? (name : String) {p : Progress} {m : Nat}
    (left : p.remaining < m) : (symbol? name).Finishes p m := left

theorem finishes_count (kind : SymbolKind) {p : Progress} {m : Nat}
    (left : p.remaining < m) : (count kind).Finishes p m := left

/-- A name is resolved without reading; if it is unknown, that is an end. -/
theorem finishes_resolve (name : Token) {p : Progress} {m : Nat}
    (left : p.remaining < m) : (resolve name).Finishes p m := by
  unfold Finishes
  rw [resolve_eq]
  cases p.symbols.lookup name.text with
  | ok s => exact left
  | error e => trivial

/-- A definition reads no tokens, whether there is room for the name or not. -/
theorem finishes_locate_define (place : Location) (name type : String) (kind : SymbolKind)
    {p : Progress} {m : Nat} (left : p.remaining < m) :
    (locate place (define name type kind)).Finishes p m := by
  unfold Finishes
  rw [locate_define]
  cases p.symbols.define name type kind with
  | ok r => exact left
  | error e => trivial

/-- A declaration reads no tokens.  It may be refused, which is an end as well. -/
theorem finishes_declare (options : Options) (name : Token) (type : String) (kind : SymbolKind)
    {p : Progress} {m : Nat} (left : p.remaining < m) :
    (declare options name type kind).Finishes p m := by
  refine (finishes_locate_define _ _ _ _ left).bind fun previous q left => ?_
  cases previous with
  | none => exact finishes_pure _ left
  | some previous =>
    dsimp only
    split
    · exact finishes_fail _
    · exact finishes_record _ left

/-- Looking at the current token tells which token it is and changes nothing. -/
theorem finishes_peek_bind {β : Type} {f : Token → Step β} {p : Progress} {m : Nat}
    (behind : ∀ t, p.stream.current = .ok t → (f t).Finishes p m) :
    (peek >>= f).Finishes p m := by
  unfold Finishes
  simp only [Bind.bind, EStateM.bind, peek, TokenStream.peek]
  cases current : p.stream.current with
  | ok t => exact behind t current
  | error e => trivial

/-- A look at the token behind the current one moves nothing, whatever it shows. -/
theorem finishes_peekNext_bind {β : Type} {f : Token → Step β} {p : Progress} {m : Nat}
    (behind : ∀ t, (f t).Finishes p m) : (peekNext >>= f).Finishes p m := by
  unfold Finishes
  simp only [Bind.bind, EStateM.bind, peekNext]
  cases p.stream.peekNext with
  | ok t => exact behind t
  | error e => trivial

/-- Passing a token that is not the end of file leaves fewer tokens. -/
theorem finishes_skip {p : Progress} {t : Token} {m : Nat} (current : p.stream.current = .ok t)
    (more : t.kind ≠ .endOfFile) (left : p.remaining ≤ m) : skip.Finishes p m :=
  Nat.lt_of_lt_of_le (TokenStream.remaining_advance_lt current more) left

/-- Consuming a token leaves fewer of them, or there is an error.  The end of file is left out,
since it can be consumed for ever. -/
theorem finishes_consume (kind : TokenKind) {p : Progress} {m : Nat} (left : p.remaining ≤ m)
    (more : kind ≠ .endOfFile) : (consume kind).Finishes p m := by
  unfold Finishes consume TokenStream.consume TokenStream.consumeIf
  cases current : p.stream.current with
  | error e => trivial
  | ok t =>
    by_cases same : t.kind = kind
    · simp only [List.mem_singleton, same, if_true]
      exact Nat.lt_of_lt_of_le (TokenStream.remaining_advance_lt current (same ▸ more)) left
    · simp [same]

/-- The end of file may be passed without end. -/
theorem finishes_consume_endOfFile {p : Progress} {m : Nat} (left : p.remaining < m) :
    (consume .endOfFile).Finishes p m := by
  unfold Finishes consume TokenStream.consume TokenStream.consumeIf
  cases current : p.stream.current with
  | error e => trivial
  | ok t =>
    by_cases same : t.kind = .endOfFile
    · have stays : p.stream.advance.remaining = p.stream.remaining := by
        simp [TokenStream.advance, TokenStream.remaining, current, same]
      simp only [List.mem_singleton, same, if_true]
      exact Nat.lt_of_le_of_lt (Nat.le_of_eq stays) left
    · simp [same]

theorem finishes_symbol (s : Punctuation) {p : Progress} {m : Nat} (left : p.remaining ≤ m) :
    (symbol s).Finishes p m :=
  (finishes_consume _ left (by simp)).bind fun _ _ left => finishes_pure _ left

/-- Accepting a token leaves fewer tokens, or as many if the token has another kind. -/
theorem finishes_accept_bind {β : Type} {f : Bool → Step β} {kind : TokenKind} {p : Progress}
    {m : Nat} (more : kind ≠ .endOfFile)
    (accepted : ∀ q, q.remaining < p.remaining → (f true).Finishes q m)
    (refused : (f false).Finishes p m) : (accept kind >>= f).Finishes p m := by
  unfold Finishes
  simp only [Bind.bind, EStateM.bind, accept, TokenStream.accept]
  cases current : p.stream.current with
  | error e => trivial
  | ok t =>
    by_cases same : t.kind = kind
    · simp only [same, if_true]
      exact accepted _ (TokenStream.remaining_advance_lt current (same ▸ more))
    · simp only [same, if_false]
      exact refused

/-- The commands for a string constant are emitted without reading, or one of its two limits is
reported. -/
theorem finishes_stringConstant (t : Token) {p : Progress} {m : Nat}
    (left : p.remaining < m) : (stringConstant t).Finishes p m := by
  unfold stringConstant
  split
  · exact finishes_unexpected _ _
  · split
    · exact finishes_unexpected _ _
    · exact finishes_emit _ left

theorem finishes_integerConstant (t : Token) {p : Progress} {m : Nat}
    (left : p.remaining < m) : (integerConstant t).Finishes p m := by
  unfold integerConstant
  split
  · exact finishes_emit _ left
  · exact finishes_unexpected _ _

/-- The name of what is called is one identifier or two with a dot between them. -/
theorem finishes_callee (className : String) {p : Progress} {m : Nat}
    (left : p.remaining ≤ m) : (callee className).Finishes p m := by
  rw [callee_eq]
  refine (finishes_consume _ left (by simp)).bind fun first q left => ?_
  refine finishes_accept_bind (by simp) (fun q' less => ?_) ?_
  · refine (finishes_consume (m := m) _ (by omega) (by simp)).bind fun member q left => ?_
    refine (finishes_symbol? _ left).bind fun object q left => ?_
    cases object with
    | none => exact finishes_pure _ left
    | some object =>
      exact (finishes_emit _ left).bind fun _ q left => finishes_pure _ left
  · exact (finishes_emit _ left).bind fun _ q left => finishes_pure _ left

/-! ## Expressions -/

/-- The functions on expressions finish under a bound that is large enough for each of them.  A
function may need a smaller bound than those that call it without passing a token. -/
structure FinishesExpressions (className : String) (bound : Nat) : Prop where
  expression : ∀ p, 8 * p.remaining + 3 ≤ bound →
    (expression className bound).Finishes p p.remaining
  operators : ∀ p, 8 * p.remaining + 1 ≤ bound →
    (operators className bound).Finishes p (p.remaining + 1)
  term : ∀ p, 8 * p.remaining + 2 ≤ bound → (term className bound).Finishes p p.remaining
  element : ∀ p, 8 * p.remaining + 1 ≤ bound → (element className bound).Finishes p p.remaining
  call : ∀ p, 8 * p.remaining + 1 ≤ bound → (call className bound).Finishes p p.remaining
  arguments : ∀ p, 8 * p.remaining + 5 ≤ bound →
    (arguments className bound).Finishes p (p.remaining + 1)
  argumentsBehind : ∀ count p, 8 * p.remaining + 4 ≤ bound →
    (argumentsBehind className bound count).Finishes p p.remaining

/-- No bound is large enough if it is zero. -/
theorem finishesExpressions_zero (className : String) : FinishesExpressions className 0 := by
  constructor <;> intros <;> omega

namespace FinishesExpressions

variable {className : String} {bound : Nat} (below : FinishesExpressions className bound)
  {p : Progress}

include below

/-- One more step of the bound is enough for an expression, if the bound so far is enough for the
term in front and the operators behind it. -/
theorem expression_succ (enough : 8 * p.remaining + 3 ≤ bound + 1) :
    (Step.expression className (bound + 1)).Finishes p p.remaining := by
  rw [Step.expression]
  refine (below.term p (by omega)).bind fun _ q less => ?_
  exact (below.operators q (by omega)).mono (by omega)

/-- Operators may be missing, so nothing need be read.  Behind an operator, the term has read a
token, and the bound for one token fewer is enough for the rest. -/
theorem operators_succ (enough : 8 * p.remaining + 1 ≤ bound + 1) :
    (Step.operators className (bound + 1)).Finishes p (p.remaining + 1) := by
  rw [operators_eq]
  refine finishes_peek_bind fun t current => ?_
  cases operator : t.kind.binaryOperator? with
  | none => exact finishes_pure _ (by omega)
  | some o =>
    have more : t.kind ≠ .endOfFile := by
      intro last
      simp [last, TokenKind.binaryOperator?] at operator
    refine (finishes_skip current more (Nat.le_refl _)).bind fun _ q less => ?_
    refine (below.term q (by omega)).bind fun _ q less' => ?_
    refine (finishes_emit (m := p.remaining) _ (by omega)).bind fun _ q less => ?_
    exact (below.operators q (by omega)).mono (by omega)

/-- A term that starts with a name calls the function for its form without passing a token. -/
theorem name (following : Token) (enough : 8 * p.remaining + 1 ≤ bound) :
    Finishes
      (match following.kind with
        | .symbol .leftBracket => Step.element className bound
        | .symbol .leftParen => Step.call className bound
        | .symbol .dot => Step.call className bound
        | _ => do
          let name ← consume .identifier
          pushVariable (← resolve name)) p p.remaining := by
  split
  · exact below.element p enough
  · exact below.call p enough
  · exact below.call p enough
  · refine (finishes_consume _ (Nat.le_refl _) (by simp)).bind fun name q less => ?_
    exact (finishes_resolve _ less).bind fun s q less => finishes_emit _ less

/-- A term reads a token by itself or starts with an operator or a parenthesis; in front of an array
element or a call it reads nothing and passes the bound on. -/
theorem term_succ (enough : 8 * p.remaining + 2 ≤ bound + 1) :
    (Step.term className (bound + 1)).Finishes p p.remaining := by
  rw [Step.term]
  refine finishes_peek_bind fun t current => ?_
  by_cases last : t.kind = .endOfFile
  · simp only [last, TokenKind.termKind?]
    exact finishes_unexpected _ _
  have skipping := finishes_skip current last (Nat.le_refl p.remaining)
  cases t.kind.termKind? with
  | none => exact finishes_unexpected _ _
  | some kind =>
    cases kind with
    | integer => exact skipping.bind fun _ q less => finishes_integerConstant _ less
    | string => exact skipping.bind fun _ q less => finishes_stringConstant _ less
    | constant k => exact skipping.bind fun _ q less => finishes_emit _ less
    | unary o =>
      refine skipping.bind fun _ q less => ?_
      refine (below.term q (by omega)).bind fun _ q' less' => ?_
      exact finishes_emit _ (by omega)
    | parenthesis =>
      refine skipping.bind fun _ q less => ?_
      refine (below.expression q (by omega)).bind fun _ q' less' => ?_
      exact finishes_symbol _ (by omega)
    | name => exact finishes_peekNext_bind fun following => below.name following (by omega)

/-- The name and the bracket are read before the index is. -/
theorem element_succ (enough : 8 * p.remaining + 1 ≤ bound + 1) :
    (Step.element className (bound + 1)).Finishes p p.remaining := by
  rw [Step.element]
  refine (finishes_consume _ (Nat.le_refl _) (by simp)).bind fun name q less => ?_
  refine (finishes_resolve _ less).bind fun array q less => ?_
  refine (finishes_symbol (m := p.remaining) _ (by omega)).bind fun _ q less => ?_
  refine (finishes_emit _ less).bind fun _ q less => ?_
  refine (below.expression q (by omega)).bind fun _ q' less' => ?_
  refine (finishes_symbol (m := p.remaining) _ (by omega)).bind fun _ q less => ?_
  exact finishes_emit _ less

/-- The name of the callee is read before the arguments are. -/
theorem call_succ (enough : 8 * p.remaining + 1 ≤ bound + 1) :
    (Step.call className (bound + 1)).Finishes p p.remaining := by
  rw [Step.call]
  refine (finishes_callee _ (Nat.le_refl _)).bind fun target q less => ?_
  refine (finishes_symbol (m := p.remaining - 1) _ (by omega)).bind fun _ q less => ?_
  refine (below.arguments q (by omega)).bind fun listed q' less' => ?_
  refine (finishes_consume (m := p.remaining) _ (by omega) (by simp)).bind
    fun close q less => ?_
  dsimp only
  split
  · exact finishes_unexpected _ _
  · exact finishes_emit _ less

/-- There may be no arguments, and then nothing is read. -/
theorem arguments_succ (enough : 8 * p.remaining + 5 ≤ bound + 1) :
    (Step.arguments className (bound + 1)).Finishes p (p.remaining + 1) := by
  rw [Step.arguments]
  refine finishes_peek_bind fun t current => ?_
  split
  · exact finishes_pure _ (by omega)
  · exact (below.argumentsBehind 0 p (by omega)).mono (by omega)

/-- Each argument reads a token, and so does the comma between two of them. -/
theorem argumentsBehind_succ (count : Nat) (enough : 8 * p.remaining + 4 ≤ bound + 1) :
    (Step.argumentsBehind className (bound + 1) count).Finishes p p.remaining := by
  rw [Step.argumentsBehind]
  refine finishes_peek_bind fun t current => ?_
  split
  · exact finishes_unexpected _ _
  · refine (below.expression p (by omega)).bind fun _ q less => ?_
    refine finishes_accept_bind (by simp) (fun q' less' => ?_) ?_
    · exact (below.argumentsBehind (count + 1) q' (by omega)).mono (by omega)
    · exact finishes_pure _ less

/-- The functions for expressions finish within a bound if they do within the bound before it. -/
theorem succ : FinishesExpressions className (bound + 1) where
  expression _ := below.expression_succ
  operators _ := below.operators_succ
  term _ := below.term_succ
  element _ := below.element_succ
  call _ := below.call_succ
  arguments _ := below.arguments_succ
  argumentsBehind count _ := below.argumentsBehind_succ count

end FinishesExpressions

/-- The functions for expressions finish within every bound that is large enough for the tokens
left.  Eight steps for each of them do, with a few more that depend on the function. -/
theorem finishesExpressions (className : String) (bound : Nat) :
    FinishesExpressions className bound := by
  induction bound with
  | zero => exact finishesExpressions_zero className
  | succ bound below => exact below.succ

theorem finishes_expression (className : String) {bound : Nat} {p : Progress} {m : Nat}
    (enough : 8 * p.remaining + 3 ≤ bound) (left : p.remaining ≤ m) :
    (expression className bound).Finishes p m :=
  ((finishesExpressions className bound).expression p enough).mono left

theorem finishes_call (className : String) {bound : Nat} {p : Progress} {m : Nat}
    (enough : 8 * p.remaining + 1 ≤ bound) (left : p.remaining ≤ m) :
    (call className bound).Finishes p m :=
  ((finishesExpressions className bound).call p enough).mono left

/-! ## Statements -/

/-- The word `let` is skipped, which leaves enough of the bound for both expressions. -/
theorem finishes_letStatement (f : Frame) {bound : Nat} {p : Progress} {t : Token}
    (current : p.stream.current = .ok t) (more : t.kind ≠ .endOfFile)
    (enough : 8 * p.remaining ≤ bound) : (letStatement f bound).Finishes p p.remaining := by
  refine (finishes_skip current more (Nat.le_refl _)).bind fun _ q less => ?_
  refine (finishes_consume (m := p.remaining) _ (by omega) (by simp)).bind fun name q less => ?_
  refine (finishes_resolve _ less).bind fun target q less => ?_
  refine finishes_accept_bind (by simp) (fun q' less' => ?_) ?_
  · refine (finishes_emit (m := p.remaining) _ (by omega)).bind fun _ q less => ?_
    refine (finishes_expression (m := p.remaining) _ (by omega) (by omega)).bind
      fun _ q less => ?_
    refine (finishes_symbol (m := p.remaining) _ (by omega)).bind fun _ q less => ?_
    refine (finishes_emit _ less).bind fun _ q less => ?_
    refine (finishes_symbol (m := p.remaining) _ (by omega)).bind fun _ q less => ?_
    refine (finishes_expression (m := p.remaining) _ (by omega) (by omega)).bind
      fun _ q less => ?_
    refine (finishes_symbol (m := p.remaining) _ (by omega)).bind fun _ q less => ?_
    exact finishes_emit _ less
  · refine (finishes_symbol (m := p.remaining) _ (by omega)).bind fun _ q less => ?_
    refine (finishes_expression (m := p.remaining) _ (by omega) (by omega)).bind
      fun _ q less => ?_
    refine (finishes_symbol (m := p.remaining) _ (by omega)).bind fun _ q less => ?_
    exact finishes_emit _ less

/-- The word `do` is skipped, which leaves enough of the bound for the call. -/
theorem finishes_doStatement (f : Frame) {bound : Nat} {p : Progress} {t : Token}
    (current : p.stream.current = .ok t) (more : t.kind ≠ .endOfFile)
    (enough : 8 * p.remaining ≤ bound) : (doStatement f bound).Finishes p p.remaining := by
  refine (finishes_skip current more (Nat.le_refl _)).bind fun _ q less => ?_
  refine (finishes_call (m := p.remaining) _ (by omega) (by omega)).bind fun _ q less => ?_
  refine (finishes_symbol (m := p.remaining) _ (by omega)).bind fun _ q less => ?_
  exact finishes_emit _ less

/-- A value may be missing, and then nothing is read. -/
theorem finishes_returnValue (f : Frame) {bound : Nat} {p : Progress}
    (enough : 8 * p.remaining + 3 ≤ bound) :
    (returnValue f bound).Finishes p (p.remaining + 1) := by
  refine finishes_peek_bind fun t current => ?_
  split
  · exact finishes_pure _ (by omega)
  · exact finishes_expression _ enough (by omega)

/-- It takes one look at the current token to decide on a jump, unless the statement is nested. -/
theorem finishes_needsJump (f : Frame) (nested : Bool) {p : Progress} {m : Nat}
    (left : p.remaining < m) : (needsJump f nested).Finishes p m := by
  unfold needsJump
  split
  · exact finishes_peek_bind fun t current => finishes_pure _ left
  · exact finishes_pure _ left

theorem finishes_returnStatement (f : Frame) (nested : Bool) {bound : Nat} {p : Progress}
    {t : Token} (current : p.stream.current = .ok t) (more : t.kind ≠ .endOfFile)
    (enough : 8 * p.remaining ≤ bound) :
    (returnStatement f bound nested).Finishes p p.remaining := by
  refine (finishes_skip current more (Nat.le_refl _)).bind fun _ q less => ?_
  refine ((finishes_returnValue f (by omega)).mono (k := p.remaining) (by omega)).bind
    fun _ q less => ?_
  refine (finishes_symbol (m := p.remaining) _ (by omega)).bind fun _ q less => ?_
  refine (finishes_needsJump f nested less).bind fun jumps q less => ?_
  split
  · exact (finishes_emit _ less).bind fun _ q less => finishes_pure _ less
  · exact finishes_pure _ less

/-- The functions on statements finish under a bound that is large enough for each of them.  A
statement starts at a token that is not the end of file. -/
structure FinishesStatements (f : Frame) (bound : Nat) : Prop where
  statements : ∀ nested jumps p, 8 * p.remaining + 4 ≤ bound →
    (statements f bound nested jumps).Finishes p (p.remaining + 1)
  statement : ∀ nested kind p t, p.stream.current = .ok t → t.kind ≠ .endOfFile →
    8 * p.remaining + 3 ≤ bound → (statement f bound nested kind).Finishes p p.remaining
  block : ∀ p, 8 * p.remaining + 2 ≤ bound → (block f bound).Finishes p p.remaining
  ifStatement : ∀ p t, p.stream.current = .ok t → t.kind ≠ .endOfFile →
    8 * p.remaining + 1 ≤ bound → (ifStatement f bound).Finishes p p.remaining
  whileStatement : ∀ p t, p.stream.current = .ok t → t.kind ≠ .endOfFile →
    8 * p.remaining + 1 ≤ bound → (whileStatement f bound).Finishes p p.remaining

/-- A bound of zero is enough for nothing, so that nothing is claimed. -/
theorem finishesStatements_zero (f : Frame) : FinishesStatements f 0 := by
  constructor <;> intros <;> omega

namespace FinishesStatements

variable {f : Frame} {bound : Nat} (below : FinishesStatements f bound) {p : Progress} {t : Token}

include below

/-- There may be no statement at all.  Behind a statement, the bound for one token fewer is enough
for the others. -/
theorem statements_succ (nested jumps : Bool) (enough : 8 * p.remaining + 4 ≤ bound + 1) :
    (Step.statements f (bound + 1) nested jumps).Finishes p (p.remaining + 1) := by
  rw [Step.statements]
  refine finishes_peek_bind fun t current => ?_
  cases start : t.kind.statementKind? with
  | none => exact finishes_pure _ (by omega)
  | some kind =>
    have more := TokenKind.ne_endOfFile_of_statementKind? start
    refine (below.statement nested kind p t current more (by omega)).bind fun more q less => ?_
    exact (below.statements _ _ q (by omega)).mono (by omega)

/-- The word that starts a statement has been looked at but not been read. -/
theorem statement_succ (nested : Bool) (kind : StatementKind) (current : p.stream.current = .ok t)
    (more : t.kind ≠ .endOfFile) (enough : 8 * p.remaining + 3 ≤ bound + 1) :
    (Step.statement f (bound + 1) nested kind).Finishes p p.remaining := by
  cases kind <;> rw [Step.statement]
  case «let» =>
    exact (finishes_letStatement f current more (by omega)).bind
      fun _ q less => finishes_pure _ less
  case «do» =>
    exact (finishes_doStatement f current more (by omega)).bind
      fun _ q less => finishes_pure _ less
  case «return» => exact finishes_returnStatement f nested current more (by omega)
  case «if» => exact below.ifStatement p t current more (by omega)
  case «while» => exact below.whileStatement p t current more (by omega)

/-- The opening brace is read before the statements are. -/
theorem block_succ (enough : 8 * p.remaining + 2 ≤ bound + 1) :
    (Step.block f (bound + 1)).Finishes p p.remaining := by
  rw [Step.block]
  refine (finishes_symbol _ (Nat.le_refl _)).bind fun _ q less => ?_
  refine (below.statements _ _ q (by omega)).bind fun jumps q' less' => ?_
  refine (finishes_symbol (m := p.remaining) _ (by omega)).bind fun _ q less => ?_
  exact finishes_pure _ less

theorem ifStatement_succ (current : p.stream.current = .ok t) (more : t.kind ≠ .endOfFile)
    (enough : 8 * p.remaining + 1 ≤ bound + 1) :
    (Step.ifStatement f (bound + 1)).Finishes p p.remaining := by
  rw [Step.ifStatement]
  refine (finishes_skip current more (Nat.le_refl _)).bind fun _ q less => ?_
  refine (finishes_symbol (m := p.remaining) _ (by omega)).bind fun _ q less => ?_
  refine (finishes_expression (m := p.remaining) _ (by omega) (by omega)).bind
    fun _ q less => ?_
  refine (finishes_symbol (m := p.remaining) _ (by omega)).bind fun _ q less => ?_
  refine (finishes_freshLabel less).bind fun id q less => ?_
  refine (finishes_emit _ less).bind fun _ q less => ?_
  refine (below.block q (by omega)).bind fun jumps q' less' => ?_
  refine finishes_accept_bind (by simp) (fun q'' less'' => ?_) ?_
  · refine (finishes_emit (m := p.remaining) _ (by omega)).bind fun _ q less => ?_
    refine (below.block q (by omega)).bind fun jumps q' less' => ?_
    refine (finishes_emit (m := p.remaining) _ (by omega)).bind fun _ q less => ?_
    exact finishes_pure _ less
  · refine (finishes_emit (m := p.remaining) _ (by omega)).bind fun _ q less => ?_
    exact finishes_pure _ less

theorem whileStatement_succ (current : p.stream.current = .ok t) (more : t.kind ≠ .endOfFile)
    (enough : 8 * p.remaining + 1 ≤ bound + 1) :
    (Step.whileStatement f (bound + 1)).Finishes p p.remaining := by
  rw [Step.whileStatement]
  refine (finishes_skip current more (Nat.le_refl _)).bind fun _ q less => ?_
  refine (finishes_freshLabel less).bind fun id q less => ?_
  refine (finishes_emit _ less).bind fun _ q less => ?_
  refine (finishes_symbol (m := p.remaining) _ (by omega)).bind fun _ q less => ?_
  refine (finishes_expression (m := p.remaining) _ (by omega) (by omega)).bind
    fun _ q less => ?_
  refine (finishes_symbol (m := p.remaining) _ (by omega)).bind fun _ q less => ?_
  refine (finishes_emit _ less).bind fun _ q less => ?_
  refine (below.block q (by omega)).bind fun jumps q' less' => ?_
  refine (finishes_emit (m := p.remaining) _ (by omega)).bind fun _ q less => ?_
  exact finishes_pure _ less

/-- The functions for statements finish within a bound if they do within the bound before it. -/
theorem succ : FinishesStatements f (bound + 1) where
  statements nested jumps _ := below.statements_succ nested jumps
  statement nested kind _ _ := below.statement_succ nested kind
  block _ := below.block_succ
  ifStatement _ _ := below.ifStatement_succ
  whileStatement _ _ := below.whileStatement_succ

end FinishesStatements

/-- The functions for statements finish within every bound that is large enough for the tokens left.
-/
theorem finishesStatements (f : Frame) (bound : Nat) : FinishesStatements f bound := by
  induction bound with
  | zero => exact finishesStatements_zero f
  | succ bound below => exact below.succ

/-! ## Classes -/

theorem finishes_typeName {p : Progress} {m : Nat} (left : p.remaining ≤ m) :
    typeName.Finishes p m := by
  refine finishes_peek_bind fun t current => ?_
  split
  · rename_i isType
    have more := TokenKind.ne_endOfFile_of_isType isType
    exact (finishes_skip current more left).bind fun _ q less => finishes_pure _ less
  · exact finishes_unexpected _ _

/-- Names of one declaration with commas between them.  Each iteration reads a name. -/
theorem finishes_names (options : Options) (type : String) (kind : SymbolKind) (bound : Nat) :
    ∀ p, 8 * p.remaining + 1 ≤ bound → (names options type kind bound).Finishes p p.remaining := by
  induction bound with
  | zero => intros; omega
  | succ bound ih =>
    intro p enough
    rw [names]
    refine (finishes_consume _ (Nat.le_refl _) (by simp)).bind fun name q less => ?_
    refine (finishes_declare _ _ _ _ less).bind fun _ q less => ?_
    refine finishes_accept_bind (by simp) (fun q' less' => ?_) ?_
    · exact (ih q' (by omega)).mono (by omega)
    · exact finishes_pure _ less

theorem finishes_declaration (options : Options) (kind : SymbolKind) {bound : Nat} {p : Progress}
    (enough : 8 * p.remaining ≤ bound) :
    (declaration options kind bound).Finishes p p.remaining := by
  refine (finishes_typeName (Nat.le_refl _)).bind fun type q less => ?_
  refine ((finishes_names options type kind bound q (by omega)).mono (k := p.remaining)
    (by omega)).bind fun _ q less => ?_
  exact finishes_symbol _ (by omega)

/-- Declarations of class variables, of which there may be none.  Each one starts with a word that
is read. -/
theorem finishes_classVariables (options : Options) (bound : Nat) :
    ∀ p, 8 * p.remaining + 1 ≤ bound →
      (classVariables options bound).Finishes p (p.remaining + 1) := by
  induction bound with
  | zero => intros; omega
  | succ bound ih =>
    intro p enough
    rw [classVariables]
    refine finishes_peek_bind fun t current => ?_
    have declaring (kind : SymbolKind) (more : t.kind ≠ .endOfFile) :
        (do
          skip
          declaration options kind bound
          classVariables options bound : Step Unit).Finishes p (p.remaining + 1) := by
      refine (finishes_skip current more (Nat.le_refl _)).bind fun _ q less => ?_
      refine (finishes_declaration options kind (by omega)).bind fun _ q less => ?_
      exact (ih q (by omega)).mono (by omega)
    split
    · rename_i word
      exact declaring .static (by simp [word])
    · rename_i word
      exact declaring .field (by simp [word])
    · exact finishes_pure _ (by omega)

theorem finishes_localVariables (options : Options) (bound : Nat) :
    ∀ p, 8 * p.remaining + 1 ≤ bound →
      (localVariables options bound).Finishes p (p.remaining + 1) := by
  induction bound with
  | zero => intros; omega
  | succ bound ih =>
    intro p enough
    rw [localVariables]
    refine finishes_peek_bind fun t current => ?_
    split
    · rename_i word
      refine (finishes_skip current (by simp [word]) (Nat.le_refl _)).bind fun _ q less => ?_
      refine (finishes_declaration options _ (by omega)).bind fun _ q less => ?_
      exact (ih q (by omega)).mono (by omega)
    · exact finishes_pure _ (by omega)

/-- Parameters with commas between them.  Each iteration reads a type and a name. -/
theorem finishes_parametersBehind (options : Options) (bound : Nat) :
    ∀ p, 8 * p.remaining + 1 ≤ bound → (parametersBehind options bound).Finishes p p.remaining := by
  induction bound with
  | zero => intros; omega
  | succ bound ih =>
    intro p enough
    rw [parametersBehind]
    refine (finishes_typeName (Nat.le_refl _)).bind fun type q less => ?_
    refine (finishes_consume (m := p.remaining) _ (by omega) (by simp)).bind
      fun name q less => ?_
    refine (finishes_declare _ _ _ _ less).bind fun _ q less => ?_
    refine finishes_accept_bind (by simp) (fun q' less' => ?_) ?_
    · exact (ih q' (by omega)).mono (by omega)
    · exact finishes_pure _ less

theorem finishes_parameters (options : Options) {bound : Nat} {p : Progress}
    (enough : 8 * p.remaining + 1 ≤ bound) :
    (parameters options bound).Finishes p (p.remaining + 1) := by
  refine finishes_peek_bind fun t current => ?_
  split
  · exact (finishes_parametersBehind options bound p enough).mono (by omega)
  · exact finishes_pure _ (by omega)

theorem finishes_resultType {p : Progress} {m : Nat} (left : p.remaining ≤ m) :
    resultType.Finishes p m := by
  refine finishes_accept_bind (by simp) (fun q less => ?_) ?_
  · exact finishes_pure _ (by omega)
  · exact (finishes_typeName left).bind fun _ q less => finishes_pure _ less

theorem finishes_body (options : Options) (className : String) (kind : SubroutineKind)
    (name : String) (isVoid : Bool) {bound : Nat} {p : Progress}
    (enough : 8 * p.remaining ≤ bound) :
    (body options className kind name isVoid bound).Finishes p p.remaining := by
  refine (finishes_symbol _ (Nat.le_refl _)).bind fun _ q less => ?_
  refine ((finishes_localVariables options bound q (by omega)).mono (k := p.remaining)
    (by omega)).bind fun _ q less => ?_
  refine (finishes_count _ less).bind fun locals q less => ?_
  refine (finishes_count _ less).bind fun fields q less => ?_
  refine (finishes_emit _ less).bind fun _ q less => ?_
  refine (finishes_freshLabel less).bind fun id q less => ?_
  refine (((finishesStatements _ bound).statements false false q (by omega)).mono (k := p.remaining)
    (by omega)).bind fun jumps q less => ?_
  refine (finishes_symbol (m := p.remaining) _ (by omega)).bind fun _ q less => ?_
  refine (finishes_emit _ less).bind fun _ q less => ?_
  exact finishes_record _ less

/-- Behind the start of a subroutine there is room for the object of a method. -/
theorem finishes_startSubroutine_bind {β : Type} {f : Unit → Step β} {p : Progress} {m : Nat}
    (behind : ∀ q : Progress, q.remaining = p.remaining → q.symbols.count .argument = 0 →
      (f ()).Finishes q m) : (startSubroutine >>= f).Finishes p m :=
  behind _ rfl rfl

/-- The object of a method is declared as its first argument, and there is room for it, because the
table of the subroutine is still empty. -/
theorem finishes_receiver (kind : SubroutineKind) (className : String) {p : Progress} {m : Nat}
    (left : p.remaining < m) (room : p.symbols.count .argument = 0) :
    (receiver kind className).Finishes p m := by
  cases kind with
  | method =>
    have defined : (define Code.receiver className .argument).Finishes p m := by
      unfold Finishes define SymbolTable.define SymbolTable.tryDefine
      rw [room]
      exact left
    exact defined.bind fun _ q less => finishes_pure _ less
  | constructor => exact finishes_pure _ left
  | function => exact finishes_pure _ left

/-- The word that starts the subroutine is read before the rest of it, so its parts have one token
fewer. -/
theorem finishes_subroutine (options : Options) (className : String) (kind : SubroutineKind)
    {bound : Nat} {p : Progress} {t : Token} (current : p.stream.current = .ok t)
    (more : t.kind ≠ .endOfFile) (enough : 8 * p.remaining ≤ bound) :
    (subroutine options className kind bound).Finishes p p.remaining := by
  refine (finishes_skip current more (Nat.le_refl _)).bind fun _ q less => ?_
  refine (finishes_resultType (m := p.remaining) (by omega)).bind fun isVoid q less => ?_
  refine (finishes_consume (m := p.remaining) _ (by omega) (by simp)).bind fun name q less => ?_
  refine (finishes_record _ less).bind fun _ q less => ?_
  refine finishes_startSubroutine_bind fun q same room => ?_
  refine (finishes_receiver (m := p.remaining) _ _ (by omega) room).bind fun _ q less => ?_
  refine (finishes_symbol (m := p.remaining) _ (by omega)).bind fun _ q less => ?_
  refine ((finishes_parameters options (by omega)).mono (k := p.remaining)
    (by omega)).bind fun _ q less => ?_
  refine (finishes_symbol (m := p.remaining) _ (by omega)).bind fun _ q less => ?_
  exact (finishes_body options className kind _ isVoid (by omega)).mono (by omega)

theorem finishes_subroutines (options : Options) (className : String) (bound : Nat) :
    ∀ p, 8 * p.remaining + 1 ≤ bound →
      (subroutines options className bound).Finishes p (p.remaining + 1) := by
  induction bound with
  | zero => intros; omega
  | succ bound ih =>
    intro p enough
    rw [subroutines]
    refine finishes_peek_bind fun t current => ?_
    cases start : t.kind.subroutineKind? with
    | none => exact finishes_pure _ (by omega)
    | some kind =>
      have more := TokenKind.ne_endOfFile_of_subroutineKind? start
      refine (finishes_subroutine options className kind current more (by omega)).bind
        fun _ q less => ?_
      exact (ih q (by omega)).mono (by omega)

/-- A whole class finishes.  This is the one bound that a compilation chooses; see `stepBound`. -/
theorem finishes_wholeClass (options : Options) {bound : Nat} {p : Progress}
    (enough : 8 * p.remaining + 8 ≤ bound) :
    (wholeClass options bound).Finishes p (p.remaining + 1) := by
  refine (finishes_consume (m := p.remaining + 1) _ (by omega) (by simp)).bind
    fun _ q less => ?_
  refine (finishes_consume (m := p.remaining + 1) _ (by omega) (by simp)).bind
    fun name q less => ?_
  refine (finishes_symbol (m := p.remaining + 1) _ (by omega)).bind fun _ q less => ?_
  refine ((finishes_classVariables options bound q (by omega)).mono (k := p.remaining + 1)
    (by omega)).bind fun _ q less => ?_
  refine ((finishes_subroutines options _ bound q (by omega)).mono (k := p.remaining + 1)
    (by omega)).bind fun _ q less => ?_
  refine (finishes_symbol (m := p.remaining + 1) _ (by omega)).bind fun _ q less => ?_
  refine (finishes_consume_endOfFile less).bind fun _ q less => ?_
  exact (finishes_codeSize less).bind fun size q less => finishes_record _ less

end Step

/-- A source holds at most as many tokens as characters. -/
theorem Progress.remaining_ofSource_le (source : List Char) :
    (Progress.ofSource source).remaining ≤ source.length := by
  simp only [Progress.ofSource, Progress.remaining, TokenStream.ofSource, TokenStream.remaining]
  cases read : (Cursor.ofSource source).next with
  | mk result behind =>
    cases result with
    | error e => simp [Item.locate]
    | ok t =>
      by_cases last : t.kind = .endOfFile
      · simp [Item.locate, last]
      · have shorter := Cursor.length_next_lt read last
        simp only [Cursor.ofSource] at shorter
        simp only [Item.locate, last, if_false]
        omega

/-- A bound on the number of steps that the compilation of a source can take. -/
def stepBound (source : List Char) : Nat := 8 * source.length + 8

/-- The compilation of a source never runs into its bound or into another defect. -/
theorem Step.wholeClass_ne_defect (options : Options) (source : List Char) (d : Defect)
    (p : Progress) :
    Step.wholeClass options (stepBound source) (Progress.ofSource source) ≠
      .error (.defect d) p := by
  intro reached
  have few := Progress.remaining_ofSource_le source
  have enough : 8 * (Progress.ofSource source).remaining + 8 ≤ stepBound source := by
    unfold stepBound
    omega
  have finishes := Step.finishes_wholeClass options enough
  unfold Step.Finishes at finishes
  rw [reached] at finishes
  exact finishes

end Jack
