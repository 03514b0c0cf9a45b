import Jack.Compiler.Statement
import Jack.Proofs.Redeclaration.Step

namespace Jack

/-!
# Expressions and statements declare nothing

Expressions and statements have no token that opens a declaration.  So they stay outside of
declarations, and whatever goes wrong in them, the scan finds nothing new up to there.  An
expression starts behind a token that a term may follow, which tells the names in it from those in
other places.
-/

namespace Step

variable {source : List Char} {s : DeclarationScan} {p : Progress} {t : Token}

/-! ## Expressions -/

/-- A constant declares nothing, and its limits are reported at its token. -/
theorem finds_stringConstant (outside : p.Outside source s)
    (stands : Item.StandsBehind source s.found (.ok t)) :
    (stringConstant t).Finds source p fun _ q => q.Outside source s := by
  unfold stringConstant
  split
  · exact finds_unexpected (by decide) outside.toAgrees stands
  · split
    · exact finds_unexpected (by decide) outside.toAgrees stands
    · exact finds_emit _ outside

/-- The lexer has made sure that the text of an integer constant spells a word. -/
theorem finds_integerConstant (outside : p.Outside source s) (spelled : t.WellSpelled)
    (number : t.kind = .integer) :
    (integerConstant t).Finds source p fun _ q => q.Outside source s := by
  rcases spelled.integer number with ⟨value, spells⟩
  rw [integerConstant, spells]
  exact finds_emit _ outside

/-- A name in front of a dot that is no variable is taken for that of a class, and so it is never
reported. -/
theorem finds_callee (className : String) (outside : p.Outside source s) :
    (callee className).Finds source p fun _ q => q.Outside source s := by
  rw [callee_eq]
  refine (finds_identifier outside).bind ?_
  rintro first q ⟨outside, -⟩
  refine (finds_accept_plain outside (isPlain_symbol _)).bind fun dotted q outside => ?_
  cases dotted with
  | true =>
      refine (finds_identifier outside).bind ?_
      rintro member q ⟨outside, -⟩
      refine (finds_symbol? _ outside).bind fun object q outside => ?_
      cases object with
      | none => exact finds_pure outside
      | some object => exact (finds_emit _ outside).bind fun _ q outside => finds_pure outside
  | false => exact (finds_emit _ outside).bind fun _ q outside => finds_pure outside

/-- The functions on expressions declare nothing under a given bound.  Most of them start where a
term may stand, and an element starts with a name that is used as a variable. -/
structure ExpressionsFind (source : List Char) (s : DeclarationScan) (className : String)
    (bound : Nat) : Prop where
  expression : ∀ {p : Progress}, p.AtTerm source s →
    (expression className bound).Finds source p fun _ q => q.Outside source s
  operators : ∀ {p : Progress}, p.Outside source s →
    (operators className bound).Finds source p fun _ q => q.Outside source s
  term : ∀ {p : Progress}, p.AtTerm source s →
    (term className bound).Finds source p fun _ q => q.Outside source s
  element : ∀ {p : Progress}, p.Outside source s →
    (∀ t, p.stream.current = .ok t → t.kind = .identifier → t.IsUsed source s) →
    (element className bound).Finds source p fun _ q => q.Outside source s
  call : ∀ {p : Progress}, p.Outside source s →
    (call className bound).Finds source p fun _ q => q.Outside source s
  arguments : ∀ {p : Progress}, p.AtTerm source s →
    (arguments className bound).Finds source p fun _ q => q.Outside source s
  argumentsBehind : ∀ {p : Progress} (count : Nat), p.AtTerm source s →
    (argumentsBehind className bound count).Finds source p fun _ q => q.Outside source s

/-- Nothing is said without a bound. -/
theorem expressionsFind_zero (className : String) : ExpressionsFind source s className 0 where
  expression _ := by rw [Step.expression]; exact finds_exhausted
  operators _ := by rw [Step.operators]; exact finds_exhausted
  term _ := by rw [Step.term]; exact finds_exhausted
  element _ _ := by rw [Step.element]; exact finds_exhausted
  call _ := by rw [Step.call]; exact finds_exhausted
  arguments _ := by rw [Step.arguments]; exact finds_exhausted
  argumentsBehind _ _ := by rw [Step.argumentsBehind]; exact finds_exhausted

/-- Behind any operator stands a term. -/
theorem opensTerm_binaryOperator (o : BinaryOperator) :
    TokenKind.opensTerm (.symbol o.symbol) = true := by
  cases o <;> rfl

/-- A term stands behind a unary operator. -/
theorem opensTerm_unaryOperator (o : UnaryOperator) :
    TokenKind.opensTerm (.symbol o.symbol) = true := by
  cases o <;> rfl

namespace ExpressionsFind

variable {className : String} {bound : Nat} (below : ExpressionsFind source s className bound)

include below

/-- Behind an operator a term may stand, and a name there is used as a variable if nothing else
tells what it is. -/
theorem operators_succ (outside : p.Outside source s) :
    (Step.operators className (bound + 1)).Finds source p fun _ q => q.Outside source s := by
  rw [operators_eq]
  refine finds_peek_bind outside.toAgrees fun t current => ?_
  cases operator : t.kind.binaryOperator? with
  | none => exact finds_pure outside
  | some o =>
      have plain := isPlain_of_binaryOperator? operator
      have opens : t.kind.opensTerm = true := by
        rw [TokenKind.eq_of_binaryOperator? operator]
        exact opensTerm_binaryOperator o
      refine (finds_skip_atTerm outside current plain opens).bind fun _ q atTerm => ?_
      refine (below.term atTerm).bind fun _ q outside => ?_
      exact (finds_emit _ outside).bind fun _ q outside => below.operators outside

/-- The token behind a name decides between a variable, an element and a call. -/
theorem name_succ (atTerm : p.AtTerm source s) (current : p.stream.current = .ok t)
    (isName : t.kind = .identifier) :
    (do
      match (← peekNext).kind with
      | .symbol .leftBracket => Step.element className bound
      | .symbol .leftParen => Step.call className bound
      | .symbol .dot => Step.call className bound
      | _ =>
        let name ← consume .identifier
        pushVariable (← resolve name) : Step Unit).Finds source p
      fun _ q => q.Outside source s := by
  have outside := atTerm.toOutside
  have plain : t.kind.IsPlain := isName ▸ isPlain_identifier
  refine finds_peekNext_bind outside current plain fun u next => ?_
  have used (noList : u.kind ≠ .symbol .leftParen) (noMember : u.kind ≠ .symbol .dot) :
      ∀ t, p.stream.current = .ok t → t.kind = .identifier → t.IsUsed source s := by
    intro t current isName
    rcases atTerm.opened with ⟨kind, opens, comes⟩
    exact comes.isUsed_of_opensTerm opens current isName next noList noMember
  split
  · rename_i bracket
    exact below.element outside (used (by simp [bracket]) (by simp [bracket]))
  · exact below.call outside
  · exact below.call outside
  · rename_i noElement noList noMember
    refine (finds_identifier outside).bind ?_
    rintro name q ⟨outside, currentName, isName⟩
    refine (finds_resolve outside (used noList noMember name currentName isName)).bind ?_
    exact fun _ q outside => finds_emit _ outside

/-- Where a term may stand, a name that is neither called nor followed by a dot is used as a
variable, so that an unknown one is an error with its cause at that token. -/
theorem term_succ (atTerm : p.AtTerm source s) :
    (Step.term className (bound + 1)).Finds source p fun _ q => q.Outside source s := by
  have outside := atTerm.toOutside
  rw [Step.term]
  refine finds_peek_bind outside.toAgrees fun t current => ?_
  have stands := outside.standsBehind current
  cases start : t.kind.termKind? with
  | none => exact finds_unexpected (by decide) outside.toAgrees stands
  | some form =>
      have kind := TokenKind.eq_of_termKind? start
      have plain := isPlain_of_termKind? start
      have skipped := finds_skip outside current plain
      cases form with
      | integer =>
          have spelled := outside.spelled t current
          exact skipped.bind fun _ q outside => finds_integerConstant outside spelled kind
      | string => exact skipped.bind fun _ q outside => finds_stringConstant outside stands
      | constant k => exact skipped.bind fun _ q outside => finds_emit _ outside
      | unary o =>
          have opens : t.kind.opensTerm = true := kind ▸ opensTerm_unaryOperator o
          refine (finds_skip_atTerm outside current plain opens).bind fun _ q atTerm => ?_
          exact (below.term atTerm).bind fun _ q outside => finds_emit _ outside
      | parenthesis =>
          have opens : t.kind.opensTerm = true := by rw [kind]; rfl
          refine (finds_skip_atTerm outside current plain opens).bind fun _ q atTerm => ?_
          exact (below.expression atTerm).bind fun _ q outside => finds_symbol _ outside
      | name => exact below.name_succ atTerm current kind

/-- The name of an array is used as a variable. -/
theorem element_succ (outside : p.Outside source s)
    (used : ∀ t, p.stream.current = .ok t → t.kind = .identifier → t.IsUsed source s) :
    (Step.element className (bound + 1)).Finds source p fun _ q => q.Outside source s := by
  rw [Step.element]
  refine (finds_identifier outside).bind ?_
  rintro name q ⟨outside, current, isName⟩
  refine (finds_resolve outside (used name current isName)).bind fun array q outside => ?_
  refine (finds_symbol_atTerm rfl outside).bind fun _ q atTerm => ?_
  refine (finds_emit_atTerm _ atTerm).bind fun _ q atTerm => ?_
  refine (below.expression atTerm).bind fun _ q outside => ?_
  exact (finds_symbol _ outside).bind fun _ q outside => finds_emit _ outside

theorem call_succ (outside : p.Outside source s) :
    (Step.call className (bound + 1)).Finds source p fun _ q => q.Outside source s := by
  rw [Step.call]
  refine (finds_callee className outside).bind fun target q outside => ?_
  refine (finds_symbol_atTerm rfl outside).bind fun _ q atTerm => ?_
  refine (below.arguments atTerm).bind fun listed q outside => ?_
  refine (finds_consume_plain outside (isPlain_symbol _) (by simp)).bind ?_
  rintro close r ⟨outside', current, -⟩
  dsimp only
  split
  · exact finds_unexpected (by decide) outside'.toAgrees (outside.standsBehind current)
  · exact finds_emit _ outside'

theorem arguments_succ (atTerm : p.AtTerm source s) :
    (Step.arguments className (bound + 1)).Finds source p fun _ q => q.Outside source s := by
  rw [Step.arguments]
  refine finds_peek_bind atTerm.toAgrees fun t current => ?_
  split
  · exact finds_pure atTerm.toOutside
  · exact below.argumentsBehind 0 atTerm

theorem argumentsBehind_succ (count : Nat) (atTerm : p.AtTerm source s) :
    (Step.argumentsBehind className (bound + 1) count).Finds source p
      fun _ q => q.Outside source s := by
  rw [Step.argumentsBehind]
  refine finds_peek_bind atTerm.toAgrees fun first current => ?_
  split
  · exact finds_unexpected (by decide) atTerm.toAgrees (atTerm.standsBehind current)
  · refine (below.expression atTerm).bind fun _ q outside => ?_
    refine (finds_accept_atTerm rfl outside).bind ?_
    rintro more q (⟨rfl, atTerm⟩ | ⟨rfl, outside⟩)
    · exact below.argumentsBehind (count + 1) atTerm
    · exact finds_pure outside

end ExpressionsFind

/-- The functions for expressions declare nothing within every bound. -/
theorem expressionsFind (source : List Char) (s : DeclarationScan) (className : String)
    (bound : Nat) : ExpressionsFind source s className bound := by
  induction bound with
  | zero => exact expressionsFind_zero className
  | succ bound below =>
      exact
        { expression := fun atTerm => by
            rw [Step.expression]
            exact (below.term atTerm).bind fun _ q outside => below.operators outside
          operators := below.operators_succ
          term := below.term_succ
          element := below.element_succ
          call := below.call_succ
          arguments := below.arguments_succ
          argumentsBehind := below.argumentsBehind_succ }

/-! ## Single statements -/

variable {f : Frame} {bound : Nat}

theorem finds_expression (className : String) (bound : Nat) (atTerm : p.AtTerm source s) :
    (expression className bound).Finds source p fun _ q => q.Outside source s :=
  (expressionsFind source s className bound).expression atTerm

/-- The first word of a statement is passed. -/
theorem finds_skip_word (kind : StatementKind) (outside : p.Outside source s)
    (current : p.stream.current = .ok t) (word : t.kind = .keyword kind.word) :
    skip.Finds source p fun _ q => q.Outside source s :=
  finds_skip outside current (word ▸ isPlain_statement kind)

/-- The name behind `let` is used as a variable. -/
theorem finds_target_bind {β : Type} {rest : Token → Step β} {post : β → Progress → Prop}
    (outside : p.Outside source s) (current : p.stream.current = .ok t)
    (word : t.kind = .keyword .«let»)
    (behind : ∀ name q, q.Outside source s → name.IsUsed source s →
      (rest name).Finds source q post) :
    (do
      skip
      rest (← consume .identifier) : Step β).Finds source p post := by
  have plain : t.kind.IsPlain := word ▸ isPlain_statement .«let»
  have comes := outside.comesBehind current plain
  rw [word] at comes
  have advanced := outside.advance current plain
  refine (finds_identifier advanced).bind ?_
  rintro name q ⟨outside, currentName, isName⟩
  exact behind name q outside (comes.isUsed_of_let currentName isName)

/-- The target of an assignment is used as a variable, which the word `let` tells. -/
theorem finds_letStatement (outside : p.Outside source s) (current : p.stream.current = .ok t)
    (word : t.kind = .keyword .«let») :
    (letStatement f bound).Finds source p fun _ q => q.Outside source s := by
  refine finds_target_bind outside current word fun name q outside used => ?_
  refine (finds_resolve outside used).bind fun target q outside => ?_
  refine (finds_accept_atTerm rfl outside).bind ?_
  rintro indexed q (⟨rfl, atTerm⟩ | ⟨rfl, outside⟩)
  · refine (finds_emit_atTerm _ atTerm).bind fun _ q atTerm => ?_
    refine (finds_expression _ _ atTerm).bind fun _ q outside => ?_
    refine (finds_symbol _ outside).bind fun _ q outside => ?_
    refine (finds_emit _ outside).bind fun _ q outside => ?_
    refine (finds_symbol_atTerm rfl outside).bind fun _ q atTerm => ?_
    refine (finds_expression _ _ atTerm).bind fun _ q outside => ?_
    exact (finds_symbol _ outside).bind fun _ q outside => finds_emit _ outside
  · refine (finds_symbol_atTerm rfl outside).bind fun _ q atTerm => ?_
    refine (finds_expression _ _ atTerm).bind fun _ q outside => ?_
    exact (finds_symbol _ outside).bind fun _ q outside => finds_emit _ outside

theorem finds_doStatement (outside : p.Outside source s) (current : p.stream.current = .ok t)
    (word : t.kind = .keyword .«do») :
    (doStatement f bound).Finds source p fun _ q => q.Outside source s := by
  have calls {p : Progress} := (expressionsFind source s f.className bound).call (p := p)
  refine (finds_skip_word .«do» outside current word).bind fun _ q outside => ?_
  refine (calls outside).bind fun _ q outside => ?_
  exact (finds_symbol _ outside).bind fun _ q outside => finds_emit _ outside

theorem finds_returnValue (atTerm : p.AtTerm source s) :
    (returnValue f bound).Finds source p fun _ q => q.Outside source s := by
  refine finds_peek_bind atTerm.toAgrees fun t current => ?_
  split
  · exact finds_pure atTerm.toOutside
  · exact finds_expression _ _ atTerm

theorem finds_needsJump (nested : Bool) (outside : p.Outside source s) :
    (needsJump f nested).Finds source p fun _ q => q.Outside source s := by
  unfold needsJump
  split
  · exact finds_peek_bind outside.toAgrees fun _ _ => finds_pure outside
  · exact finds_pure outside

/-- A `return` statement declares nothing. -/
theorem finds_returnStatement (nested : Bool) (outside : p.Outside source s)
    (current : p.stream.current = .ok t) (word : t.kind = .keyword .«return») :
    (returnStatement f bound nested).Finds source p fun _ q => q.Outside source s := by
  have plain : t.kind.IsPlain := word ▸ isPlain_statement .«return»
  have opens : t.kind.opensTerm = true := by rw [word]; rfl
  refine (finds_skip_atTerm outside current plain opens).bind fun _ q atTerm => ?_
  refine (finds_returnValue atTerm).bind fun _ q outside => ?_
  refine (finds_symbol _ outside).bind fun _ q outside => ?_
  refine (finds_needsJump nested outside).bind fun jumps q outside => ?_
  cases jumps with
  | true => exact (finds_emit _ outside).bind fun _ q outside => finds_pure outside
  | false => exact finds_pure outside

/-! ## Statements and blocks -/

/-- The functions on statements declare nothing under a given bound. -/
structure StatementsFind (source : List Char) (s : DeclarationScan) (f : Frame) (bound : Nat) :
    Prop where
  statements : ∀ {p : Progress} (nested jumps : Bool), p.Outside source s →
    (statements f bound nested jumps).Finds source p fun _ q => q.Outside source s
  statement : ∀ {p : Progress} {t : Token} (nested : Bool) (kind : StatementKind),
    p.Outside source s → p.stream.current = .ok t → t.kind = .keyword kind.word →
    (statement f bound nested kind).Finds source p fun _ q => q.Outside source s
  block : ∀ {p : Progress}, p.Outside source s →
    (block f bound).Finds source p fun _ q => q.Outside source s
  ifStatement : ∀ {p : Progress} {t : Token}, p.Outside source s → p.stream.current = .ok t →
    t.kind = .keyword .«if» → (ifStatement f bound).Finds source p fun _ q => q.Outside source s
  whileStatement : ∀ {p : Progress} {t : Token}, p.Outside source s → p.stream.current = .ok t →
    t.kind = .keyword .«while» →
      (whileStatement f bound).Finds source p fun _ q => q.Outside source s

/-- Nothing is said without a bound. -/
theorem statementsFind_zero : StatementsFind source s f 0 where
  statements _ _ _ := by rw [Step.statements]; exact finds_exhausted
  statement _ _ _ _ _ := by rw [Step.statement]; exact finds_exhausted
  block _ := by rw [Step.block]; exact finds_exhausted
  ifStatement _ _ _ := by rw [Step.ifStatement]; exact finds_exhausted
  whileStatement _ _ _ := by rw [Step.whileStatement]; exact finds_exhausted

namespace StatementsFind

variable (below : StatementsFind source s f bound)

include below

theorem statements_succ (nested jumps : Bool) (outside : p.Outside source s) :
    (Step.statements f (bound + 1) nested jumps).Finds source p
      fun _ q => q.Outside source s := by
  rw [Step.statements]
  refine finds_peek_bind outside.toAgrees fun t current => ?_
  cases start : t.kind.statementKind? with
  | none => exact finds_pure outside
  | some kind =>
      have word := TokenKind.eq_of_statementKind? start
      exact (below.statement nested kind outside current word).bind
        fun _ q outside => below.statements nested _ outside

theorem statement_succ (nested : Bool) (kind : StatementKind) (outside : p.Outside source s)
    (current : p.stream.current = .ok t) (word : t.kind = .keyword kind.word) :
    (Step.statement f (bound + 1) nested kind).Finds source p fun _ q => q.Outside source s := by
  cases kind <;> rw [Step.statement]
  case «let» =>
      exact (finds_letStatement outside current word).bind fun _ q outside => finds_pure outside
  case «do» =>
      exact (finds_doStatement outside current word).bind fun _ q outside => finds_pure outside
  case «return» => exact finds_returnStatement nested outside current word
  case «if» => exact below.ifStatement outside current word
  case «while» => exact below.whileStatement outside current word

theorem block_succ (outside : p.Outside source s) :
    (Step.block f (bound + 1)).Finds source p fun _ q => q.Outside source s := by
  rw [Step.block]
  refine (finds_symbol _ outside).bind fun _ q outside => ?_
  refine (below.statements true false outside).bind fun jumps q outside => ?_
  exact (finds_symbol _ outside).bind fun _ q outside => finds_pure outside

theorem ifStatement_succ (outside : p.Outside source s) (current : p.stream.current = .ok t)
    (word : t.kind = .keyword .«if») :
    (Step.ifStatement f (bound + 1)).Finds source p fun _ q => q.Outside source s := by
  rw [Step.ifStatement]
  refine (finds_skip_word .«if» outside current word).bind fun _ q outside => ?_
  refine (finds_symbol_atTerm rfl outside).bind fun _ q atTerm => ?_
  refine (finds_expression _ _ atTerm).bind fun _ q outside => ?_
  refine (finds_symbol _ outside).bind fun _ q outside => ?_
  refine (finds_freshLabel outside).bind fun id q outside => ?_
  refine (finds_emit _ outside).bind fun _ q outside => ?_
  refine (below.block outside).bind fun jumpsThen q outside => ?_
  refine (finds_accept_plain outside isPlain_else).bind fun two q outside => ?_
  cases two with
  | true =>
      refine (finds_emit _ outside).bind fun _ q outside => ?_
      refine (below.block outside).bind fun jumpsElse q outside => ?_
      exact (finds_emit _ outside).bind fun _ q outside => finds_pure outside
  | false => exact (finds_emit _ outside).bind fun _ q outside => finds_pure outside

theorem whileStatement_succ (outside : p.Outside source s) (current : p.stream.current = .ok t)
    (word : t.kind = .keyword .«while») :
    (Step.whileStatement f (bound + 1)).Finds source p fun _ q => q.Outside source s := by
  rw [Step.whileStatement]
  refine (finds_skip_word .«while» outside current word).bind fun _ q outside => ?_
  refine (finds_freshLabel outside).bind fun id q outside => ?_
  refine (finds_emit _ outside).bind fun _ q outside => ?_
  refine (finds_symbol_atTerm rfl outside).bind fun _ q atTerm => ?_
  refine (finds_expression _ _ atTerm).bind fun _ q outside => ?_
  refine (finds_symbol _ outside).bind fun _ q outside => ?_
  refine (finds_emit _ outside).bind fun _ q outside => ?_
  refine (below.block outside).bind fun jumps q outside => ?_
  exact (finds_emit _ outside).bind fun _ q outside => finds_pure outside

end StatementsFind

/-- The functions for statements declare nothing within every bound. -/
theorem statementsFind (source : List Char) (s : DeclarationScan) (f : Frame) (bound : Nat) :
    StatementsFind source s f bound := by
  induction bound with
  | zero => exact statementsFind_zero
  | succ bound below =>
      exact
        { statements := below.statements_succ
          statement := below.statement_succ
          block := below.block_succ
          ifStatement := below.ifStatement_succ
          whileStatement := below.whileStatement_succ }

end Step

end Jack
