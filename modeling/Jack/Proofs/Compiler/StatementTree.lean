import Jack.Proofs.Compiler.ExpressionTree
import Jack.Proofs.Grammar.Follow

namespace Jack

open Progress

/-!
# Compiled statements have trees

As for expressions, a successful run has read a tree of statements and has appended its code.  Two
things are added.  The labels are numbered from the number that the progress had, and the result
tells whether a `return` jumps.

A `return` looks at the token behind it.  At the tail of a subroutine it falls through if that token
closes the body, and this is so exactly if no statement follows (`closesBlock_iff_isEmpty`).
-/

/-- Behind statements a block is closed.  In front of them it is closed if and only if there are
none. -/
theorem Statements.closesBlock_iff_isEmpty (rest : Statements) {s s' : TokenStream}
    (reads : s.Reads rest.lexemes s') (closed : s'.Shows TokenKind.closesBlock) :
    s.Shows TokenKind.closesBlock ↔ rest.isEmpty = true := by
  cases rest with
  | nil =>
      rw [lexemes] at reads
      rw [← reads.of_nil]
      exact ⟨fun _ => rfl, fun _ => closed⟩
  | cons first more =>
      rcases first.lexemes_eq_cons with ⟨start, behind, written, form⟩
      rw [lexemes, written, List.cons_append] at reads
      rcases reads.of_cons with ⟨t, current, -, same, -⟩
      constructor
      · rintro ⟨u, current', closes⟩
        rw [current] at current'
        cases current'
        rw [← Token.kind_of_lexeme_eq same] at form
        rw [TokenKind.closesBlock, decide_eq_true_eq] at closes
        rw [closes] at form
        cases form
      · intro empty
        cases empty

namespace Step

variable {p q : Progress} {names : Names} {f : Frame} {bound : Nat}

theorem symbol_shows {s : Punctuation} {u : Unit} (run : symbol s p = .ok u q) :
    p.stream.Shows (fun k => k = .symbol s) := by
  rcases bind_eq_ok.mp run with ⟨t, q', consumed, -⟩
  rcases consume_ok consumed (by simp only [ne_eq, reduceCtorEq, not_false_eq_true]) with
    ⟨current, kind, -⟩
  exact ⟨t, current, decide_eq_true kind⟩

/-- The first word of a statement is passed. -/
theorem skip_word_ok {t : Token} {kind : StatementKind} {u : Unit} (run : skip p = .ok u q)
    (current : p.stream.current = .ok t) (start : t.kind.statementKind? = some kind) :
    p.Goes [.keyword kind.word] [] 0 q := by
  have word := TokenKind.eq_of_statementKind? start
  have goes := skip_ok run current (by
    rw [word]
    simp only [ne_eq, reduceCtorEq, not_false_eq_true])
  rwa [Token.lexeme_eq_keyword word] at goes

/-! ## Statements without blocks -/

/-- A `let` statement that goes well is an assignment to a variable or to an element of an array,
with the code of that form. -/
theorem letStatement_ok {t : Token} {u : Unit} (seen : p.symbols.get? = names)
    (current : p.stream.current = .ok t) (start : t.kind.statementKind? = some .«let»)
    (run : letStatement f bound p = .ok u q) :
    ∃ s : Statement, s.Acceptable names ∧ s.labels = 0 ∧ ∀ tail, s.jumps tail = false ∧
      p.Goes s.lexemes (s.code names f tail p.labels) 0 q := by
  have below := readTrees names f.className bound
  rcases bind_eq_ok.mp run with ⟨_, p₁, skipped, run⟩
  rcases bind_eq_ok.mp run with ⟨name, p₂, readName, run⟩
  have goesName := (skip_word_ok skipped current start).trans (consume_identifier_ok readName)
  rcases bind_eq_ok.mp run with ⟨target, p₃, resolved, run⟩
  rcases resolve_ok resolved with ⟨found, rfl⟩
  rw [goesName.names seen] at found
  have declared : (names name.text).isSome = true := by rw [found, Option.isSome_some]
  rcases bind_eq_ok.mp run with ⟨bracket, p₄, readOpen, run⟩
  rcases accept_symbol_ok readOpen with ⟨rfl, goesOpen⟩ | ⟨rfl, rfl⟩
  · rcases bind_eq_ok.mp run with ⟨_, p₅, pushed, run⟩
    have goesArray := (goesName.trans goesOpen).trans (pushVariable_ok found pushed)
    rcases bind_eq_ok.mp run with ⟨_, p₆, readIndex, run⟩
    rcases below.expression (goesArray.names seen) readIndex with ⟨index, acceptable, goesIndex⟩
    rcases bind_eq_ok.mp run with ⟨_, p₇, readClose, run⟩
    rcases bind_eq_ok.mp run with ⟨_, p₈, added, run⟩
    rcases bind_eq_ok.mp run with ⟨_, p₉, readEqual, run⟩
    have goesEqual := (((goesArray.trans goesIndex).trans (symbol_ok readClose)).trans
      (emit_ok added)).trans (symbol_ok readEqual)
    rcases bind_eq_ok.mp run with ⟨_, p₁₀, readValue, run⟩
    rcases below.expression (goesEqual.names seen) readValue with ⟨value, acceptable', goesValue⟩
    rcases bind_eq_ok.mp run with ⟨_, p₁₁, readEnd, stored⟩
    have goes := ((goesEqual.trans goesValue).trans (symbol_ok readEnd)).trans (emit_ok stored)
    rw [Code.storeElement_eq] at goes
    refine ⟨.letElement name.text index value, ⟨declared, acceptable, acceptable'⟩, rfl,
      fun tail => ⟨rfl, ?_⟩⟩
    simpa only [Statement.lexemes, Statement.code, StatementKind.word, List.append_nil,
      List.nil_append, List.append_assoc, List.cons_append] using goes
  · rcases bind_eq_ok.mp run with ⟨_, p₅, readEqual, run⟩
    have goesEqual := goesName.trans (symbol_ok readEqual)
    rcases bind_eq_ok.mp run with ⟨_, p₆, readValue, run⟩
    rcases below.expression (goesEqual.names seen) readValue with ⟨value, acceptable, goesValue⟩
    rcases bind_eq_ok.mp run with ⟨_, p₇, readEnd, stored⟩
    have goes := ((goesEqual.trans goesValue).trans (symbol_ok readEnd)).trans
      (popVariable_ok found stored)
    refine ⟨.letVariable name.text value, ⟨declared, acceptable⟩, rfl, fun tail => ⟨rfl, ?_⟩⟩
    simpa only [Statement.lexemes, Statement.code, StatementKind.word, List.append_nil,
      List.nil_append, List.append_assoc, List.cons_append] using goes

/-- A `do` statement that goes well is a call whose result is dropped. -/
theorem doStatement_ok {t : Token} {u : Unit} (seen : p.symbols.get? = names)
    (current : p.stream.current = .ok t) (start : t.kind.statementKind? = some .«do»)
    (run : doStatement f bound p = .ok u q) :
    ∃ s : Statement, s.Acceptable names ∧ s.labels = 0 ∧ ∀ tail, s.jumps tail = false ∧
      p.Goes s.lexemes (s.code names f tail p.labels) 0 q := by
  rcases bind_eq_ok.mp run with ⟨_, p₁, skipped, run⟩
  have goesWord := skip_word_ok skipped current start
  rcases bind_eq_ok.mp run with ⟨_, p₂, called, run⟩
  rcases (readTrees names f.className bound).call (goesWord.names seen) called with
    ⟨c, acceptable, goesCall⟩
  rcases bind_eq_ok.mp run with ⟨_, p₃, readEnd, dropped⟩
  have goesDropped : p₃.Goes [] [.pop .temp 0] 0 q := emit_ok dropped
  have goes := ((goesWord.trans goesCall).trans (symbol_ok readEnd)).trans goesDropped
  refine ⟨.doCall c, acceptable, rfl, fun tail => ⟨rfl, ?_⟩⟩
  simpa only [Statement.lexemes, Statement.code, StatementKind.word, List.append_nil,
    List.nil_append, List.append_assoc, List.cons_append] using goes

/-- Whether a jump is needed is found out without a change. -/
theorem needsJump_unmoved {nested jump : Bool} (run : needsJump f nested p = .ok jump q) :
    p = q := by
  unfold needsJump at run
  split at run
  · rcases bind_eq_ok.mp run with ⟨behind, p₁, looked, run⟩
    rcases peek_ok looked with ⟨-, rfl⟩
    exact (pure_eq_ok.mp run).2
  · exact (pure_eq_ok.mp run).2

/-- A `return` at the tail jumps unless it stands in front of the closing brace. -/
theorem needsJump_ok {nested jump last : Bool} (run : needsJump f nested p = .ok jump q)
    (closed : p.stream.Shows TokenKind.closesBlock ↔ last = true) :
    jump = !(f.foldTailReturn && !nested && last) := by
  unfold needsJump at run
  cases tail : f.foldTailReturn && !nested with
  | false =>
      rw [tail, if_neg Bool.false_ne_true] at run
      rw [← (pure_eq_ok.mp run).1, Bool.false_and, Bool.not_false]
  | true =>
      rw [tail, if_pos rfl] at run
      rcases bind_eq_ok.mp run with ⟨behind, p₁, looked, run⟩
      rcases peek_ok looked with ⟨current, rfl⟩
      rcases pure_eq_ok.mp run with ⟨rfl, -⟩
      have shows : p.stream.Shows TokenKind.closesBlock ↔ behind.kind = .symbol .rightBrace := by
        simp only [TokenStream.Shows, current, Except.ok.injEq, exists_eq_left',
          TokenKind.closesBlock, decide_eq_true_eq]
      rw [shows] at closed
      rw [Bool.true_and]
      cases last with
      | true => rw [closed.mpr rfl]; rfl
      | false =>
          have other : behind.kind ≠ .symbol .rightBrace :=
            fun same => Bool.false_ne_true (closed.mp same)
          exact decide_eq_true other

/-- A `return` statement that goes well is one with or without a value.  It jumps unless it is the
last one outside of all blocks and tail returns are folded. -/
theorem returnStatement_ok {t : Token} {nested jump last : Bool}
    (seen : p.symbols.get? = names) (current : p.stream.current = .ok t)
    (start : t.kind.statementKind? = some .«return»)
    (run : returnStatement f bound nested p = .ok jump q)
    (closed : q.stream.Shows TokenKind.closesBlock ↔ last = true) :
    ∃ s : Statement, s.Acceptable names ∧ s.labels = 0 ∧
      jump = s.jumps (f.foldTailReturn && !nested && last) ∧
        p.Goes s.lexemes (s.code names f (f.foldTailReturn && !nested && last) p.labels) 0 q := by
  rcases bind_eq_ok.mp run with ⟨_, p₁, skipped, run⟩
  have goesWord := skip_word_ok skipped current start
  rcases bind_eq_ok.mp run with ⟨_, p₂, returned, run⟩
  rcases bind_eq_ok.mp run with ⟨_, p₃, readEnd, run⟩
  have goesEnd := symbol_ok readEnd
  rcases bind_eq_ok.mp run with ⟨needed, p₄, asked, run⟩
  -- A jump passes no token, so the token behind the statement tells whether it is needed.
  have sameStream : q.stream = p₄.stream := by
    cases needed with
    | true =>
        rcases bind_eq_ok.mp run with ⟨_, p₅, emitted, run⟩
        rcases pure_eq_ok.mp run with ⟨-, rfl⟩
        exact (emit_ok emitted).1.of_nil
    | false =>
        rcases pure_eq_ok.mp run with ⟨-, rfl⟩
        rfl
  rcases needsJump_unmoved asked with rfl
  rw [sameStream] at closed
  have needs := needsJump_ok asked closed
  have jumped : jump = needed ∧
      p₃.Goes [] (if f.foldTailReturn && !nested && last then [] else [.goto f.endLabel]) 0 q := by
    cases needed with
    | true =>
        rcases bind_eq_ok.mp run with ⟨_, p₅, emitted, run⟩
        rcases pure_eq_ok.mp run with ⟨rfl, rfl⟩
        rw [Bool.not_eq_eq_eq_not.mp needs.symm]
        exact ⟨rfl, emit_ok emitted⟩
    | false =>
        rcases pure_eq_ok.mp run with ⟨rfl, rfl⟩
        rw [Bool.not_eq_eq_eq_not.mp needs.symm]
        exact ⟨rfl, Goes.refl _⟩
  rcases jumped with ⟨rfl, goesJump⟩
  rcases bind_eq_ok.mp returned with ⟨first, p₅, looked, returned⟩
  rcases peek_ok looked with ⟨-, rfl⟩
  split at returned
  · rcases pure_eq_ok.mp returned with ⟨-, rfl⟩
    have goes := (goesWord.trans goesEnd).trans goesJump
    exact ⟨.returnValue none, trivial, rfl, needs, goes⟩
  · rcases (readTrees names f.className bound).expression (goesWord.names seen) returned with
      ⟨value, acceptable, goesValue⟩
    have goes := ((goesWord.trans goesValue).trans goesEnd).trans goesJump
    refine ⟨.returnValue (some value), acceptable, rfl, needs, ?_⟩
    simpa only [Statement.lexemes, Statement.code, StatementKind.word, List.append_nil,
      List.nil_append, List.append_assoc, List.cons_append] using goes

/-! ## Blocks -/

/-- What the functions on statements have done when they succeed under a bound. -/
structure ReadStatements (names : Names) (f : Frame) (bound : Nat) : Prop where
  statements : ∀ {p q : Progress} {nested jumps found : Bool}, p.symbols.get? = names →
    statements f bound nested jumps p = .ok found q → q.stream.Shows TokenKind.closesBlock →
    ∃ ss : Statements, ss.Acceptable names ∧
      found = (jumps || ss.jumps (f.foldTailReturn && !nested)) ∧
        p.Goes ss.lexemes (ss.code names f (f.foldTailReturn && !nested) p.labels) ss.labels q
  statement : ∀ {p q : Progress} {t : Token} {kind : StatementKind} {nested found last : Bool},
    p.symbols.get? = names → p.stream.current = .ok t → t.kind.statementKind? = some kind →
    statement f bound nested kind p = .ok found q →
    (q.stream.Shows TokenKind.closesBlock ↔ last = true) →
    ∃ s : Statement, s.Acceptable names ∧
      found = s.jumps (f.foldTailReturn && !nested && last) ∧
        p.Goes s.lexemes (s.code names f (f.foldTailReturn && !nested && last) p.labels) s.labels q
  block : ∀ {p q : Progress} {found : Bool}, p.symbols.get? = names →
    block f bound p = .ok found q →
    ∃ ss : Statements, ss.Acceptable names ∧ found = ss.jumps false ∧
      p.Goes (braced ss.lexemes) (ss.code names f false p.labels) ss.labels q
  ifStatement : ∀ {p q : Progress} {t : Token} {found : Bool}, p.symbols.get? = names →
    p.stream.current = .ok t → t.kind.statementKind? = some .«if» →
    ifStatement f bound p = .ok found q →
    ∃ s : Statement, s.Acceptable names ∧ ∀ tail, found = s.jumps tail ∧
      p.Goes s.lexemes (s.code names f tail p.labels) s.labels q
  whileStatement : ∀ {p q : Progress} {t : Token} {found : Bool}, p.symbols.get? = names →
    p.stream.current = .ok t → t.kind.statementKind? = some .«while» →
    whileStatement f bound p = .ok found q →
    ∃ s : Statement, s.Acceptable names ∧ ∀ tail, found = s.jumps tail ∧
      p.Goes s.lexemes (s.code names f tail p.labels) s.labels q

/-- Without a bound nothing is read. -/
theorem readStatements_zero : ReadStatements names f 0 where
  statements _ run _ := by rw [statements] at run; cases run
  statement _ _ _ run _ := by rw [statement] at run; cases run
  block _ run := by rw [block] at run; cases run
  ifStatement _ _ _ run := by rw [ifStatement] at run; cases run
  whileStatement _ _ _ run := by rw [whileStatement] at run; cases run

namespace ReadStatements

variable (below : ReadStatements names f bound)

include below

/-- Statements are read one by one up to the closing brace.  They jump if one of them does, and only
the last one of the outermost block can be spared. -/
theorem statements_succ {nested jumps found : Bool} (seen : p.symbols.get? = names)
    (run : Step.statements f (bound + 1) nested jumps p = .ok found q)
    (closed : q.stream.Shows TokenKind.closesBlock) :
    ∃ ss : Statements, ss.Acceptable names ∧
      found = (jumps || ss.jumps (f.foldTailReturn && !nested)) ∧
        p.Goes ss.lexemes (ss.code names f (f.foldTailReturn && !nested) p.labels) ss.labels q := by
  rw [Step.statements] at run
  rcases bind_eq_ok.mp run with ⟨t, p₁, looked, run⟩
  rcases peek_ok looked with ⟨current, rfl⟩
  cases start : t.kind.statementKind? with
  | none =>
      simp only [start] at run
      rcases pure_eq_ok.mp run with ⟨rfl, rfl⟩
      exact ⟨.nil, trivial, by rw [Statements.jumps, Bool.or_false], Goes.refl _⟩
  | some kind =>
      simp only [start] at run
      rcases bind_eq_ok.mp run with ⟨jumpsHere, p₂, readFirst, run⟩
      obtain ⟨last, closedThere⟩ :
          ∃ last : Bool, p₂.stream.Shows TokenKind.closesBlock ↔ last = true := by
        by_cases shows : p₂.stream.Shows TokenKind.closesBlock
        · exact ⟨true, iff_of_true shows rfl⟩
        · exact ⟨false, iff_of_false shows Bool.false_ne_true⟩
      rcases below.statement seen current start readFirst closedThere with
        ⟨first, acceptable, rfl, goesFirst⟩
      rcases below.statements (goesFirst.names seen) run closed with
        ⟨rest, acceptable', rfl, goesRest⟩
      have sameLast : last = rest.isEmpty :=
        Bool.eq_iff_iff.mpr (closedThere.symm.trans
          (rest.closesBlock_iff_isEmpty goesRest.1 closed))
      rw [goesFirst.labels] at goesRest
      subst sameLast
      exact ⟨.cons first rest, ⟨acceptable, acceptable'⟩, Bool.or_assoc ..,
        goesFirst.trans goesRest⟩

/-- No statement in a block is the last one of the subroutine. -/
theorem block_succ {found : Bool} (seen : p.symbols.get? = names)
    (run : Step.block f (bound + 1) p = .ok found q) :
    ∃ ss : Statements, ss.Acceptable names ∧ found = ss.jumps false ∧
      p.Goes (braced ss.lexemes) (ss.code names f false p.labels) ss.labels q := by
  rw [Step.block] at run
  rcases bind_eq_ok.mp run with ⟨_, p₁, readOpen, run⟩
  have goesOpen := symbol_ok readOpen
  rcases bind_eq_ok.mp run with ⟨jumps, p₂, readInner, run⟩
  rcases bind_eq_ok.mp run with ⟨_, p₃, readClose, run⟩
  rcases pure_eq_ok.mp run with ⟨rfl, rfl⟩
  rcases below.statements (goesOpen.names seen) readInner (symbol_shows readClose) with
    ⟨ss, acceptable, jumped, goesInner⟩
  rw [Bool.not_true, Bool.and_false] at jumped goesInner
  rw [Bool.false_or] at jumped
  rw [goesOpen.labels] at goesInner
  have goes := (goesOpen.trans goesInner).trans (symbol_ok readClose)
  refine ⟨ss, acceptable, jumped, ?_⟩
  simpa only [braced, List.append_nil, List.nil_append, List.cons_append, Nat.zero_add,
    Nat.add_zero] using goes

/-- An `if` statement has an `else` block if and only if the token behind its first block is that
word, so that there is one tree for what was read. -/
theorem ifStatement_succ {t : Token} {found : Bool} (seen : p.symbols.get? = names)
    (current : p.stream.current = .ok t) (start : t.kind.statementKind? = some .«if»)
    (run : Step.ifStatement f (bound + 1) p = .ok found q) :
    ∃ s : Statement, s.Acceptable names ∧ ∀ tail, found = s.jumps tail ∧
      p.Goes s.lexemes (s.code names f tail p.labels) s.labels q := by
  rw [Step.ifStatement] at run
  rcases bind_eq_ok.mp run with ⟨_, p₁, skipped, run⟩
  rcases bind_eq_ok.mp run with ⟨_, p₂, readOpen, run⟩
  have goesOpen := (skip_word_ok skipped current start).trans (symbol_ok readOpen)
  rcases bind_eq_ok.mp run with ⟨_, p₃, readCondition, run⟩
  rcases (readTrees names f.className bound).expression (goesOpen.names seen) readCondition with
    ⟨condition, acceptable, goesCondition⟩
  rcases bind_eq_ok.mp run with ⟨_, p₄, readClose, run⟩
  have goesClose := (goesOpen.trans goesCondition).trans (symbol_ok readClose)
  rcases bind_eq_ok.mp run with ⟨id, p₅, numbered, run⟩
  rcases freshLabel_ok numbered with ⟨rfl, goesNumber⟩
  rw [goesClose.labels] at run
  rcases bind_eq_ok.mp run with ⟨_, p₆, emitted, run⟩
  have goesTest := (goesClose.trans goesNumber).trans (emit_ok emitted)
  rcases bind_eq_ok.mp run with ⟨jumpsThen, p₇, readThen, run⟩
  rcases below.block (goesTest.names seen) readThen with ⟨thenBlock, acceptableThen, rfl, goesThen⟩
  rw [goesTest.labels] at goesThen
  have goesBranch := goesTest.trans goesThen
  rcases bind_eq_ok.mp run with ⟨two, p₈, readElse, run⟩
  rcases accept_keyword_ok readElse with ⟨rfl, goesElse⟩ | ⟨rfl, rfl⟩
  · rcases bind_eq_ok.mp run with ⟨_, p₉, emitted', run⟩
    have goesMiddle := (goesBranch.trans goesElse).trans (emit_ok emitted')
    rcases bind_eq_ok.mp run with ⟨jumpsElse, p₁₀, readOther, run⟩
    rcases below.block (goesMiddle.names seen) readOther with
      ⟨elseBlock, acceptableElse, rfl, goesOther⟩
    rw [goesMiddle.labels] at goesOther
    rcases bind_eq_ok.mp run with ⟨_, p₁₁, emittedEnd, run⟩
    rcases pure_eq_ok.mp run with ⟨rfl, rfl⟩
    have goes := (goesMiddle.trans goesOther).trans (emit_ok emittedEnd)
    refine ⟨.ifElse condition thenBlock elseBlock, ⟨acceptable, acceptableThen, acceptableElse⟩,
      fun tail => ⟨rfl, goes.of_eq ?_ ?_ ?_⟩⟩
    · simp only [Statement.lexemes, StatementKind.word, List.append_nil, List.nil_append,
        List.append_assoc, List.cons_append]
    · simp only [Statement.code, List.append_nil, List.nil_append, List.append_assoc,
        List.cons_append, Nat.zero_add, Nat.add_zero, Nat.add_assoc]
    · rw [Statement.labels]
      omega
  · rcases bind_eq_ok.mp run with ⟨_, p₉, emitted', run⟩
    rcases pure_eq_ok.mp run with ⟨rfl, rfl⟩
    have goes := goesBranch.trans (emit_ok emitted')
    refine ⟨.ifThen condition thenBlock, ⟨acceptable, acceptableThen⟩,
      fun tail => ⟨rfl, goes.of_eq ?_ ?_ ?_⟩⟩
    · simp only [Statement.lexemes, StatementKind.word, List.append_nil, List.nil_append,
        List.append_assoc, List.cons_append]
    · simp only [Statement.code, List.append_nil, List.nil_append, List.append_assoc,
        List.cons_append, Nat.zero_add, Nat.add_zero]
    · rw [Statement.labels]
      omega

/-- The label number of a loop is taken before those of the loops and branches in its block. -/
theorem whileStatement_succ {t : Token} {found : Bool} (seen : p.symbols.get? = names)
    (current : p.stream.current = .ok t) (start : t.kind.statementKind? = some .«while»)
    (run : Step.whileStatement f (bound + 1) p = .ok found q) :
    ∃ s : Statement, s.Acceptable names ∧ ∀ tail, found = s.jumps tail ∧
      p.Goes s.lexemes (s.code names f tail p.labels) s.labels q := by
  rw [Step.whileStatement] at run
  rcases bind_eq_ok.mp run with ⟨_, p₁, skipped, run⟩
  have goesWord := skip_word_ok skipped current start
  rcases bind_eq_ok.mp run with ⟨id, p₂, numbered, run⟩
  rcases freshLabel_ok numbered with ⟨rfl, goesNumber⟩
  rw [goesWord.labels] at run
  rcases bind_eq_ok.mp run with ⟨_, p₃, emitted, run⟩
  rcases bind_eq_ok.mp run with ⟨_, p₄, readOpen, run⟩
  have goesOpen := ((goesWord.trans goesNumber).trans (emit_ok emitted)).trans (symbol_ok readOpen)
  rcases bind_eq_ok.mp run with ⟨_, p₅, readCondition, run⟩
  rcases (readTrees names f.className bound).expression (goesOpen.names seen) readCondition with
    ⟨condition, acceptable, goesCondition⟩
  rcases bind_eq_ok.mp run with ⟨_, p₆, readClose, run⟩
  rcases bind_eq_ok.mp run with ⟨_, p₇, emittedTest, run⟩
  have goesTest := ((goesOpen.trans goesCondition).trans (symbol_ok readClose)).trans
    (emit_ok emittedTest)
  rcases bind_eq_ok.mp run with ⟨jumps, p₈, readBlock, run⟩
  rcases below.block (goesTest.names seen) readBlock with ⟨ss, acceptableBlock, rfl, goesBlock⟩
  rw [goesTest.labels] at goesBlock
  rcases bind_eq_ok.mp run with ⟨_, p₉, emittedEnd, run⟩
  rcases pure_eq_ok.mp run with ⟨rfl, rfl⟩
  have goes := (goesTest.trans goesBlock).trans (emit_ok emittedEnd)
  refine ⟨.whileLoop condition ss, ⟨acceptable, acceptableBlock⟩,
    fun tail => ⟨rfl, goes.of_eq ?_ ?_ ?_⟩⟩
  · simp only [Statement.lexemes, StatementKind.word, List.append_nil, List.nil_append,
      List.append_assoc, List.cons_append]
  · simp only [Statement.code, List.append_nil, List.nil_append, List.append_assoc,
      List.cons_append, Nat.zero_add, Nat.add_zero]
  · rw [Statement.labels]
    omega

/-- The word in front tells which form of a statement has been read. -/
theorem statement_succ {t : Token} {kind : StatementKind} {nested found last : Bool}
    (seen : p.symbols.get? = names) (current : p.stream.current = .ok t)
    (start : t.kind.statementKind? = some kind)
    (run : Step.statement f (bound + 1) nested kind p = .ok found q)
    (closed : q.stream.Shows TokenKind.closesBlock ↔ last = true) :
    ∃ s : Statement, s.Acceptable names ∧
      found = s.jumps (f.foldTailReturn && !nested && last) ∧
        p.Goes s.lexemes (s.code names f (f.foldTailReturn && !nested && last) p.labels)
          s.labels q := by
  cases kind with
  | «let» =>
      rw [Step.statement] at run
      rcases bind_eq_ok.mp run with ⟨_, p₁, compiled, run⟩
      rcases pure_eq_ok.mp run with ⟨rfl, rfl⟩
      rcases letStatement_ok seen current start compiled with ⟨s, acceptable, labels, described⟩
      rcases described (f.foldTailReturn && !nested && last) with ⟨jumped, goes⟩
      exact ⟨s, acceptable, jumped.symm, labels.symm ▸ goes⟩
  | «do» =>
      rw [Step.statement] at run
      rcases bind_eq_ok.mp run with ⟨_, p₁, compiled, run⟩
      rcases pure_eq_ok.mp run with ⟨rfl, rfl⟩
      rcases doStatement_ok seen current start compiled with ⟨s, acceptable, labels, described⟩
      rcases described (f.foldTailReturn && !nested && last) with ⟨jumped, goes⟩
      exact ⟨s, acceptable, jumped.symm, labels.symm ▸ goes⟩
  | «return» =>
      rw [Step.statement] at run
      rcases returnStatement_ok seen current start run closed with
        ⟨s, acceptable, labels, jumped, goes⟩
      exact ⟨s, acceptable, jumped, labels.symm ▸ goes⟩
  | «if» =>
      rw [Step.statement] at run
      rcases below.ifStatement seen current start run with ⟨s, acceptable, described⟩
      exact ⟨s, acceptable, described _⟩
  | «while» =>
      rw [Step.statement] at run
      rcases below.whileStatement seen current start run with ⟨s, acceptable, described⟩
      exact ⟨s, acceptable, described _⟩

end ReadStatements

/-- Every successful run has a tree. -/
theorem readStatements (names : Names) (f : Frame) (bound : Nat) :
    ReadStatements names f bound := by
  induction bound with
  | zero => exact readStatements_zero
  | succ bound inductionHypothesis =>
      exact
        { statements := inductionHypothesis.statements_succ
          statement := inductionHypothesis.statement_succ
          block := inductionHypothesis.block_succ
          ifStatement := inductionHypothesis.ifStatement_succ
          whileStatement := inductionHypothesis.whileStatement_succ }

end Step

end Jack
