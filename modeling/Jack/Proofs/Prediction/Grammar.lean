import Jack.Proofs.Prediction.Language

namespace Jack

open Computability

/-!
# The languages of the grammar

Every form of the grammar as a language that is put together from smaller ones.  The languages are
those that the trees write; the equations say how a form goes on behind its first lexemes, in the
order in which the functions of the compiler ask for it.
-/

namespace Lexeme

/-- A symbol is told by its kind, and so are words and the end of file. -/
theorem kind_eq_symbol {l : Lexeme} {p : Punctuation} : l.kind = .symbol p ↔ l = .symbol p := by
  cases l <;> simp only [kind, reduceCtorEq, TokenKind.symbol.injEq, symbol.injEq]

theorem kind_eq_keyword {l : Lexeme} {k : Keyword} : l.kind = .keyword k ↔ l = .keyword k := by
  cases l <;> simp only [kind, reduceCtorEq, TokenKind.keyword.injEq, keyword.injEq]

/-- The kind of an identifier does not tell its name. -/
theorem kind_eq_identifier {l : Lexeme} : l.kind = .identifier ↔ ∃ name, l = .identifier name := by
  cases l <;> simp only [kind, reduceCtorEq, identifier.injEq, exists_eq', exists_false]

theorem kind_eq_integer {l : Lexeme} : l.kind = .integer ↔ ∃ digits, l = .integer digits := by
  cases l <;> simp only [kind, reduceCtorEq, integer.injEq, exists_eq', exists_false]

theorem kind_eq_string {l : Lexeme} : l.kind = .string ↔ ∃ text, l = .string text := by
  cases l <;> simp only [kind, reduceCtorEq, string.injEq, exists_eq', exists_false]

theorem kind_eq_endOfFile {l : Lexeme} : l.kind = .endOfFile ↔ l = .endOfFile := by
  cases l <;> simp only [kind, reduceCtorEq]

end Lexeme

section Members

variable {L : Language Lexeme} {w : List Lexeme}

theorem mem_symbol {p : Punctuation} : w ∈ ofKind (.symbol p) ↔ w = [.symbol p] := by
  simp only [mem_ofKind, Lexeme.kind_eq_symbol, exists_eq_left]

/-- The first lexeme is the symbol. -/
theorem mem_symbol_mul {p : Punctuation} :
    w ∈ ofKind (.symbol p) * L ↔ ∃ v ∈ L, w = .symbol p :: v := by
  simp only [mem_ofKind_mul, Lexeme.kind_eq_symbol, exists_and_left, exists_eq_left]

/-- The first lexeme is the word. -/
theorem mem_keyword_mul {k : Keyword} :
    w ∈ ofKind (.keyword k) * L ↔ ∃ v ∈ L, w = .keyword k :: v := by
  simp only [mem_ofKind_mul, Lexeme.kind_eq_keyword, exists_and_left, exists_eq_left]

theorem mem_identifier : w ∈ ofKind .identifier ↔ ∃ name, w = [.identifier name] := by
  rw [mem_ofKind]
  constructor
  · rintro ⟨l, kind, rfl⟩
    rcases Lexeme.kind_eq_identifier.mp kind with ⟨name, rfl⟩
    exact ⟨name, rfl⟩
  · rintro ⟨name, rfl⟩
    exact ⟨_, rfl, rfl⟩

/-- The first lexeme is an identifier, whatever its name. -/
theorem mem_identifier_mul :
    w ∈ ofKind .identifier * L ↔ ∃ name, ∃ v ∈ L, w = .identifier name :: v := by
  rw [mem_ofKind_mul]
  constructor
  · rintro ⟨l, v, kind, member, rfl⟩
    rcases Lexeme.kind_eq_identifier.mp kind with ⟨name, rfl⟩
    exact ⟨name, v, member, rfl⟩
  · rintro ⟨name, v, member, rfl⟩
    exact ⟨_, v, rfl, member, rfl⟩

end Members

instance : Nonempty Term := ⟨.integer ""⟩

instance : Nonempty Expression := ⟨.chain (.integer "") .nil⟩

instance : Nonempty Arguments := ⟨.nil⟩

instance : Nonempty Statements := ⟨.nil⟩

instance : Nonempty VariableGroup := ⟨⟨.int, "", []⟩⟩

instance : Nonempty TypeName := ⟨.int⟩

namespace Grammar

/-! ## Expressions -/

/-- All expressions, also those with names that are not declared. -/
abbrev expressions : Language Lexeme := languageOf Expression.lexemes

/-- All terms. -/
abbrev terms : Language Lexeme := languageOf Term.lexemes

/-- An operator and the term behind it. -/
abbrev operations (o : BinaryOperator) : Language Lexeme := ofKind (.symbol o.symbol) * terms

/-- All lists of arguments, the empty one included. -/
abbrev argumentLists : Language Lexeme := languageOf Arguments.lexemes

/-- An array element behind its name. -/
abbrev elementRests : Language Lexeme :=
  ofKind (.symbol .leftBracket) * (expressions * ofKind (.symbol .rightBracket))

/-- The member behind the first name of a call, if there is one. -/
abbrev memberRests : Language Lexeme := 1 + ofKind (.symbol .dot) * ofKind .identifier

/-- A call behind its first name. -/
abbrev callRests : Language Lexeme :=
  memberRests * (ofKind (.symbol .leftParen) * (argumentLists * ofKind (.symbol .rightParen)))

/-- A term behind a name: nothing, or the rest of an array element or of a call. -/
abbrev nameRests : Language Lexeme := 1 + elementRests + callRests

/-- The terms of one form. -/
def termForms : TermKind → Language Lexeme
  | .integer => ofKind .integer
  | .string => ofKind .string
  | .constant k => ofKind (.keyword k.word)
  | .unary o => ofKind (.symbol o.symbol) * terms
  | .parenthesis => ofKind (.symbol .leftParen) * (expressions * ofKind (.symbol .rightParen))
  | .name => ofKind .identifier * nameRests

end Grammar

open Grammar

/-- Operators are written one behind the other. -/
theorem Operators.lexemes_mem : (operators : Operators) →
    operators.lexemes ∈ (⨆ o, operations o)∗
  | .nil => Language.nil_mem_kstar _
  | .cons o operand rest => by
      have first : .symbol o.symbol :: operand.lexemes ∈ ⨆ o, operations o :=
        Language.mem_iSup.mpr
          ⟨o, cons_mem_ofKind_mul.mpr ⟨rfl, lexemes_mem_languageOf operand⟩⟩
      exact append_mem_kstar first rest.lexemes_mem

theorem Arguments.behind_mem : (listed : Arguments) →
    listed.behind ∈ (ofKind (.symbol .comma) * expressions)∗
  | .nil => Language.nil_mem_kstar _
  | .cons first rest => by
      have next : .symbol .comma :: first.lexemes ∈ ofKind (.symbol .comma) * expressions :=
        cons_mem_ofKind_mul.mpr ⟨rfl, lexemes_mem_languageOf first⟩
      exact append_mem_kstar next rest.behind_mem

namespace Grammar

/-- A chain is a repetition of operators with terms.  There is no precedence in it. -/
theorem operators_eq : languageOf Operators.lexemes = (⨆ o, operations o)∗ := by
  apply le_antisymm
  · rintro _ ⟨operators, rfl⟩
    exact operators.lexemes_mem
  · refine kstar_subset ⟨.nil, rfl⟩ ?_
    rintro w member _ ⟨rest, rfl⟩
    rcases Language.mem_iSup.mp member with ⟨o, member⟩
    rcases mem_symbol_mul.mp member with ⟨_, ⟨operand, rfl⟩, rfl⟩
    exact ⟨.cons o operand rest, rfl⟩

/-- An expression is a term and a chain behind it. -/
theorem expressions_eq : expressions = terms * (⨆ o, operations o)∗ := by
  rw [← operators_eq]
  apply Language.ext
  intro w
  rw [mem_languageOf_mul]
  constructor
  · rintro ⟨⟨first, rest⟩, rfl⟩
    exact ⟨first, _, ⟨rest, rfl⟩, rfl⟩
  · rintro ⟨first, _, ⟨rest, rfl⟩, rfl⟩
    exact ⟨.chain first rest, rfl⟩

theorem behind_eq :
    languageOf Arguments.behind = (ofKind (.symbol .comma) * expressions)∗ := by
  apply le_antisymm
  · rintro _ ⟨listed, rfl⟩
    exact listed.behind_mem
  · refine kstar_subset ⟨.nil, rfl⟩ ?_
    rintro w member _ ⟨rest, rfl⟩
    rcases mem_symbol_mul.mp member with ⟨_, ⟨first, rfl⟩, rfl⟩
    exact ⟨.cons first rest, rfl⟩

/-- Arguments are none or several with commas between them. -/
theorem argumentLists_eq : argumentLists = 1 + separated (.symbol .comma) expressions := by
  rw [separated, ← behind_eq]
  apply Language.ext
  intro w
  rw [Language.mem_add, Language.mem_one, mem_languageOf_mul]
  constructor
  · rintro ⟨listed, rfl⟩
    cases listed with
    | nil => exact .inl rfl
    | cons first rest => exact .inr ⟨first, _, ⟨rest, rfl⟩, rfl⟩
  · rintro (rfl | ⟨first, _, ⟨rest, rfl⟩, rfl⟩)
    · exact ⟨.nil, rfl⟩
    · exact ⟨.cons first rest, rfl⟩

/-- The target of a call is a name and perhaps a member of it. -/
theorem targets_eq : languageOf CallTarget.lexemes = ofKind .identifier * memberRests := by
  apply Language.ext
  intro w
  simp only [memberRests, mul_add, mul_one, Language.mem_add, mem_identifier, mem_identifier_mul,
    mem_symbol_mul]
  constructor
  · rintro ⟨target, rfl⟩
    cases target with
    | own name => exact .inl ⟨name, rfl⟩
    | qualified object member => exact .inr ⟨object, _, ⟨_, ⟨member, rfl⟩, rfl⟩, rfl⟩
  · rintro (⟨name, rfl⟩ | ⟨object, _, ⟨_, ⟨member, rfl⟩, rfl⟩, rfl⟩)
    · exact ⟨.own name, rfl⟩
    · exact ⟨.qualified object member, rfl⟩

/-- A call is a name and what comes behind it. -/
theorem calls_eq : languageOf Call.lexemes = ofKind .identifier * callRests := by
  rw [callRests, ← mul_assoc, ← targets_eq]
  apply Language.ext
  intro w
  simp only [mem_languageOf_mul, mem_symbol_mul, mem_symbol]
  constructor
  · rintro ⟨⟨target, listed⟩, rfl⟩
    exact ⟨target, _, ⟨_, ⟨listed, _, rfl, rfl⟩, rfl⟩, rfl⟩
  · rintro ⟨target, _, ⟨_, ⟨listed, _, rfl, rfl⟩, rfl⟩, rfl⟩
    exact ⟨.invoke target listed, rfl⟩

/-- The terms that start with a name. -/
theorem nameTerms_eq :
    termForms .name =
      ofKind .identifier + ofKind .identifier * elementRests + languageOf Call.lexemes := by
  rw [calls_eq, termForms, nameRests, mul_add, mul_add, mul_one]

/-- Terms are those of any of the forms that the first lexeme selects. -/
theorem terms_eq : terms = ⨆ form, termForms form := by
  apply Language.ext
  intro w
  rw [Language.mem_iSup]
  constructor
  · rintro ⟨t, rfl⟩
    refine ⟨t.form, ?_⟩
    cases t with
    | integer digits => exact singleton_mem_ofKind.mpr rfl
    | string text => exact singleton_mem_ofKind.mpr rfl
    | constant k => exact singleton_mem_ofKind.mpr rfl
    | unary o operand => exact mem_symbol_mul.mpr ⟨_, ⟨operand, rfl⟩, rfl⟩
    | parenthesis inner =>
        refine mem_symbol_mul.mpr ⟨_, ?_, rfl⟩
        exact Language.append_mem_mul ⟨inner, rfl⟩ (mem_symbol.mpr rfl)
    | plain name =>
        rw [Term.form, nameTerms_eq]
        exact .inl (.inl (singleton_mem_ofKind.mpr rfl))
    | element array index =>
        rw [Term.form, nameTerms_eq]
        refine .inl (.inr (mem_identifier_mul.mpr ⟨array, _, mem_symbol_mul.mpr ⟨_, ?_, rfl⟩, rfl⟩))
        exact Language.append_mem_mul ⟨index, rfl⟩ (mem_symbol.mpr rfl)
    | call c =>
        rw [Term.form, nameTerms_eq]
        exact .inr ⟨c, rfl⟩
  · rintro ⟨form, member⟩
    cases form with
    | integer =>
        rcases mem_ofKind.mp member with ⟨l, kind, rfl⟩
        rcases Lexeme.kind_eq_integer.mp kind with ⟨digits, rfl⟩
        exact ⟨.integer digits, rfl⟩
    | string =>
        rcases mem_ofKind.mp member with ⟨l, kind, rfl⟩
        rcases Lexeme.kind_eq_string.mp kind with ⟨text, rfl⟩
        exact ⟨.string text, rfl⟩
    | constant k =>
        rcases mem_ofKind.mp member with ⟨l, kind, rfl⟩
        exact ⟨.constant k, by rw [Lexeme.kind_eq_keyword.mp kind]; rfl⟩
    | unary o =>
        rcases mem_symbol_mul.mp member with ⟨_, ⟨operand, rfl⟩, rfl⟩
        exact ⟨.unary o operand, rfl⟩
    | parenthesis =>
        rcases mem_symbol_mul.mp member with ⟨_, enclosed, rfl⟩
        rcases mem_languageOf_mul.mp enclosed with ⟨inner, _, close, rfl⟩
        exact ⟨.parenthesis inner, by rw [mem_symbol.mp close]; rfl⟩
    | name =>
        rw [nameTerms_eq] at member
        rcases member with (plain | element) | ⟨c, rfl⟩
        · rcases mem_identifier.mp plain with ⟨name, rfl⟩
          exact ⟨.plain name, rfl⟩
        · rcases mem_identifier_mul.mp element with ⟨array, _, rest, rfl⟩
          rcases mem_symbol_mul.mp rest with ⟨_, enclosed, rfl⟩
          rcases mem_languageOf_mul.mp enclosed with ⟨index, _, close, rfl⟩
          exact ⟨.element array index, by rw [mem_symbol.mp close]; rfl⟩
        · exact ⟨.call c, rfl⟩

/-- The operator tells the operation. -/
theorem selects_operations : Selects TokenKind.binaryOperator? operations :=
  selects_ofKind_mul _ TokenKind.binaryOperator?_symbol

/-- The first token of a term tells its form. -/
theorem selects_termForms : Selects TokenKind.termKind? termForms := by
  have one {form : TermKind} {kind : TokenKind} (selected : kind.termKind? = some form) :
      ∀ w ∈ ofKind kind, ∃ l rest, w = l :: rest ∧ l.kind.termKind? = some form := by
    intro w member
    rcases mem_ofKind.mp member with ⟨l, rfl, rfl⟩
    exact ⟨l, [], rfl, selected⟩
  have more {form : TermKind} {kind : TokenKind} (selected : kind.termKind? = some form)
      (rests : Language Lexeme) :
      ∀ w ∈ ofKind kind * rests, ∃ l rest, w = l :: rest ∧ l.kind.termKind? = some form := by
    intro w member
    rcases mem_ofKind_mul.mp member with ⟨l, v, rfl, -, rfl⟩
    exact ⟨l, v, rfl, selected⟩
  intro form
  cases form with
  | integer => exact one rfl
  | string => exact one rfl
  | constant k => exact one (TokenKind.termKind?_constant k)
  | unary o => exact more (TokenKind.termKind?_unary o) _
  | parenthesis => exact more rfl _
  | name => exact more rfl _

theorem beginsWith_elementRests : BeginsWith (fun k => k = .symbol .leftBracket) elementRests :=
  (beginsWith_ofKind rfl).mul

/-- Behind the first name of a call there is a dot or a parenthesis. -/
theorem beginsWith_callRests :
    BeginsWith (fun k => k = .symbol .dot || k = .symbol .leftParen) callRests := by
  rw [callRests, memberRests, add_mul, one_mul]
  exact (beginsWith_ofKind rfl).mul.add (beginsWith_ofKind rfl).mul.mul

theorem beginsWith_terms : BeginsWith (fun k => k.termKind?.isSome) terms := by
  rw [terms_eq]
  exact selects_termForms.beginsWith

theorem beginsWith_expressions : BeginsWith (fun k => k.termKind?.isSome) expressions := by
  rw [expressions_eq]
  exact beginsWith_terms.mul

/-! ## Statements -/

/-- All lists of statements, the empty one included. -/
abbrev statementLists : Language Lexeme := languageOf Statements.lexemes

/-- Statements in braces. -/
def blocks : Language Lexeme :=
  ofKind (.symbol .leftBrace) * (statementLists * ofKind (.symbol .rightBrace))

instance : Productive blocks := by
  unfold blocks
  infer_instance

/-- The value of a `let` statement, with what stands around it. -/
abbrev assignments : Language Lexeme :=
  ofKind (.symbol .equal) * (expressions * ofKind (.symbol .semicolon))

/-- The index of a `let` statement and what comes behind it. -/
abbrev indexedAssignments : Language Lexeme :=
  ofKind (.symbol .leftBracket) *
    (expressions * (ofKind (.symbol .rightBracket) * assignments))

/-- A condition in parentheses. -/
abbrev conditions : Language Lexeme :=
  ofKind (.symbol .leftParen) * (expressions * ofKind (.symbol .rightParen))

/-- The second block of an `if` statement, if there is one. -/
abbrev elseRests : Language Lexeme := 1 + ofKind (.keyword .«else») * blocks

/-- The statements of one form behind their first word. -/
def statementRests : StatementKind → Language Lexeme
  | .«let» => ofKind .identifier * (assignments + indexedAssignments)
  | .«do» => languageOf Call.lexemes * ofKind (.symbol .semicolon)
  | .«return» => (1 + expressions) * ofKind (.symbol .semicolon)
  | .«if» => conditions * (blocks * elseRests)
  | .«while» => conditions * blocks

/-- The statements of one form. -/
abbrev statementForms (form : StatementKind) : Language Lexeme :=
  ofKind (.keyword form.word) * statementRests form

theorem mem_blocks {w : List Lexeme} :
    w ∈ blocks ↔ ∃ inner : Statements, w = braced inner.lexemes := by
  simp only [blocks, mem_symbol_mul, mem_languageOf_mul, mem_symbol]
  constructor
  · rintro ⟨_, ⟨inner, _, rfl, rfl⟩, rfl⟩
    exact ⟨inner, rfl⟩
  · rintro ⟨inner, rfl⟩
    exact ⟨_, ⟨inner, _, rfl, rfl⟩, rfl⟩

theorem mem_assignments {w : List Lexeme} :
    w ∈ assignments ↔
      ∃ value : Expression, w = .symbol .equal :: (value.lexemes ++ [.symbol .semicolon]) := by
  simp only [assignments, mem_symbol_mul, mem_languageOf_mul, mem_symbol]
  constructor
  · rintro ⟨_, ⟨value, _, rfl, rfl⟩, rfl⟩
    exact ⟨value, rfl⟩
  · rintro ⟨value, rfl⟩
    exact ⟨_, ⟨value, _, rfl, rfl⟩, rfl⟩

/-- A condition stands in parentheses. -/
theorem mem_conditions_mul {L : Language Lexeme} {w : List Lexeme} :
    w ∈ conditions * L ↔ ∃ condition : Expression, ∃ v ∈ L,
      w = .symbol .leftParen :: (condition.lexemes ++ .symbol .rightParen :: v) := by
  simp only [conditions, mul_assoc, mem_symbol_mul, mem_languageOf_mul]
  constructor
  · rintro ⟨_, ⟨condition, _, ⟨v, member, rfl⟩, rfl⟩, rfl⟩
    exact ⟨condition, v, member, rfl⟩
  · rintro ⟨condition, v, member, rfl⟩
    exact ⟨_, ⟨condition, _, ⟨v, member, rfl⟩, rfl⟩, rfl⟩

/-- Statements are those of any of the forms that the first word selects. -/
theorem statements_eq : languageOf Statement.lexemes = ⨆ form, statementForms form := by
  apply Language.ext
  intro w
  simp only [Language.mem_iSup, mem_keyword_mul]
  constructor
  · rintro ⟨s, rfl⟩
    refine ⟨s.form, ?_⟩
    cases s with
    | letVariable target value =>
        refine ⟨_, mem_identifier_mul.mpr ⟨target, _, .inl ?_, rfl⟩, rfl⟩
        exact mem_assignments.mpr ⟨value, rfl⟩
    | letElement array index value =>
        refine ⟨_, mem_identifier_mul.mpr ⟨array, _, .inr ?_, rfl⟩, rfl⟩
        refine mem_symbol_mul.mpr ⟨_, Language.append_mem_mul ⟨index, rfl⟩ ?_, rfl⟩
        exact mem_symbol_mul.mpr ⟨_, mem_assignments.mpr ⟨value, rfl⟩, rfl⟩
    | ifThen condition thenBlock =>
        refine ⟨_, mem_conditions_mul.mpr ⟨condition, _, ?_, rfl⟩, rfl⟩
        exact Language.mem_mul.mpr
          ⟨_, mem_blocks.mpr ⟨thenBlock, rfl⟩, [], .inl rfl, List.append_nil _⟩
    | ifElse condition thenBlock elseBlock =>
        refine ⟨_, mem_conditions_mul.mpr ⟨condition, _, ?_, rfl⟩, rfl⟩
        refine Language.append_mem_mul (mem_blocks.mpr ⟨thenBlock, rfl⟩) (.inr ?_)
        exact mem_keyword_mul.mpr ⟨_, mem_blocks.mpr ⟨elseBlock, rfl⟩, rfl⟩
    | whileLoop condition block =>
        exact ⟨_, mem_conditions_mul.mpr ⟨condition, _, mem_blocks.mpr ⟨block, rfl⟩, rfl⟩, rfl⟩
    | doCall c => exact ⟨_, Language.append_mem_mul ⟨c, rfl⟩ (mem_symbol.mpr rfl), rfl⟩
    | returnValue value =>
        cases value with
        | none =>
            refine ⟨_, Language.append_mem_mul (a := []) (.inl rfl) (mem_symbol.mpr rfl), rfl⟩
        | some value =>
            exact ⟨_, Language.append_mem_mul (.inr ⟨value, rfl⟩) (mem_symbol.mpr rfl), rfl⟩
  · rintro ⟨form, v, member, rfl⟩
    cases form with
    | «let» =>
        rcases mem_identifier_mul.mp member with ⟨target, v, plain | indexed, rfl⟩
        · rcases mem_assignments.mp plain with ⟨value, rfl⟩
          exact ⟨.letVariable target value, rfl⟩
        · rcases mem_symbol_mul.mp indexed with ⟨_, enclosed, rfl⟩
          rcases mem_languageOf_mul.mp enclosed with ⟨index, _, behind, rfl⟩
          rcases mem_symbol_mul.mp behind with ⟨_, assignment, rfl⟩
          rcases mem_assignments.mp assignment with ⟨value, rfl⟩
          exact ⟨.letElement target index value, rfl⟩
    | «if» =>
        rcases mem_conditions_mul.mp member with ⟨condition, v, rest, rfl⟩
        rcases Language.mem_mul.mp rest with ⟨_, first, v, second, rfl⟩
        rcases mem_blocks.mp first with ⟨thenBlock, rfl⟩
        rcases second with rfl | second
        · exact ⟨.ifThen condition thenBlock, by rw [List.append_nil]; rfl⟩
        · rcases mem_keyword_mul.mp second with ⟨v, block, rfl⟩
          rcases mem_blocks.mp block with ⟨elseBlock, rfl⟩
          exact ⟨.ifElse condition thenBlock elseBlock, rfl⟩
    | «while» =>
        rcases mem_conditions_mul.mp member with ⟨condition, v, rest, rfl⟩
        rcases mem_blocks.mp rest with ⟨block, rfl⟩
        exact ⟨.whileLoop condition block, rfl⟩
    | «do» =>
        rcases mem_languageOf_mul.mp member with ⟨c, _, close, rfl⟩
        exact ⟨.doCall c, by rw [mem_symbol.mp close]; rfl⟩
    | «return» =>
        rcases Language.mem_mul.mp member with ⟨_, rfl | ⟨value, rfl⟩, _, close, rfl⟩
        · exact ⟨.returnValue none, by rw [mem_symbol.mp close]; rfl⟩
        · exact ⟨.returnValue (some value), by rw [mem_symbol.mp close]; rfl⟩

end Grammar

theorem Statements.lexemes_mem : (statements : Statements) →
    statements.lexemes ∈ (languageOf Statement.lexemes)∗
  | .nil => Language.nil_mem_kstar _
  | .cons first rest => append_mem_kstar (lexemes_mem_languageOf first) rest.lexemes_mem

namespace Grammar

/-- A list of statements is a repetition. -/
theorem statementLists_eq : statementLists = (⨆ form, statementForms form)∗ := by
  rw [← statements_eq]
  apply le_antisymm
  · rintro _ ⟨statements, rfl⟩
    exact statements.lexemes_mem
  · refine kstar_subset ⟨.nil, rfl⟩ ?_
    rintro _ ⟨first, rfl⟩ _ ⟨rest, rfl⟩
    exact ⟨.cons first rest, rfl⟩

/-- The first word of a statement tells its form. -/
theorem selects_statementForms : Selects TokenKind.statementKind? statementForms :=
  selects_ofKind_mul _ TokenKind.statementKind?_word

/-! ## Declarations -/

/-- All types, also those of classes that do not exist. -/
abbrev types : Language Lexeme := single TokenKind.isType

/-- The variables of one declaration behind its first word. -/
abbrev variableGroups : Language Lexeme :=
  types * (separated (.symbol .comma) (ofKind .identifier) * ofKind (.symbol .semicolon))

/-- The declarations of class variables of one group. -/
abbrev classVariableGroups : Language Lexeme :=
  single TokenKind.startsClassVariables * variableGroups

/-- A declaration of local variables: the word `var` and a group. -/
abbrev localVariableGroups : Language Lexeme := ofKind (.keyword .var) * variableGroups

/-- A parameter: a type and a name. -/
abbrev typedNames : Language Lexeme := types * ofKind .identifier

theorem mem_types {w : List Lexeme} : w ∈ types ↔ ∃ type : TypeName, w = [type.lexeme] := by
  constructor
  · rintro ⟨l, isType, rfl⟩
    cases l with
    | keyword k =>
        cases k with
        | int => exact ⟨.int, rfl⟩
        | char => exact ⟨.char, rfl⟩
        | boolean => exact ⟨.boolean, rfl⟩
        | _ => cases isType
    | identifier name => exact ⟨.named name, rfl⟩
    | _ => cases isType
  · rintro ⟨type, rfl⟩
    cases type <;> exact ⟨_, rfl, rfl⟩

instance : Productive types := productive_of_mem (mem_types.mpr ⟨.int, rfl⟩)

theorem mem_types_mul {L : Language Lexeme} {w : List Lexeme} :
    w ∈ types * L ↔ ∃ type : TypeName, ∃ v ∈ L, w = type.lexeme :: v := by
  simp only [Language.mem_mul, mem_types]
  constructor
  · rintro ⟨_, ⟨type, rfl⟩, v, member, rfl⟩
    exact ⟨type, v, member, rfl⟩
  · rintro ⟨type, v, member, rfl⟩
    exact ⟨_, ⟨type, rfl⟩, v, member, rfl⟩

theorem moreNames_eq :
    languageOf (List.flatMap nameBehind) = (ofKind (.symbol .comma) * ofKind .identifier)∗ := by
  rw [languageOf_flatMap]
  congr 1
  apply Language.ext
  intro w
  simp only [mem_symbol_mul, mem_identifier]
  constructor
  · rintro ⟨name, rfl⟩
    exact ⟨_, ⟨name, rfl⟩, rfl⟩
  · rintro ⟨_, ⟨name, rfl⟩, rfl⟩
    exact ⟨name, rfl⟩

/-- A group is a type, names with commas between them, and a semicolon. -/
theorem variableGroups_eq : languageOf VariableGroup.lexemes = variableGroups := by
  rw [variableGroups, separated, ← moreNames_eq]
  apply Language.ext
  intro w
  simp only [mul_assoc, mem_types_mul, mem_identifier_mul, mem_languageOf_mul, mem_symbol]
  constructor
  · rintro ⟨⟨type, first, more⟩, rfl⟩
    exact ⟨type, _, ⟨first, _, ⟨more, _, rfl, rfl⟩, rfl⟩, rfl⟩
  · rintro ⟨type, _, ⟨first, _, ⟨more, _, rfl, rfl⟩, rfl⟩, rfl⟩
    exact ⟨⟨type, first, more⟩, rfl⟩

/-- The top of a class is a repetition of declarations. -/
theorem classVariables_eq :
    languageOf (List.flatMap ClassVariables.lexemes) = classVariableGroups∗ := by
  rw [languageOf_flatMap]
  congr 1
  apply Language.ext
  intro w
  rw [classVariableGroups, ← variableGroups_eq]
  constructor
  · rintro ⟨v, rfl⟩
    cases v with
    | static group => exact cons_mem_single_mul.mpr ⟨rfl, group, rfl⟩
    | field group => exact cons_mem_single_mul.mpr ⟨rfl, group, rfl⟩
  · intro member
    rcases Language.mem_mul.mp member with ⟨_, ⟨l, starts, rfl⟩, _, ⟨group, rfl⟩, rfl⟩
    simp only [TokenKind.startsClassVariables, Bool.or_eq_true, decide_eq_true_eq] at starts
    rcases starts with static | field
    · exact ⟨.static group, by rw [Lexeme.kind_eq_keyword.mp static]; rfl⟩
    · exact ⟨.field group, by rw [Lexeme.kind_eq_keyword.mp field]; rfl⟩

theorem localVariables_eq :
    languageOf (List.flatMap VariableGroup.localLexemes) = localVariableGroups∗ := by
  rw [languageOf_flatMap]
  congr 1
  apply Language.ext
  intro w
  rw [localVariableGroups, ← variableGroups_eq, mem_keyword_mul]
  constructor
  · rintro ⟨group, rfl⟩
    exact ⟨_, ⟨group, rfl⟩, rfl⟩
  · rintro ⟨_, ⟨group, rfl⟩, rfl⟩
    exact ⟨group, rfl⟩

theorem parameters_eq : languageOf Parameter.lexemes = typedNames := by
  apply Language.ext
  intro w
  simp only [mem_types_mul, mem_identifier]
  constructor
  · rintro ⟨⟨type, name⟩, rfl⟩
    exact ⟨type, _, ⟨name, rfl⟩, rfl⟩
  · rintro ⟨type, _, ⟨name, rfl⟩, rfl⟩
    exact ⟨⟨type, name⟩, rfl⟩

theorem moreParameters_eq :
    languageOf (List.flatMap Parameter.behind) = (ofKind (.symbol .comma) * typedNames)∗ := by
  rw [languageOf_flatMap, ← parameters_eq]
  congr 1
  apply Language.ext
  intro w
  rw [mem_symbol_mul]
  constructor
  · rintro ⟨parameter, rfl⟩
    exact ⟨_, ⟨parameter, rfl⟩, rfl⟩
  · rintro ⟨_, ⟨parameter, rfl⟩, rfl⟩
    exact ⟨parameter, rfl⟩

/-- Parameters are none or several with commas between them. -/
theorem parameterLists_eq :
    languageOf parameterLexemes = 1 + separated (.symbol .comma) typedNames := by
  rw [separated, ← moreParameters_eq, ← parameters_eq]
  apply Language.ext
  intro w
  rw [Language.mem_add, Language.mem_one, mem_languageOf_mul]
  constructor
  · rintro ⟨listed, rfl⟩
    cases listed with
    | nil => exact .inl rfl
    | cons first rest => exact .inr ⟨first, _, ⟨rest, rfl⟩, rfl⟩
  · rintro (rfl | ⟨first, _, ⟨rest, rfl⟩, rfl⟩)
    · exact ⟨[], rfl⟩
    · exact ⟨first :: rest, rfl⟩

/-! ## Subroutines and classes -/

/-- All result types, `void` included. -/
abbrev results : Language Lexeme := types + ofKind (.keyword .void)

/-- All bodies of subroutines. -/
abbrev bodies : Language Lexeme :=
  ofKind (.symbol .leftBrace) *
    (localVariableGroups∗ * (statementLists * ofKind (.symbol .rightBrace)))

/-- A subroutine behind its first word. -/
abbrev subroutineRests : Language Lexeme :=
  results * (ofKind .identifier * (ofKind (.symbol .leftParen) *
    ((1 + separated (.symbol .comma) typedNames) * (ofKind (.symbol .rightParen) * bodies))))

/-- The subroutines of one form. -/
abbrev subroutineForms (kind : SubroutineKind) : Language Lexeme :=
  ofKind (.keyword kind.word) * subroutineRests

/-- The classes, with the end of file behind them. -/
abbrev classes : Language Lexeme :=
  ofKind (.keyword .«class») * (ofKind .identifier * (ofKind (.symbol .leftBrace) *
    (classVariableGroups∗ * ((⨆ kind, subroutineForms kind)∗ *
      (ofKind (.symbol .rightBrace) * ofKind .endOfFile)))))

theorem mem_results_mul {L : Language Lexeme} {w : List Lexeme} :
    w ∈ results * L ↔ ∃ result : Option TypeName, ∃ v ∈ L, w = resultLexeme result :: v := by
  rw [results, add_mul, Language.mem_add, mem_types_mul, mem_keyword_mul]
  constructor
  · rintro (⟨type, v, member, rfl⟩ | ⟨v, member, rfl⟩)
    · exact ⟨some type, v, member, rfl⟩
    · exact ⟨none, v, member, rfl⟩
  · rintro ⟨result, v, member, rfl⟩
    cases result with
    | none => exact .inr ⟨v, member, rfl⟩
    | some type => exact .inl ⟨type, v, member, rfl⟩

/-- A body is what its trees write: declarations and statements between braces. -/
theorem bodies_eq : bodies = ofKind (.symbol .leftBrace) *
    (languageOf (List.flatMap VariableGroup.localLexemes) *
      (statementLists * ofKind (.symbol .rightBrace))) := by
  rw [bodies, localVariables_eq]

/-- Behind its first word, a subroutine has the parts of its tree. -/
theorem mem_subroutineRests {w : List Lexeme} :
    w ∈ subroutineRests ↔ ∃ (result : Option TypeName) (name : String)
      (parameters : List Parameter) (locals : List VariableGroup) (statements : Statements),
      w = resultLexeme result :: .identifier name :: .symbol .leftParen ::
        (parameterLexemes parameters ++ .symbol .rightParen :: .symbol .leftBrace ::
          (locals.flatMap VariableGroup.localLexemes ++
            (statements.lexemes ++ [.symbol .rightBrace]))) := by
  rw [subroutineRests, bodies_eq, ← parameterLists_eq]
  simp only [mem_results_mul, mem_identifier_mul, mem_symbol_mul, mem_languageOf_mul, mem_symbol]
  constructor
  · rintro ⟨result, _, ⟨name, _, ⟨_, ⟨parameters, _, ⟨_, ⟨_, ⟨locals, _, ⟨statements, _, rfl, rfl⟩,
      rfl⟩, rfl⟩, rfl⟩, rfl⟩, rfl⟩, rfl⟩, rfl⟩
    exact ⟨result, name, parameters, locals, statements, rfl⟩
  · rintro ⟨result, name, parameters, locals, statements, rfl⟩
    exact ⟨result, _, ⟨name, _, ⟨_, ⟨parameters, _, ⟨_, ⟨_, ⟨locals, _, ⟨statements, _, rfl, rfl⟩,
      rfl⟩, rfl⟩, rfl⟩, rfl⟩, rfl⟩, rfl⟩, rfl⟩

/-- Subroutines are a repetition, each with one of three first words. -/
theorem subroutines_eq :
    languageOf (List.flatMap Subroutine.lexemes) = (⨆ kind, subroutineForms kind)∗ := by
  rw [languageOf_flatMap]
  congr 1
  apply Language.ext
  intro w
  simp only [Language.mem_iSup, mem_keyword_mul, mem_subroutineRests]
  constructor
  · rintro ⟨⟨kind, result, name, parameters, locals, statements⟩, rfl⟩
    exact ⟨kind, _, ⟨result, name, parameters, locals, statements, rfl⟩, rfl⟩
  · rintro ⟨kind, _, ⟨result, name, parameters, locals, statements, rfl⟩, rfl⟩
    exact ⟨⟨kind, result, name, parameters, locals, statements⟩, rfl⟩

/-- The first word of a subroutine tells its form. -/
theorem selects_subroutineForms : Selects TokenKind.subroutineKind? subroutineForms :=
  selects_ofKind_mul _ TokenKind.subroutineKind?_word

/-- The language of classes is what the function for a class asks for, one part behind the other.
So a compilation that reads these parts reads a class and nothing else. -/
theorem classes_eq : languageOf ClassTree.lexemes = classes := by
  rw [classes, ← classVariables_eq, ← subroutines_eq]
  apply Language.ext
  intro w
  simp only [mem_keyword_mul, mem_identifier_mul, mem_symbol_mul, mem_languageOf_mul, mem_ofKind]
  constructor
  · rintro ⟨⟨name, members, subroutines⟩, rfl⟩
    exact ⟨_, ⟨name, _, ⟨_, ⟨members, _, ⟨subroutines, _, ⟨_, ⟨_, rfl, rfl⟩, rfl⟩, rfl⟩, rfl⟩, rfl⟩,
      rfl⟩, rfl⟩
  · rintro ⟨_, ⟨name, _, ⟨_, ⟨members, _, ⟨subroutines, _, ⟨_, ⟨l, kind, rfl⟩, rfl⟩, rfl⟩, rfl⟩,
      rfl⟩, rfl⟩, rfl⟩
    exact ⟨⟨name, members, subroutines⟩, by rw [Lexeme.kind_eq_endOfFile.mp kind]; rfl⟩

end Grammar

end Jack
