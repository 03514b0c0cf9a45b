import Jack.Compiler.Class
import Jack.Proofs.Compiler.StatementSuccess
import Jack.Proofs.Stream.Items

namespace Jack

/-!
# Acceptable classes compile

In front of the lexemes of an acceptable class, compilation succeeds.  The symbol table holds the
declarations that have been read (`SymbolTable.Holds`); a prefix of declarations that can be made
can be made too, so no declaration is refused on the way.
-/

/-- The subroutines of a class are followed by its closing brace. -/
theorem begins_not_startsClassVariables (subroutines : List Subroutine) (rest : List Lexeme) :
    Begins (fun k => !k.startsClassVariables)
      (subroutines.flatMap Subroutine.lexemes ++ .symbol .rightBrace :: rest) :=
  (heads_not_startsClassVariables subroutines rest).begins
    (List.append_ne_nil_of_right_ne_nil _ (List.cons_ne_nil _ _))

/-- The declarations of local variables are followed by the statements or the closing brace. -/
theorem Statements.begins_not_var (statements : Statements) (rest : List Lexeme) :
    Begins (fun k => !decide (k = .keyword .var))
      (statements.lexemes ++ .symbol .rightBrace :: rest) :=
  (statements.heads_not_var rest).begins
    (List.append_ne_nil_of_right_ne_nil _ (List.cons_ne_nil _ _))

namespace Step

variable {options : Options} {p : Progress} {symbols : SymbolTable} {ds : Declarations}
  {rest : List Lexeme} {s : TokenStream} {bound : Nat}

/-! ## Declarations -/

theorem succeeds_record {e : Event} (front : p.InFront symbols rest s) :
    (record e).Succeeds p fun _ q => q.InFront symbols rest s :=
  ⟨front.symbols, front.reads, front.spelled⟩

/-- Where there is room, a name is declared. -/
theorem exists_define {d : Declaration} (front : p.InFront symbols rest s)
    (holds : symbols.Holds ds) (room : countKind d.kind (ds.scope d.kind) ≠ 65535) :
    ∃ q symbols', define d.name d.type d.kind p = .ok (latest? (ds.scope d.kind) d.name) q ∧
      symbols'.Holds (ds.extend d.kind [d]) ∧ q.InFront symbols' rest s := by
  rw [← front.symbols] at holds
  rcases holds.define d room with ⟨t, defined, holds'⟩
  refine ⟨{ p with symbols := t }, t, ?_, holds', front.unread rfl⟩
  simp only [define, defined]

/-- A declaration can be made if one more name is declarable.  The table then holds it behind the
others. -/
theorem succeeds_declare {name : Token} {text type : String} (kind : SymbolKind)
    (sameName : name.text = text) (front : p.InFront symbols rest s) (holds : symbols.Holds ds)
    (declarable : Declarable options (ds.scope kind ++ [⟨text, type, kind⟩])) :
    (declare options name type kind).Succeeds p fun _ q =>
      ∃ symbols', symbols'.Holds (ds.extend kind [⟨text, type, kind⟩]) ∧
        q.InFront symbols' rest s := by
  subst sameName
  rcases declarable_append_singleton.mp declarable with ⟨-, room, new⟩
  rcases exists_define (d := ⟨name.text, type, kind⟩) front holds room with
    ⟨q, symbols', defined, holds', front⟩
  have located : (locate name.start (define name.text type kind)).Succeeds p fun previous r =>
      previous = latest? (ds.scope kind) name.text ∧ r = q :=
    .of_ok (locate_eq_ok.mpr defined) ⟨rfl, rfl⟩
  apply located.bind
  rintro previous _ ⟨found, rfl⟩
  cases previous with
  | none => exact succeeds_pure ⟨symbols', holds', front⟩
  | some previous =>
      have lenient : ¬ options.strictDeclarations = true := by
        intro strict
        rw [new strict] at found
        cases found
      dsimp only
      rw [if_neg lenient]
      apply (succeeds_record front).mono
      intro _ q front
      exact ⟨symbols', holds', front⟩

/-- A type is one of the three words or the name of any class; that the class exists is not asked.
-/
theorem succeeds_typeName (type : TypeName)
    (front : p.InFront symbols (type.lexeme :: rest) s) :
    typeName.Succeeds p fun text q => text = type.text ∧ q.InFront symbols rest s := by
  rcases front.current with ⟨t, current, -, same, -⟩
  have kind := Token.kind_of_lexeme_eq same
  have isType : t.kind.isType = true := by
    rw [kind]
    cases type <;> rfl
  have text : t.text = type.text := by
    cases type with
    | named className => exact Token.text_of_lexeme_eq_identifier same
    | _ => exact (front.spelled t current).keyword _ kind
  apply succeeds_peek_bind current
  rw [if_pos isType]
  apply (succeeds_skip front).bind
  intro _ q front
  exact succeeds_pure ⟨text, front⟩

/-- The names of a group are declared one behind the other, all of the same kind and type. -/
theorem succeeds_names {type : String} {kind : SymbolKind} (first : String) (more : List String)
    (bound : Nat)
    (front : p.InFront symbols
      (.identifier first :: (more.flatMap nameBehind ++ .symbol .semicolon :: rest)) s)
    (holds : symbols.Holds ds)
    (declarable : Declarable options (ds.scope kind ++ (first :: more).map (⟨·, type, kind⟩))) :
    (names options type kind bound).Succeeds p fun _ q =>
      ∃ symbols', symbols'.Holds (ds.extend kind ((first :: more).map (⟨·, type, kind⟩))) ∧
        q.InFront symbols' (.symbol .semicolon :: rest) s := by
  induction more generalizing p symbols ds first bound with
  | nil =>
      cases bound with
      | zero => exact succeeds_exhausted
      | succ bound =>
          apply (succeeds_consume_identifier front).bind
          rintro name p₁ ⟨sameName, front⟩
          apply (succeeds_declare kind sameName front holds declarable).bind
          rintro _ p₂ ⟨symbols', holds', front⟩
          apply (succeeds_accept_other front (begins_cons.mpr rfl)).bind
          rintro _ p₃ ⟨rfl, front⟩
          exact succeeds_pure ⟨symbols', holds', front⟩
  | cons second more inductionHypothesis =>
      cases bound with
      | zero => exact succeeds_exhausted
      | succ bound =>
          apply (succeeds_consume_identifier front).bind
          rintro name p₁ ⟨sameName, front⟩
          rw [List.map_cons, List.append_cons] at declarable
          apply (succeeds_declare kind sameName front holds declarable.of_append).bind
          rintro _ p₂ ⟨symbols', holds', front⟩
          apply (succeeds_accept front rfl).bind
          rintro _ p₃ ⟨rfl, front⟩
          rw [if_pos rfl]
          rw [← Declarations.scope_extend_self] at declarable
          apply (inductionHypothesis second bound front holds' declarable).mono
          rintro _ q ⟨symbols'', holds'', front⟩
          rw [Declarations.extend_extend] at holds''
          exact ⟨symbols'', holds'', front⟩

/-- A group is read up to its semicolon. -/
theorem succeeds_declaration (g : VariableGroup) (kind : SymbolKind) (bound : Nat)
    (front : p.InFront symbols (g.lexemes ++ rest) s) (holds : symbols.Holds ds)
    (declarable : Declarable options (ds.scope kind ++ g.declarations kind)) :
    (declaration options kind bound).Succeeds p fun _ q =>
      ∃ symbols', symbols'.Holds (ds.extend kind (g.declarations kind)) ∧
        q.InFront symbols' rest s := by
  simp only [VariableGroup.lexemes, List.cons_append, List.append_assoc, List.nil_append] at front
  apply (succeeds_typeName g.type front).bind
  rintro type p₁ ⟨rfl, front⟩
  apply (succeeds_names g.first g.more bound front holds declarable).bind
  rintro _ p₂ ⟨symbols', holds', front⟩
  apply (succeeds_symbol front).mono
  intro _ q front
  exact ⟨symbols', holds', front⟩

/-- All groups at the top of a class are declared.  Behind them, no word may follow that starts
another group. -/
theorem succeeds_classVariables (members : List ClassVariables) (bound : Nat)
    (front : p.InFront symbols (members.flatMap ClassVariables.lexemes ++ rest) s)
    (holds : symbols.Holds ds)
    (declarable : Declarable options
      (ds.ofClass ++ members.flatMap ClassVariables.declarations))
    (last : Begins (fun k => !k.startsClassVariables) rest) :
    (classVariables options bound).Succeeds p fun _ q =>
      ∃ symbols', symbols'.Holds
          { ds with ofClass := ds.ofClass ++ members.flatMap ClassVariables.declarations } ∧
        q.InFront symbols' rest s := by
  induction members generalizing p symbols ds bound with
  | nil =>
      cases bound with
      | zero => exact succeeds_exhausted
      | succ bound =>
          rcases last with ⟨l, more, rfl, other⟩
          rcases front.current with ⟨t, current, -, same, -⟩
          rw [classVariables]
          apply succeeds_peek_bind current
          rw [Token.kind_of_lexeme_eq same]
          rw [List.flatMap_nil, List.append_nil]
          generalize l.kind = k at other
          split
          · cases other
          · cases other
          · exact succeeds_pure ⟨symbols, holds, front⟩
  | cons v members inductionHypothesis =>
      cases bound with
      | zero => exact succeeds_exhausted
      | succ bound =>
          rw [List.flatMap_cons, ← List.append_assoc] at declarable
          -- Both words are followed by the same steps; they differ in the kind alone.
          have group {l : Lexeme} {kind : SymbolKind} {g : VariableGroup}
              (scope : kind.isClassScope = true) (own : g.declarations kind = v.declarations)
              (front : p.InFront symbols
                (l :: (g.lexemes ++ (members.flatMap ClassVariables.lexemes ++ rest))) s) :
              (do
                skip
                declaration options kind bound
                classVariables options bound : Step Unit).Succeeds p fun _ q =>
                ∃ symbols', symbols'.Holds { ds with
                    ofClass := ds.ofClass ++
                      (v :: members).flatMap ClassVariables.declarations } ∧
                  q.InFront symbols' rest s := by
            have inScope : ds.scope kind = ds.ofClass := by
              rw [Declarations.scope, if_pos scope]
            rw [← own, ← inScope] at declarable
            apply (succeeds_skip front).bind
            intro _ p₁ front
            apply (succeeds_declaration g _ bound front holds declarable.of_append).bind
            rintro _ p₂ ⟨symbols', holds', front⟩
            rw [Declarations.extend, if_pos scope] at holds'
            rw [inScope] at declarable
            apply (inductionHypothesis bound front holds' declarable).mono
            rintro _ q ⟨symbols'', holds'', front⟩
            rw [List.flatMap_cons, ← own, ← List.append_assoc]
            exact ⟨symbols'', holds'', front⟩
          rw [List.flatMap_cons, List.append_assoc] at front
          cases v with
          | static g =>
              rw [ClassVariables.lexemes, List.cons_append] at front
              rcases front.current with ⟨t, current, -, same, -⟩
              rw [classVariables]
              apply succeeds_peek_bind current
              rw [Token.kind_of_lexeme_eq same]
              exact group rfl rfl front
          | field g =>
              rw [ClassVariables.lexemes, List.cons_append] at front
              rcases front.current with ⟨t, current, -, same, -⟩
              rw [classVariables]
              apply succeeds_peek_bind current
              rw [Token.kind_of_lexeme_eq same]
              exact group rfl rfl front

/-- All groups at the top of a body are declared.  Behind them, the word `var` may not follow. -/
theorem succeeds_localVariables (groups : List VariableGroup) (bound : Nat)
    (front : p.InFront symbols (groups.flatMap VariableGroup.localLexemes ++ rest) s)
    (holds : symbols.Holds ds)
    (declarable : Declarable options
      (ds.ofSubroutine ++ groups.flatMap (·.declarations .«local»)))
    (last : Begins (fun k => !decide (k = .keyword .var)) rest) :
    (localVariables options bound).Succeeds p fun _ q =>
      ∃ symbols', symbols'.Holds (ds.extend .«local» (groups.flatMap (·.declarations .«local»))) ∧
        q.InFront symbols' rest s := by
  induction groups generalizing p symbols ds bound with
  | nil =>
      cases bound with
      | zero => exact succeeds_exhausted
      | succ bound =>
          rcases last with ⟨l, more, rfl, other⟩
          rcases front.current with ⟨t, current, -, same, -⟩
          have notVar : t.kind ≠ .keyword .var := by
            intro isVar
            rw [← Token.kind_of_lexeme_eq same, isVar] at other
            cases other
          apply succeeds_peek_bind current
          rw [if_neg notVar]
          exact succeeds_pure ⟨symbols, (ds.extend_nil .«local»).symm ▸ holds, front⟩
  | cons g groups inductionHypothesis =>
      cases bound with
      | zero => exact succeeds_exhausted
      | succ bound =>
          rw [List.flatMap_cons, VariableGroup.localLexemes, List.append_assoc,
            List.cons_append] at front
          rw [List.flatMap_cons, ← List.append_assoc] at declarable
          rcases front.current with ⟨t, current, -, same, -⟩
          have isVar : t.kind = .keyword .var := Token.kind_of_lexeme_eq same
          apply succeeds_peek_bind current
          rw [if_pos isVar]
          apply (succeeds_skip front).bind
          intro _ p₁ front
          apply (succeeds_declaration g .«local» bound front holds
            declarable.of_append).bind
          rintro _ p₂ ⟨symbols', holds', front⟩
          apply (inductionHypothesis bound front holds' declarable).mono
          rintro _ q ⟨symbols'', holds'', front⟩
          rw [Declarations.extend_extend] at holds''
          exact ⟨symbols'', holds'', front⟩

/-- Parameters are declared one behind the other. -/
theorem succeeds_parametersBehind (first : Parameter) (more : List Parameter) (bound : Nat)
    (front : p.InFront symbols
      (parameterLexemes (first :: more) ++ .symbol .rightParen :: rest) s)
    (holds : symbols.Holds ds)
    (declarable : Declarable options
      (ds.ofSubroutine ++ (first :: more).map Parameter.declaration)) :
    (parametersBehind options bound).Succeeds p fun _ q =>
      ∃ symbols', symbols'.Holds
          (ds.extend .argument ((first :: more).map Parameter.declaration)) ∧
        q.InFront symbols' (.symbol .rightParen :: rest) s := by
  induction more generalizing p symbols ds first bound with
  | nil =>
      cases bound with
      | zero => exact succeeds_exhausted
      | succ bound =>
          apply (succeeds_typeName first.type front).bind
          rintro type p₁ ⟨rfl, front⟩
          apply (succeeds_consume_identifier front).bind
          rintro name p₂ ⟨sameName, front⟩
          apply (succeeds_declare .argument sameName front holds declarable).bind
          rintro _ p₃ ⟨symbols', holds', front⟩
          apply (succeeds_accept_other front (begins_cons.mpr rfl)).bind
          rintro _ p₄ ⟨rfl, front⟩
          exact succeeds_pure ⟨symbols', holds', front⟩
  | cons second more inductionHypothesis =>
      cases bound with
      | zero => exact succeeds_exhausted
      | succ bound =>
          rw [List.map_cons, List.append_cons] at declarable
          apply (succeeds_typeName first.type front).bind
          rintro type p₁ ⟨rfl, front⟩
          apply (succeeds_consume_identifier front).bind
          rintro name p₂ ⟨sameName, front⟩
          apply (succeeds_declare .argument sameName front holds
            declarable.of_append).bind
          rintro _ p₃ ⟨symbols', holds', front⟩
          apply (succeeds_accept front rfl).bind
          rintro _ p₄ ⟨rfl, front⟩
          rw [if_pos rfl]
          apply (inductionHypothesis second bound front holds' declarable).mono
          rintro _ q ⟨symbols'', holds'', front⟩
          rw [Declarations.extend_extend] at holds''
          exact ⟨symbols'', holds'', front⟩

/-- There may be no parameters at all. -/
theorem succeeds_parameters (list : List Parameter) (bound : Nat)
    (front : p.InFront symbols (parameterLexemes list ++ .symbol .rightParen :: rest) s)
    (holds : symbols.Holds ds)
    (declarable : Declarable options (ds.ofSubroutine ++ list.map Parameter.declaration)) :
    (parameters options bound).Succeeds p fun _ q =>
      ∃ symbols', symbols'.Holds (ds.extend .argument (list.map Parameter.declaration)) ∧
        q.InFront symbols' (.symbol .rightParen :: rest) s := by
  cases list with
  | nil =>
      rcases front.current with ⟨t, current, -, same, -⟩
      have closed : t.kind = .symbol .rightParen := Token.kind_of_lexeme_eq same
      apply succeeds_peek_bind current
      rw [if_neg (not_not_intro closed)]
      exact succeeds_pure ⟨symbols, (ds.extend_nil .argument).symm ▸ holds, front⟩
  | cons first more =>
      rcases front.current with ⟨t, current, -, same, -⟩
      have notClosed : t.kind ≠ .symbol .rightParen := by
        rw [Token.kind_of_lexeme_eq same]
        cases first.type <;> simp only [TypeName.lexeme, Lexeme.kind, ne_eq, reduceCtorEq,
          not_false_eq_true]
      apply succeeds_peek_bind current
      rw [if_pos notClosed]
      exact succeeds_parametersBehind first more bound front holds declarable

/-! ## Subroutines -/

/-- Every result type is read, and `void`. -/
theorem succeeds_resultType (result : Option TypeName)
    (front : p.InFront symbols (resultLexeme result :: rest) s) :
    resultType.Succeeds p fun _ q => q.InFront symbols rest s := by
  cases result with
  | none =>
      apply (succeeds_accept front rfl).bind
      rintro _ p₁ ⟨rfl, front⟩
      exact succeeds_pure front
  | some type =>
      have notVoid : Begins (fun k => k ≠ .keyword .void) (type.lexeme :: rest) := by
        cases type <;> exact begins_cons.mpr rfl
      apply (succeeds_accept_other front notVoid).bind
      rintro _ p₁ ⟨rfl, front⟩
      apply (succeeds_typeName type front).bind
      rintro text p₂ ⟨-, front⟩
      exact succeeds_pure front

theorem succeeds_startSubroutine (front : p.InFront symbols rest s) (holds : symbols.Holds ds) :
    startSubroutine.Succeeds p fun _ q =>
      ∃ symbols', symbols'.Holds ds.startSubroutine ∧ q.InFront symbols' rest s := by
  rw [← front.symbols] at holds
  exact ⟨_, holds.startSubroutine, front.unread rfl⟩

/-- The object of a method is declared first, under a name that no other declaration can have. -/
theorem succeeds_receiver {ofClass : List Declaration} (kind : SubroutineKind)
    (className : String) (front : p.InFront symbols rest s)
    (holds : symbols.Holds ⟨ofClass, []⟩) :
    (receiver kind className).Succeeds p fun _ q =>
      ∃ symbols', symbols'.Holds ⟨ofClass, receiverDeclarations className kind⟩ ∧
        q.InFront symbols' rest s := by
  cases kind with
  | method =>
      have room : countKind .argument [] ≠ 65535 := by decide
      rcases exists_define (d := ⟨Code.receiver, className, .argument⟩) front holds room with
        ⟨q, symbols', defined, described⟩
      have succeeds : (define Code.receiver className .argument).Succeeds p fun _ r => r = q :=
        .of_ok defined rfl
      apply succeeds.bind
      rintro previous _ rfl
      exact succeeds_pure ⟨symbols', described⟩
  | constructor => exact succeeds_pure ⟨symbols, holds, front⟩
  | function => exact succeeds_pure ⟨symbols, holds, front⟩

theorem succeeds_count (kind : SymbolKind) (front : p.InFront symbols rest s) :
    (count kind).Succeeds p fun _ q => q.InFront symbols rest s := front

/-- The body of a subroutine is read to its closing brace.  Both its declarations and its statements
have to be acceptable behind what has been declared so far. -/
theorem succeeds_body {ofClass before : List Declaration} {className name : String}
    {kind : SubroutineKind} {isVoid : Bool} (groups : List VariableGroup) (ss : Statements)
    (bound : Nat)
    (front : p.InFront symbols (.symbol .leftBrace ::
      (groups.flatMap VariableGroup.localLexemes ++
        (ss.lexemes ++ .symbol .rightBrace :: rest))) s)
    (holds : symbols.Holds ⟨ofClass, before⟩)
    (declarable : Declarable options (before ++ groups.flatMap (·.declarations .«local»)))
    (acceptable : ss.Acceptable
      (Declarations.mk ofClass (before ++ groups.flatMap (·.declarations .«local»))).symbol?) :
    (body options className kind name isVoid bound).Succeeds p fun _ q =>
      ∃ (symbols' : SymbolTable) (inner : List Declaration), symbols'.Holds ⟨ofClass, inner⟩ ∧
        q.InFront symbols' rest s := by
  apply (succeeds_symbol front).bind
  intro _ p₁ front
  apply (succeeds_localVariables groups bound front holds declarable
    (ss.begins_not_var rest)).bind
  rintro _ p₂ ⟨symbols', holds', front⟩
  replace holds' : symbols'.Holds
    ⟨ofClass, before ++ groups.flatMap (·.declarations .«local»)⟩ := holds'
  rw [← holds'.get?_eq] at acceptable
  apply (succeeds_count .«local» front).bind
  intro locals p₃ front
  apply (succeeds_count .field front).bind
  intro fields p₄ front
  apply (succeeds_emit front).bind
  intro _ p₅ front
  apply (succeeds_freshLabel front).bind
  intro id p₆ front
  apply (ss.succeeds acceptable bound false false front).bind
  intro jumps p₇ front
  apply (succeeds_symbol front).bind
  intro _ p₈ front
  apply (succeeds_emit front).bind
  intro _ p₉ front
  apply (succeeds_record front).mono
  intro _ q front
  exact ⟨symbols', _, holds', front⟩

/-- An acceptable subroutine is read to its end.  Behind it, the table still holds the declarations
of the class, and those of the subroutine are of no use any more. -/
theorem succeeds_subroutine (c : ClassTree) (sub : Subroutine)
    (acceptable : sub.Acceptable options c) (bound : Nat)
    (front : p.InFront symbols (sub.lexemes ++ rest) s) (holds : symbols.Holds ds)
    (ofClass : ds.ofClass = c.declarations) :
    (subroutine options c.name sub.kind bound).Succeeds p fun _ q =>
      ∃ (symbols' : SymbolTable) (inner : List Declaration),
        symbols'.Holds ⟨c.declarations, inner⟩ ∧ q.InFront symbols' rest s := by
  rcases acceptable with ⟨declarable, acceptable⟩
  rw [Subroutine.declarations] at declarable
  simp only [Subroutine.lexemes, List.cons_append, List.append_assoc, List.nil_append] at front
  apply (succeeds_skip front).bind
  intro _ p₁ front
  apply (succeeds_resultType sub.result front).bind
  intro isVoid p₂ front
  apply (succeeds_consume_identifier front).bind
  rintro name p₃ ⟨-, front⟩
  apply (succeeds_record front).bind
  intro _ p₄ front
  apply (succeeds_startSubroutine front holds).bind
  rintro _ p₅ ⟨symbols₁, holds, front⟩
  rw [Declarations.startSubroutine, ofClass] at holds
  apply (succeeds_receiver sub.kind c.name front holds).bind
  rintro _ p₆ ⟨symbols₂, holds, front⟩
  apply (succeeds_symbol front).bind
  intro _ p₇ front
  apply (succeeds_parameters sub.parameters bound front holds declarable.of_append).bind
  rintro _ p₈ ⟨symbols₃, holds, front⟩
  apply (succeeds_symbol front).bind
  intro _ p₉ front
  exact succeeds_body sub.locals sub.statements bound front holds declarable acceptable

/-- Subroutines are read one behind the other up to the closing brace of the class. -/
theorem succeeds_subroutines (c : ClassTree) (list : List Subroutine)
    (acceptable : ∀ sub ∈ list, sub.Acceptable options c) (bound : Nat)
    (front : p.InFront symbols
      (list.flatMap Subroutine.lexemes ++ .symbol .rightBrace :: rest) s)
    (holds : symbols.Holds ds) (ofClass : ds.ofClass = c.declarations) :
    (subroutines options c.name bound).Succeeds p fun _ q =>
      ∃ symbols', q.InFront symbols' (.symbol .rightBrace :: rest) s := by
  induction list generalizing p symbols ds bound with
  | nil =>
      cases bound with
      | zero => exact succeeds_exhausted
      | succ bound =>
          rcases front.current with ⟨t, current, -, same, -⟩
          rw [subroutines]
          apply succeeds_peek_bind current
          rw [Token.kind_of_lexeme_eq same]
          exact succeeds_pure ⟨symbols, front⟩
  | cons sub list inductionHypothesis =>
      cases bound with
      | zero => exact succeeds_exhausted
      | succ bound =>
          rcases List.forall_mem_cons.mp acceptable with ⟨acceptableFirst, acceptableRest⟩
          rw [List.flatMap_cons, List.append_assoc] at front
          rcases front.current with ⟨t, current, -, same, -⟩
          have start : t.kind.subroutineKind? = some sub.kind := by
            rw [Token.kind_of_lexeme_eq same]
            exact TokenKind.subroutineKind?_word sub.kind
          rw [subroutines]
          apply succeeds_peek_bind current
          rw [start]
          apply (succeeds_subroutine c sub acceptableFirst bound front holds ofClass).bind
          rintro _ p₁ ⟨symbols', inner, holds', front⟩
          exact inductionHypothesis acceptableRest bound front holds' rfl

/-! ## The whole class -/

/-- The source of an acceptable class is not refused. -/
theorem succeeds_wholeClass {source : List Char} (c : ClassTree) (lexes : Lexes source c.lexemes)
    (acceptable : c.Acceptable options) (bound : Nat) :
    (wholeClass options bound).Succeeds (Progress.ofSource source) fun _ _ => True := by
  rw [ClassTree.lexemes_eq_ownLexemes] at lexes
  rcases lexes_iff_reads.mp lexes with ⟨s, reads, t, current, last⟩
  rcases acceptable with ⟨declarable, acceptable⟩
  have front : (Progress.ofSource source).InFront .empty c.ownLexemes s :=
    ⟨rfl, reads, TokenStream.spelled_ofSource source⟩
  apply (succeeds_consume front rfl).bind
  rintro _ p₁ ⟨-, front⟩
  apply (succeeds_consume_identifier front).bind
  rintro name p₂ ⟨sameName, front⟩
  rw [sameName]
  apply (succeeds_symbol front).bind
  intro _ p₃ front
  apply (succeeds_classVariables c.members bound front SymbolTable.holds_empty declarable
    (begins_not_startsClassVariables c.subroutines [])).bind
  rintro _ p₄ ⟨symbols', holds, front⟩
  apply (succeeds_subroutines c c.subroutines acceptable bound front holds rfl).bind
  rintro _ p₅ ⟨symbols'', front⟩
  apply (succeeds_symbol front).bind
  intro _ p₆ front
  have stands : p₆.stream.current = .ok t := by rw [← front.reads.of_nil, current]
  have consumed : p₆.stream.consume .endOfFile = .ok (t, p₆.stream.advance) := by
    simp only [TokenStream.consume, TokenStream.consumeIf, stands, of_decide_eq_true last,
      List.mem_singleton, if_true]
  have ended : (consume .endOfFile).Succeeds p₆ fun _ _ => True :=
    Succeeds.of_ok (a := t) (q := { p₆ with stream := p₆.stream.advance })
      (by simp only [consume, consumed]) trivial
  apply ended.bind
  intro _ p₇ _
  exact trivial

end Step

end Jack
