import Jack.Compiler.Class
import Jack.Proofs.Compiler.StatementTree
import Jack.Proofs.Stream.Items

namespace Jack

open Progress

/-!
# Compiled classes have trees

Declarations change the symbol table, and some of them record an event.  So the progress of a class
is described part by part: `Progress.Passes` tells what has been read and emitted, and
`SymbolTable.Holds` which declarations the table stands for.

The final statement is `Step.wholeClass_ok`: a source that compiles is written by the tree of an
acceptable class, and the listing is the code of this tree.
-/

/-- One progress leads to another by reading lexemes, appending code and giving label numbers away,
whatever happens to its symbols and its events. -/
structure Progress.Passes (p : Progress) (lexemes : List Lexeme) (commands : List Command)
    (labels : Nat) (q : Progress) : Prop where
  reads : p.stream.Reads lexemes q.stream
  code : q.code = commands.foldl Array.push p.code
  labels : q.labels = p.labels + labels

namespace Progress

variable {p q r : Progress} {lexemes lexemes' : List Lexeme} {commands commands' : List Command}
  {n n' : Nat}

theorem Passes.refl (p : Progress) : p.Passes [] [] 0 p := ⟨.nil _, rfl, rfl⟩

/-- What goes through tokens without a change of the symbols also passes them. -/
theorem Goes.passes (goes : p.Goes lexemes commands n q) : p.Passes lexemes commands n q where
  reads := goes.1
  code := by rw [goes.2, moved]
  labels := goes.labels

theorem Passes.trans (first : p.Passes lexemes commands n q)
    (second : q.Passes lexemes' commands' n' r) :
    p.Passes (lexemes ++ lexemes') (commands ++ commands') (n + n') r where
  reads := first.reads.append second.reads
  code := by rw [second.code, first.code, List.foldl_append]
  labels := by rw [second.labels, first.labels, Nat.add_assoc]

theorem Passes.of_eq (passes : p.Passes lexemes commands n q) (sameLexemes : lexemes' = lexemes)
    (sameCode : commands' = commands) (sameLabels : n' = n) :
    p.Passes lexemes' commands' n' q := by
  rwa [sameLexemes, sameCode, sameLabels]

end Progress

namespace Step

variable {options : Options} {p q : Progress} {ds : Declarations} {u : Unit}

/-! ## Declarations -/

/-- Recording an event passes nothing and leaves the symbols alone. -/
theorem record_ok {e : Event} (run : record e p = .ok u q) :
    p.Passes [] [] 0 q ∧ q.symbols = p.symbols := by
  cases run
  exact ⟨⟨.nil _, rfl, rfl⟩, rfl⟩

/-- A declaration that is made has found a number of its kind, and tells the symbol before. -/
theorem define_ok {d : Declaration} {previous : Option Symbol} (holds : p.symbols.Holds ds)
    (run : define d.name d.type d.kind p = .ok previous q) :
    previous = latest? (ds.scope d.kind) d.name ∧ countKind d.kind (ds.scope d.kind) ≠ 65535 ∧
      p.Passes [] [] 0 q ∧ q.symbols.Holds (ds.extend d.kind [d]) := by
  unfold define at run
  by_cases full : countKind d.kind (ds.scope d.kind) = 65535
  · rw [holds.define_full d.name d.type full] at run
    cases run
  · rcases holds.define d full with ⟨t, defined, holds'⟩
    rw [defined] at run
    cases run
    exact ⟨rfl, full, ⟨.nil _, rfl, rfl⟩, holds'⟩

/-- A declaration that goes well extends what the table holds by the new name, and it was allowed to
be made. -/
theorem declare_ok {name : Token} {type : String} (kind : SymbolKind) (holds : p.symbols.Holds ds)
    (declarable : Declarable options (ds.scope kind))
    (run : declare options name type kind p = .ok u q) :
    p.Passes [] [] 0 q ∧ q.symbols.Holds (ds.extend kind [⟨name.text, type, kind⟩]) ∧
      Declarable options (ds.scope kind ++ [⟨name.text, type, kind⟩]) := by
  rcases bind_eq_ok.mp run with ⟨previous, p₁, defined, run⟩
  rcases define_ok (d := ⟨name.text, type, kind⟩) holds (locate_eq_ok.mp defined) with
    ⟨found, room, passes, holds'⟩
  cases previous with
  | none =>
      rcases pure_eq_ok.mp run with ⟨-, rfl⟩
      exact ⟨passes, holds',
        declarable_append_singleton.mpr ⟨declarable, room, fun _ => found.symm⟩⟩
  | some previous =>
      dsimp only at run
      split at run
      · cases run
      · rename_i lenient
        rcases record_ok run with ⟨passes', sameSymbols⟩
        exact ⟨passes.trans passes', sameSymbols ▸ holds',
          declarable_append_singleton.mpr ⟨declarable, room, fun strict => absurd strict lenient⟩⟩

/-- The name of a type is read, and symbols keep its word. -/
theorem typeName_ok {text : String} (spelled : p.stream.Spelled)
    (run : typeName p = .ok text q) :
    ∃ type : TypeName, text = type.text ∧ p.Goes [type.lexeme] [] 0 q := by
  rcases bind_eq_ok.mp run with ⟨t, p₁, looked, run⟩
  rcases peek_ok looked with ⟨current, rfl⟩
  cases isType : t.kind.isType with
  | false =>
      rw [isType, if_neg Bool.false_ne_true] at run
      exact absurd run unexpected_ne_ok
  | true =>
      rw [isType, if_pos rfl] at run
      rcases bind_eq_ok.mp run with ⟨_, p₂, skipped, run⟩
      rcases pure_eq_ok.mp run with ⟨rfl, rfl⟩
      have more := TokenKind.ne_endOfFile_of_isType isType
      have goes := skip_ok skipped current more
      have word := (spelled t current).keyword
      cases kind : t.kind with
      | keyword k =>
          rw [Token.lexeme_eq_keyword kind] at goes
          rw [kind] at isType
          cases k with
          | int => exact ⟨.int, word _ kind, goes⟩
          | char => exact ⟨.char, word _ kind, goes⟩
          | boolean => exact ⟨.boolean, word _ kind, goes⟩
          | _ => cases isType
      | identifier =>
          rw [Token.lexeme_eq_identifier kind] at goes
          exact ⟨.named t.text, rfl, goes⟩
      | _ =>
          rw [kind] at isType
          cases isType

/-- The names behind a type are declared in their order. -/
theorem names_ok {type : String} {kind : SymbolKind} {bound : Nat} (holds : p.symbols.Holds ds)
    (declarable : Declarable options (ds.scope kind))
    (run : names options type kind bound p = .ok u q) :
    ∃ (first : String) (more : List String),
      p.Passes (.identifier first :: more.flatMap nameBehind) [] 0 q ∧
        q.symbols.Holds (ds.extend kind ((first :: more).map (⟨·, type, kind⟩))) ∧
          Declarable options (ds.scope kind ++ (first :: more).map (⟨·, type, kind⟩)) := by
  induction bound generalizing p ds with
  | zero => cases run
  | succ bound inductionHypothesis =>
      rcases bind_eq_ok.mp run with ⟨name, p₁, readName, run⟩
      have goesName := consume_identifier_ok readName
      rcases bind_eq_ok.mp run with ⟨_, p₂, declared, run⟩
      have holdsThere : p₁.symbols.Holds ds := goesName.symbols ▸ holds
      rcases declare_ok kind holdsThere declarable declared with ⟨passes, holds', declarable'⟩
      have passesName := goesName.passes.trans passes
      rcases bind_eq_ok.mp run with ⟨comma, p₃, readComma, run⟩
      rcases accept_symbol_ok readComma with ⟨rfl, goesComma⟩ | ⟨rfl, rfl⟩
      · have passesComma := passesName.trans goesComma.passes
        have holdsComma := goesComma.symbols ▸ holds'
        rw [← Declarations.scope_extend_self] at declarable'
        rcases inductionHypothesis holdsComma declarable' run with
          ⟨second, more, passesMore, holdsMore, declarableMore⟩
        rw [Declarations.extend_extend] at holdsMore
        rw [Declarations.scope_extend_self, List.append_assoc] at declarableMore
        exact ⟨name.text, second :: more, passesComma.trans passesMore, holdsMore, declarableMore⟩
      · rcases pure_eq_ok.mp run with ⟨-, rfl⟩
        exact ⟨name.text, [], passesName, holds', declarable'⟩

/-- A group of variables is declared. -/
theorem declaration_ok (kind : SymbolKind) {bound : Nat} (spelled : p.stream.Spelled)
    (holds : p.symbols.Holds ds) (declarable : Declarable options (ds.scope kind))
    (run : declaration options kind bound p = .ok u q) :
    ∃ g : VariableGroup, p.Passes g.lexemes [] 0 q ∧
      q.symbols.Holds (ds.extend kind (g.declarations kind)) ∧
        Declarable options (ds.scope kind ++ g.declarations kind) := by
  rcases bind_eq_ok.mp run with ⟨text, p₁, readType, run⟩
  rcases typeName_ok spelled readType with ⟨type, rfl, goesType⟩
  rcases bind_eq_ok.mp run with ⟨_, p₂, readNames, readEnd⟩
  have holdsThere : p₁.symbols.Holds ds := goesType.symbols ▸ holds
  rcases names_ok holdsThere declarable readNames with ⟨first, more, passes, holds', declarable'⟩
  have goesEnd := symbol_ok readEnd
  have whole := (goesType.passes.trans passes).trans goesEnd.passes
  exact ⟨⟨type, first, more⟩, whole, goesEnd.symbols ▸ holds', declarable'⟩

theorem skip_keyword_ok {t : Token} {k : Keyword} (run : skip p = .ok u q)
    (current : p.stream.current = .ok t) (kind : t.kind = .keyword k) :
    p.Goes [.keyword k] [] 0 q := by
  have goes := skip_ok run current (by
    rw [kind]
    simp only [ne_eq, reduceCtorEq, not_false_eq_true])
  rwa [Token.lexeme_eq_keyword kind] at goes

/-- The declarations at the top of a class are read as long as there is a word for one, and they
emit no code. -/
theorem classVariables_ok {bound : Nat} (spelled : p.stream.Spelled) (holds : p.symbols.Holds ds)
    (declarable : Declarable options ds.ofClass) (run : classVariables options bound p = .ok u q) :
    ∃ members : List ClassVariables,
      p.Passes (members.flatMap ClassVariables.lexemes) [] 0 q ∧
        q.symbols.Holds
          { ds with ofClass := ds.ofClass ++ members.flatMap ClassVariables.declarations } ∧
            Declarable options
              (ds.ofClass ++ members.flatMap ClassVariables.declarations) := by
  induction bound generalizing p ds with
  | zero => cases run
  | succ bound inductionHypothesis =>
      rw [classVariables] at run
      rcases bind_eq_ok.mp run with ⟨t, p₁, looked, run⟩
      rcases peek_ok looked with ⟨current, rfl⟩
      -- Both words are followed by the same steps; they differ in the kind alone.
      have group {k : Keyword} {kind : SymbolKind} (word : t.kind = .keyword k)
          (scope : kind.isClassScope = true)
          (run : (do
            skip
            declaration options kind bound
            classVariables options bound) p = .ok u q) :
          ∃ (g : VariableGroup) (members : List ClassVariables),
            p.Passes (.keyword k :: (g.lexemes ++ members.flatMap ClassVariables.lexemes)) [] 0
                q ∧
              q.symbols.Holds { ds with
                ofClass := ds.ofClass ++
                  (g.declarations kind ++ members.flatMap ClassVariables.declarations) } ∧
                Declarable options (ds.ofClass ++
                  (g.declarations kind ++ members.flatMap ClassVariables.declarations)) := by
        rcases bind_eq_ok.mp run with ⟨_, p₂, skipped, run⟩
        have goesWord := skip_keyword_ok skipped current word
        rcases bind_eq_ok.mp run with ⟨_, p₃, declared, run⟩
        have own : ds.scope kind = ds.ofClass := by rw [Declarations.scope, if_pos scope]
        have holdsThere : p₂.symbols.Holds ds := goesWord.symbols ▸ holds
        rcases declaration_ok _ (goesWord.1.spelled spelled) holdsThere (own.symm ▸ declarable)
            declared with
          ⟨g, passes, holds', declarable'⟩
        rw [own] at declarable'
        rw [Declarations.extend, if_pos scope] at holds'
        have passesGroup := goesWord.passes.trans passes
        rcases inductionHypothesis (passesGroup.reads.spelled spelled) holds' declarable' run with
          ⟨members, passesMore, holdsMore, declarableMore⟩
        rw [List.append_assoc] at declarableMore holdsMore
        exact ⟨g, members, passesGroup.trans passesMore, holdsMore, declarableMore⟩
      generalize word : t.kind = kind at run
      split at run
      · rcases group word rfl run with ⟨g, members, passes, holds', declarable'⟩
        exact ⟨.static g :: members, passes, holds', declarable'⟩
      · rcases group word rfl run with ⟨g, members, passes, holds', declarable'⟩
        exact ⟨.field g :: members, passes, holds', declarable'⟩
      · rcases pure_eq_ok.mp run with ⟨-, rfl⟩
        refine ⟨[], Passes.refl _, ?_, ?_⟩
        · rwa [List.flatMap_nil, List.append_nil]
        · rwa [List.flatMap_nil, List.append_nil]

/-- The declarations at the top of a body are read as long as there is the word `var`, and they emit
no code. -/
theorem localVariables_ok {bound : Nat} (spelled : p.stream.Spelled)
    (holds : p.symbols.Holds ds) (declarable : Declarable options ds.ofSubroutine)
    (run : localVariables options bound p = .ok u q) :
    ∃ groups : List VariableGroup,
      p.Passes (groups.flatMap VariableGroup.localLexemes) [] 0 q ∧
        q.symbols.Holds (ds.extend .«local» (groups.flatMap (·.declarations .«local»))) ∧
          Declarable options
            (ds.ofSubroutine ++ groups.flatMap (·.declarations .«local»)) := by
  induction bound generalizing p ds with
  | zero => cases run
  | succ bound inductionHypothesis =>
      rcases bind_eq_ok.mp run with ⟨t, p₁, looked, run⟩
      rcases peek_ok looked with ⟨current, rfl⟩
      split at run
      · rename_i word
        rcases bind_eq_ok.mp run with ⟨_, p₂, skipped, run⟩
        have goesWord := skip_keyword_ok skipped current word
        rcases bind_eq_ok.mp run with ⟨_, p₃, declared, run⟩
        have holdsThere : p₂.symbols.Holds ds := goesWord.symbols ▸ holds
        rcases declaration_ok .«local» (goesWord.1.spelled spelled) holdsThere declarable
            declared with ⟨g, passes, holds', declarable'⟩
        have passesGroup := goesWord.passes.trans passes
        rcases inductionHypothesis (passesGroup.reads.spelled spelled) holds' declarable' run with
          ⟨groups, passesMore, holdsMore, declarableMore⟩
        rw [Declarations.extend_extend] at holdsMore
        refine ⟨g :: groups, passesGroup.trans passesMore, holdsMore, ?_⟩
        rw [List.flatMap_cons, ← List.append_assoc]
        exact declarableMore
      · rcases pure_eq_ok.mp run with ⟨-, rfl⟩
        refine ⟨[], Passes.refl _, ?_, ?_⟩
        · rwa [List.flatMap_nil, Declarations.extend_nil]
        · rwa [List.flatMap_nil, List.append_nil]

/-- One parameter and those behind it are declared. -/
theorem parametersBehind_ok {bound : Nat} (spelled : p.stream.Spelled)
    (holds : p.symbols.Holds ds) (declarable : Declarable options ds.ofSubroutine)
    (run : parametersBehind options bound p = .ok u q) :
    ∃ (first : Parameter) (rest : List Parameter),
      p.Passes (parameterLexemes (first :: rest)) [] 0 q ∧
        q.symbols.Holds (ds.extend .argument ((first :: rest).map Parameter.declaration)) ∧
          Declarable options
            (ds.ofSubroutine ++ (first :: rest).map Parameter.declaration) := by
  induction bound generalizing p ds with
  | zero => cases run
  | succ bound inductionHypothesis =>
      rcases bind_eq_ok.mp run with ⟨text, p₁, readType, run⟩
      rcases typeName_ok spelled readType with ⟨type, rfl, goesType⟩
      rcases bind_eq_ok.mp run with ⟨name, p₂, readName, run⟩
      have goesName := goesType.trans (consume_identifier_ok readName)
      rcases bind_eq_ok.mp run with ⟨_, p₃, declared, run⟩
      have holdsThere : p₂.symbols.Holds ds := goesName.symbols ▸ holds
      rcases declare_ok .argument holdsThere declarable declared with ⟨passes, holds', declarable'⟩
      have passesFirst := goesName.passes.trans passes
      rcases bind_eq_ok.mp run with ⟨comma, p₄, readComma, run⟩
      rcases accept_symbol_ok readComma with ⟨rfl, goesComma⟩ | ⟨rfl, rfl⟩
      · have passesComma := passesFirst.trans goesComma.passes
        have holdsComma := goesComma.symbols ▸ holds'
        rcases inductionHypothesis (passesComma.reads.spelled spelled) holdsComma declarable'
            run with
          ⟨second, rest, passesRest, holdsRest, declarableRest⟩
        rw [Declarations.extend_extend] at holdsRest
        refine ⟨⟨type, name.text⟩, second :: rest, passesComma.trans passesRest, holdsRest, ?_⟩
        rw [List.map_cons, List.append_cons]
        exact declarableRest
      · rcases pure_eq_ok.mp run with ⟨-, rfl⟩
        exact ⟨⟨type, name.text⟩, [], passesFirst, holds', declarable'⟩

/-- Parameters are declared as arguments in the order in which they are listed. -/
theorem parameters_ok {bound : Nat} (spelled : p.stream.Spelled) (holds : p.symbols.Holds ds)
    (declarable : Declarable options ds.ofSubroutine)
    (run : parameters options bound p = .ok u q) :
    ∃ list : List Parameter, p.Passes (parameterLexemes list) [] 0 q ∧
      q.symbols.Holds (ds.extend .argument (list.map Parameter.declaration)) ∧
        Declarable options (ds.ofSubroutine ++ list.map Parameter.declaration) := by
  rcases bind_eq_ok.mp run with ⟨t, p₁, looked, run⟩
  rcases peek_ok looked with ⟨-, rfl⟩
  split at run
  · rcases parametersBehind_ok spelled holds declarable run with ⟨first, rest, described⟩
    exact ⟨first :: rest, described⟩
  · rcases pure_eq_ok.mp run with ⟨-, rfl⟩
    refine ⟨[], Passes.refl _, ?_, ?_⟩
    · rwa [List.map_nil, Declarations.extend_nil]
    · rwa [List.map_nil, List.append_nil]

/-! ## Subroutines -/

/-- The result type counts only as to whether there is one. -/
theorem resultType_ok {isVoid : Bool} (spelled : p.stream.Spelled)
    (run : resultType p = .ok isVoid q) :
    ∃ result : Option TypeName, isVoid = result.isNone ∧ p.Goes [resultLexeme result] [] 0 q := by
  rcases bind_eq_ok.mp run with ⟨found, p₁, readVoid, run⟩
  rcases accept_keyword_ok readVoid with ⟨rfl, goesVoid⟩ | ⟨rfl, rfl⟩
  · rcases pure_eq_ok.mp run with ⟨rfl, rfl⟩
    exact ⟨none, rfl, goesVoid⟩
  · rcases bind_eq_ok.mp run with ⟨text, p₂, readType, run⟩
    rcases pure_eq_ok.mp run with ⟨rfl, rfl⟩
    rcases typeName_ok spelled readType with ⟨type, -, goesType⟩
    exact ⟨some type, rfl, goesType⟩

/-- The declarations of the subroutine before are forgotten, those of the class are kept. -/
theorem startSubroutine_ok (holds : p.symbols.Holds ds) (run : startSubroutine p = .ok u q) :
    p.Passes [] [] 0 q ∧ q.symbols.Holds ds.startSubroutine := by
  cases run
  exact ⟨⟨.nil _, rfl, rfl⟩, holds.startSubroutine⟩

/-- Only a method has its object among the declarations, and there is always room for it. -/
theorem receiver_ok {ofClass : List Declaration} {kind : SubroutineKind} {className : String}
    (options : Options) (holds : p.symbols.Holds ⟨ofClass, []⟩)
    (run : receiver kind className p = .ok u q) :
    p.Passes [] [] 0 q ∧ q.symbols.Holds ⟨ofClass, receiverDeclarations className kind⟩ ∧
      Declarable options (receiverDeclarations className kind) := by
  have undeclared (same : p = q) :
      p.Passes [] [] 0 q ∧ q.symbols.Holds ⟨ofClass, []⟩ ∧ Declarable options [] := by
    subst same
    exact ⟨Passes.refl p, holds, declarable_nil options⟩
  cases kind with
  | method =>
      rcases bind_eq_ok.mp run with ⟨previous, p₁, defined, run⟩
      rcases pure_eq_ok.mp run with ⟨-, rfl⟩
      rcases define_ok (d := ⟨Code.receiver, className, .argument⟩) holds defined with
        ⟨-, room, passes, holds'⟩
      refine ⟨passes, holds', ?_⟩
      rw [receiverDeclarations, ← List.nil_append [_]]
      exact declarable_append_singleton.mpr ⟨declarable_nil options, room, fun _ => rfl⟩
  | constructor => exact undeclared (pure_eq_ok.mp run).2
  | function => exact undeclared (pure_eq_ok.mp run).2

/-- The count that goes into the code is the number of declarations of that kind, cut to a word.  It
counts repeated names as often as they are declared. -/
theorem count_ok {kind : SymbolKind} {number : UInt16} (holds : p.symbols.Holds ds)
    (run : count kind p = .ok number q) :
    number = UInt16.ofNat (countKind kind (ds.scope kind)) ∧ p = q := by
  cases run
  exact ⟨holds.count_eq kind, rfl⟩

/-- What a compiled body contributes to its subroutine, whose declarations in front of the body are
given. -/
theorem body_ok {ofClass before : List Declaration} {className name : String}
    {kind : SubroutineKind} {isVoid : Bool} {bound : Nat} (spelled : p.stream.Spelled)
    (holds : p.symbols.Holds ⟨ofClass, before⟩) (declarable : Declarable options before)
    (run : body options className kind name isVoid bound p = .ok u q) :
    ∃ (groups : List VariableGroup) (ss : Statements) (all : List Declaration) (names : Names),
      all = before ++ groups.flatMap (·.declarations .«local») ∧
      names = (Declarations.mk ofClass all).symbol? ∧
      Declarable options all ∧ ss.Acceptable names ∧ q.symbols.Holds ⟨ofClass, all⟩ ∧
      p.Passes
        (.symbol .leftBrace :: (groups.flatMap VariableGroup.localLexemes ++
          (ss.lexemes ++ [.symbol .rightBrace])))
        (.function name (UInt16.ofNat (countKind .«local» all)) ::
          Code.prologue kind (UInt16.ofNat (countKind .field ofClass)) ++
            ss.code names ⟨className, Code.endLabel p.labels, options.foldTailReturn⟩
              options.foldTailReturn (p.labels + 1) ++
            Code.epilogue
              (if ss.jumps options.foldTailReturn || !options.foldTailReturn then
                some (Code.endLabel p.labels)
              else none) isVoid)
        (ss.labels + 1) q := by
  rcases bind_eq_ok.mp run with ⟨_, p₁, readOpen, run⟩
  have goesOpen := symbol_ok readOpen
  rcases bind_eq_ok.mp run with ⟨_, p₂, declared, run⟩
  have holdsOpen := goesOpen.symbols ▸ holds
  rcases localVariables_ok (goesOpen.1.spelled spelled) holdsOpen declarable declared with
    ⟨groups, passesLocals, holdsAll, declarableAll⟩
  have passesDeclared := goesOpen.passes.trans passesLocals
  replace holdsAll : p₂.symbols.Holds
    ⟨ofClass, before ++ groups.flatMap (·.declarations .«local»)⟩ := holdsAll
  -- Both counts are taken behind the last declaration, so that they are those of all of them.
  rcases bind_eq_ok.mp run with ⟨locals, p₃, counted, run⟩
  rcases count_ok holdsAll counted with ⟨rfl, rfl⟩
  rcases bind_eq_ok.mp run with ⟨fields, p₄, countedFields, run⟩
  rcases count_ok holdsAll countedFields with ⟨rfl, rfl⟩
  rcases bind_eq_ok.mp run with ⟨_, p₅, emitted, run⟩
  have goesStart := emit_ok emitted
  rcases bind_eq_ok.mp run with ⟨id, p₆, numbered, run⟩
  rcases freshLabel_ok numbered with ⟨rfl, goesNumber⟩
  have goesHead := goesStart.trans goesNumber
  have passesHead := passesDeclared.trans goesHead.passes
  have labelsHead : p₅.labels = p.labels := by
    rw [goesStart.labels, passesDeclared.labels]
    rfl
  rw [labelsHead] at run
  rcases bind_eq_ok.mp run with ⟨jumps, p₇, readInner, run⟩
  rcases bind_eq_ok.mp run with ⟨_, p₈, readClose, run⟩
  have goesClose := symbol_ok readClose
  -- The brace behind the statements tells which of them is the last one.
  rcases (readStatements _ _ bound).statements
      (goesHead.names holdsAll.get?_eq) readInner (symbol_shows readClose) with
    ⟨ss, acceptable, jumped, goesInner⟩
  rw [Bool.not_false, Bool.and_true] at jumped goesInner
  rw [Bool.false_or] at jumped
  rw [passesHead.labels] at goesInner
  rcases bind_eq_ok.mp run with ⟨_, p₉, emittedEnd, recorded⟩
  have goesEnd := (goesInner.trans goesClose).trans (emit_ok emittedEnd)
  rcases record_ok recorded with ⟨passesRecord, sameSymbols⟩
  have sameTable : q.symbols = p₂.symbols := by
    rw [sameSymbols, goesEnd.symbols, goesHead.symbols]
  have passes := (passesHead.trans goesEnd.passes).trans passesRecord
  refine ⟨groups, ss, _, _, rfl, rfl, declarableAll, acceptable, sameTable ▸ holdsAll,
    passes.of_eq ?_ ?_ ?_⟩
  · simp only [List.append_nil, List.nil_append, List.cons_append]
  · rw [jumped]
    simp only [List.append_nil, List.nil_append, List.append_assoc, List.cons_append,
      Declarations.scope, SymbolKind.isClassScope, Bool.false_eq_true, if_true, if_false,
      Nat.zero_add]
  · omega

/-- A subroutine is compiled in the same way whatever subroutines the class consists of. -/
theorem subroutine_ok {members : List ClassVariables} {className : String}
    {kind : SubroutineKind} {bound : Nat} {t : Token} (spelled : p.stream.Spelled)
    (current : p.stream.current = .ok t) (start : t.kind = .keyword kind.word)
    (holds : p.symbols.Holds ds)
    (ofClass : ds.ofClass = members.flatMap ClassVariables.declarations)
    (run : subroutine options className kind bound p = .ok u q) :
    ∃ (s : Subroutine) (ds' : Declarations), q.symbols.Holds ds' ∧
      ds'.ofClass = members.flatMap ClassVariables.declarations ∧
      ∀ all : List Subroutine, s.Acceptable options ⟨className, members, all⟩ ∧
        p.Passes s.lexemes (s.code options ⟨className, members, all⟩ p.labels) s.labels q := by
  rcases bind_eq_ok.mp run with ⟨_, p₁, skipped, run⟩
  have goesWord := skip_keyword_ok skipped current start
  rcases bind_eq_ok.mp run with ⟨isVoid, p₂, readResult, run⟩
  rcases resultType_ok (goesWord.1.spelled spelled) readResult with ⟨result, rfl, goesResult⟩
  rcases bind_eq_ok.mp run with ⟨name, p₃, readName, run⟩
  have goesName := (goesWord.trans goesResult).trans (consume_identifier_ok readName)
  rcases bind_eq_ok.mp run with ⟨_, p₄, recorded, run⟩
  rcases record_ok recorded with ⟨passesRecord, sameSymbols⟩
  have holdsThere : p₄.symbols.Holds ds := by
    rw [sameSymbols, goesName.symbols]
    exact holds
  rcases bind_eq_ok.mp run with ⟨_, p₅, started, run⟩
  rcases startSubroutine_ok holdsThere started with ⟨passesStart, holdsStart⟩
  rw [Declarations.startSubroutine, ofClass] at holdsStart
  rcases bind_eq_ok.mp run with ⟨_, p₆, received, run⟩
  rcases receiver_ok options holdsStart received with
    ⟨passesReceiver, holdsReceiver, declarableReceiver⟩
  rcases bind_eq_ok.mp run with ⟨_, p₇, readOpen, run⟩
  have goesOpen := symbol_ok readOpen
  have passesOpen := (((goesName.passes.trans passesRecord).trans passesStart).trans
    passesReceiver).trans goesOpen.passes
  rcases bind_eq_ok.mp run with ⟨_, p₈, readParameters, run⟩
  have holdsOpen := goesOpen.symbols ▸ holdsReceiver
  rcases parameters_ok (passesOpen.reads.spelled spelled) holdsOpen declarableReceiver
      readParameters with
    ⟨parameters, passesParameters, holdsParameters, declarableParameters⟩
  rcases bind_eq_ok.mp run with ⟨_, p₉, readClose, compiled⟩
  have goesClose := symbol_ok readClose
  have passesClose := (passesOpen.trans passesParameters).trans goesClose.passes
  have holdsClose := goesClose.symbols ▸ holdsParameters
  rcases body_ok (passesClose.reads.spelled spelled) holdsClose declarableParameters compiled with
    ⟨groups, ss, all, names, rfl, rfl, declarable, acceptable, holdsAll, passesBody⟩
  refine ⟨⟨kind, result, name.text, parameters, groups, ss⟩, _, holdsAll, rfl, fun all =>
    ⟨⟨declarable, acceptable⟩, (passesClose.trans passesBody).of_eq ?_ ?_ ?_⟩⟩
  · simp only [Subroutine.lexemes, List.append_nil, List.nil_append, List.cons_append,
      List.append_assoc]
  · rw [passesClose.labels]
    rfl
  · simp only [Subroutine.labels, Nat.zero_add]

/-- Subroutines are read as long as there is a word for one.  The class that their code is about has
the same name and variables, and whatever subroutines, as no subroutine looks at the others. -/
theorem subroutines_ok {members : List ClassVariables} {className : String} {bound : Nat}
    (spelled : p.stream.Spelled) (holds : p.symbols.Holds ds)
    (ofClass : ds.ofClass = members.flatMap ClassVariables.declarations)
    (run : subroutines options className bound p = .ok u q) :
    ∃ (list : List Subroutine) (labels : Nat), ∀ all : List Subroutine,
      (∀ s ∈ list, s.Acceptable options ⟨className, members, all⟩) ∧
        p.Passes (list.flatMap Subroutine.lexemes)
          (subroutinesCode options ⟨className, members, all⟩ p.labels list) labels q := by
  induction bound generalizing p ds with
  | zero => cases run
  | succ bound inductionHypothesis =>
      rcases bind_eq_ok.mp run with ⟨t, p₁, looked, run⟩
      rcases peek_ok looked with ⟨current, rfl⟩
      cases start : t.kind.subroutineKind? with
      | none =>
          simp only [start] at run
          rcases pure_eq_ok.mp run with ⟨-, rfl⟩
          exact ⟨[], 0, fun all =>
            ⟨fun s member => absurd member List.not_mem_nil, Passes.refl _⟩⟩
      | some kind =>
          simp only [start] at run
          rcases bind_eq_ok.mp run with ⟨_, p₂, compiled, run⟩
          rcases subroutine_ok spelled current (TokenKind.eq_of_subroutineKind? start) holds ofClass
              compiled with ⟨s, ds', holds', ofClass', described⟩
          have spelledThere := (described []).2.reads.spelled spelled
          rcases inductionHypothesis spelledThere holds' ofClass' run with
            ⟨rest, labels, describedRest⟩
          refine ⟨s :: rest, s.labels + labels, fun all => ?_⟩
          rcases described all with ⟨acceptable, passes⟩
          rcases describedRest all with ⟨acceptableRest, passesRest⟩
          rw [passes.labels] at passesRest
          exact ⟨List.forall_mem_cons.mpr ⟨acceptable, acceptableRest⟩, passes.trans passesRest⟩

/-! ## The whole class -/

theorem consume_keyword_ok {k : Keyword} {t : Token} (run : consume (.keyword k) p = .ok t q) :
    p.Goes [.keyword k] [] 0 q := by
  rcases consume_ok run (by simp only [ne_eq, reduceCtorEq, not_false_eq_true]) with ⟨-, kind, goes⟩
  rwa [Token.lexeme_eq_keyword kind] at goes

/-- Behind the class there is nothing but the end of file, and it emits nothing. -/
theorem consume_endOfFile_ok {t : Token} (run : consume .endOfFile p = .ok t q) :
    p.stream.Shows (fun k => k = .endOfFile) ∧ q.code = p.code := by
  unfold consume TokenStream.consume TokenStream.consumeIf at run
  cases current : p.stream.current with
  | error e =>
      rw [current] at run
      cases run
  | ok u =>
      simp only [current, List.mem_singleton] at run
      by_cases same : u.kind = .endOfFile
      · simp only [same, if_true] at run
        cases run
        exact ⟨⟨_, current, decide_eq_true same⟩, rfl⟩
      · simp only [same, if_false, reduceCtorEq] at run

/-- A source that compiles is that of an acceptable class, and the listing is its code. -/
theorem wholeClass_ok {source : List Char} {bound : Nat}
    (run : wholeClass options bound (Progress.ofSource source) = .ok u q) :
    ∃ c : ClassTree, Lexes source c.lexemes ∧ c.Acceptable options ∧
      q.code.toList = c.code options := by
  have spelled := TokenStream.spelled_ofSource source
  rcases bind_eq_ok.mp run with ⟨_, p₁, readWord, run⟩
  rcases bind_eq_ok.mp run with ⟨name, p₂, readName, run⟩
  rcases bind_eq_ok.mp run with ⟨_, p₃, readOpen, run⟩
  have goesOpen := ((consume_keyword_ok readWord).trans (consume_identifier_ok readName)).trans
    (symbol_ok readOpen)
  rcases bind_eq_ok.mp run with ⟨_, p₄, declared, run⟩
  have holdsOpen : p₃.symbols.Holds ⟨[], []⟩ := goesOpen.symbols ▸ SymbolTable.holds_empty
  rcases classVariables_ok (goesOpen.1.spelled spelled) holdsOpen (declarable_nil options)
      declared with
    ⟨members, passesVariables, holds, declarable⟩
  have passesDeclared := goesOpen.passes.trans passesVariables
  rcases bind_eq_ok.mp run with ⟨_, p₅, compiled, run⟩
  rcases subroutines_ok (passesDeclared.reads.spelled spelled) holds rfl compiled with
    ⟨list, labels, described⟩
  rcases described list with ⟨acceptable, passesSubroutines⟩
  rcases bind_eq_ok.mp run with ⟨_, p₆, readClose, run⟩
  have passes := (passesDeclared.trans passesSubroutines).trans (symbol_ok readClose).passes
  rcases bind_eq_ok.mp run with ⟨_, p₇, readEnd, run⟩
  rcases consume_endOfFile_ok readEnd with ⟨last, sameCode⟩
  rcases bind_eq_ok.mp run with ⟨size, p₈, measured, recorded⟩
  cases measured
  rcases record_ok recorded with ⟨passesRecord, -⟩
  refine ⟨⟨name.text, members, list⟩, ?_, ⟨declarable, acceptable⟩, ?_⟩
  · rw [ClassTree.lexemes_eq_ownLexemes]
    refine lexes_iff_reads.mpr ⟨p₆.stream, ?_, last⟩
    simpa only [ClassTree.ownLexemes, Progress.ofSource, List.cons_append, List.nil_append,
      List.append_nil, List.append_assoc] using passes.reads
  · rw [passesRecord.code, List.foldl_nil, sameCode, passes.code, passesDeclared.labels,
      List.foldl_push_eq_append']
    simp only [Progress.ofSource, ClassTree.code, List.append_nil, List.nil_append,
      Array.toList_append, Nat.add_zero]

end Step

end Jack
