import Jack.Compiler
import Jack.Proofs.Redeclaration.Body

namespace Jack

/-!
# Classes declare what a scan finds

A compilation and a scan of the tokens go through the declarations of a class side by side.  The
scan notes a name as soon as its token is read, and the compilation declares it just then, unless
the kind is full, or the name is declared again and this is not allowed.
-/

/-- The progress agrees with a scan that has come to a part of a class with a given name. -/
def Progress.Reaches (source : List Char) (part : DeclarationPart) (className : String)
    (p : Progress) : Prop :=
  ∃ declared found, p.Agrees source ⟨part, className, declared, found⟩

namespace Step

variable {β : Type} {source : List Char} {className : String} {p : Progress}
  {part : DeclarationPart} {declared : Declarations} {found : List Redeclaration}
  {options : Options} {kind : SymbolKind} {type : String} {bound : Nat}
  {post : β → Progress → Prop}

/-! ## Parts of declarations -/

/-- A look moves neither the compilation nor the scan. -/
theorem finds_peek_reaching {f : Token → Step β} (reaches : p.Reaches source part className)
    (rest : ∀ t, p.stream.current = .ok t → (f t).Finds source p post) :
    (peek >>= f).Finds source p post := by
  rcases reaches with ⟨declared, found, agrees⟩
  exact finds_peek_bind agrees rest

/-- Any type is passed where nothing is noted of it. -/
theorem finds_typeName {s : DeclarationScan} (agrees : p.Agrees source s)
    (noted : ∀ t, s.note t = s) :
    typeName.Finds source p fun text q =>
      ∃ t : Token, t.kind.isType = true ∧ t.text = text ∧ q.Agrees source (s.read t) := by
  refine finds_peek_bind agrees fun t current => ?_
  by_cases isType : t.kind.isType = true
  · rw [if_pos isType]
    have more := TokenKind.ne_endOfFile_of_isType isType
    refine (finds_pass agrees current more (noted t)).bind fun _ q agrees => ?_
    exact finds_pure ⟨t, isType, rfl, agrees⟩
  · rw [if_neg isType]
    exact finds_unexpected (by decide) agrees (agrees.standsBehind current)

/-- Behind a type, the scan waits for the name of a variable of that type. -/
theorem finds_type (reaches : p.Reaches source (.type kind) className) :
    typeName.Finds source p fun text q => q.Reaches source (.name kind text) className := by
  rcases reaches with ⟨declared, found, agrees⟩
  refine (finds_typeName agrees fun _ => rfl).mono ?_
  rintro text q ⟨t, isType, rfl, agrees⟩
  rw [DeclarationScan.read, DeclarationPart.next, if_pos isType] at agrees
  exact ⟨declared, found, agrees⟩

/-- A symbol of which nothing is noted leads to the next part. -/
theorem finds_symbol_reaching {next : DeclarationPart} (symbol : Punctuation)
    (agrees : p.Agrees source ⟨part, className, declared, found⟩)
    (noted : ∀ t, DeclarationScan.note ⟨part, className, declared, found⟩ t =
      ⟨part, className, declared, found⟩)
    (leads : ∀ t : Token, t.kind = .symbol symbol → part.next t = next) :
    (Step.symbol symbol).Finds source p fun _ q => q.Reaches source next className := by
  refine (finds_consume (by simp) agrees).bind ?_
  rintro t _ ⟨current, isSymbol, rfl⟩
  have agrees := agrees.advance current (by simp [isSymbol]) (noted t)
  rw [DeclarationScan.read, noted, leads t isSymbol] at agrees
  exact finds_pure ⟨declared, found, agrees⟩

/-- The name that has just been passed is declared, and a symbol that it replaces is recorded or
refused. -/
theorem finds_declare {name : Token}
    (agrees : p.Agrees source ⟨.name kind type, className, declared, found⟩)
    (current : p.stream.current = .ok name) (isName : name.kind = .identifier) :
    (declare options name type kind).Finds source { p with stream := p.stream.advance }
      fun _ q => q.Reaches source (.behindName kind type) className := by
  have behind := agrees.stream.advance current (by simp [isName])
  have recorded := agrees.events
  let d : Declaration := ⟨name.text, type, kind⟩
  unfold Finds declare
  simp only [Bind.bind, EStateM.bind, locate_define]
  by_cases full : countKind kind (declared.scope kind) = 65535
  -- A full kind is an error at the name, and the scan in front of it has not noted the name.
  · rw [agrees.symbols.define_full name.text type full]
    refine agrees.arises current fun before itemsBehind scanned => ?_
    exact .tooMany isName (by rw [scanned]) (by rw [scanned]; exact full)
  · rcases agrees.symbols.define d full with ⟨symbols, defined, holds⟩
    have defined : p.symbols.define name.text type kind =
        .ok (latest? (declared.scope kind) name.text, symbols) := defined
    rw [defined]
    cases latest : latest? (declared.scope kind) name.text with
    | none =>
        refine ⟨declared.declare d, _, behind, holds, ?_⟩
        simp only [DeclarationScan.note, DeclarationScan.declare,
          DeclarationScan.redeclaration?, latest, Option.map_none, Option.toList_none,
          List.append_nil]
        exact recorded
    | some previous =>
        cases options.strictDeclarations with
        | true =>
            have again : name.text ∈ (declared.scope kind).map Declaration.name := by
              refine Decidable.byContradiction fun absent => ?_
              rw [latest?_eq_none_iff.mpr absent] at latest
              cases latest
            simp only [if_true, fail]
            refine agrees.arises current fun before itemsBehind scanned => ?_
            exact .redeclared isName (by rw [scanned]) (by rw [scanned]; exact again)
        | false =>
            simp only [Bool.false_eq_true, if_false, record]
            refine ⟨declared.declare d, _, behind, holds, ?_⟩
            simp only [DeclarationScan.note, DeclarationScan.declare,
              DeclarationScan.redeclaration?, latest, Option.map_some, redeclarations_push,
              Event.redeclaration?]
            exact congrArg (· ++ _) recorded

/-- Behind a comma, the next name or type is declared. -/
theorem finds_accept_comma (reaches : p.Reaches source (.behindName kind type) className) :
    (accept (.symbol .comma)).Finds source p fun more q =>
      q.Reaches source (if more then .again kind type else .behindName kind type) className := by
  rcases reaches with ⟨declared, found, agrees⟩
  refine (finds_accept _ agrees).mono ?_
  rintro more _ (⟨rfl, rfl⟩ | ⟨t, rfl, current, isComma, rfl⟩)
  · exact ⟨declared, found, agrees⟩
  · have agrees := agrees.advance current (by simp [isComma]) rfl
    rw [DeclarationScan.read, DeclarationPart.next, if_pos isComma] at agrees
    exact ⟨declared, found, agrees⟩

/-! ## Declarations -/

/-- Every name is noted by the scan and declared by the compilation.  Behind a comma, the scan waits
for another name, as the compilation does. -/
theorem finds_names (oneType : DeclarationPart.again kind type = .name kind type)
    (reaches : p.Reaches source (.name kind type) className) :
    (names options type kind bound).Finds source p
      fun _ q => q.Reaches source (.behindName kind type) className := by
  induction bound generalizing p with
  | zero => exact finds_exhausted
  | succ bound inductionHypothesis =>
      rcases reaches with ⟨declared, found, agrees⟩
      rw [names]
      refine (finds_consume (by simp) agrees).bind ?_
      rintro name _ ⟨current, isName, rfl⟩
      refine (finds_declare agrees current isName).bind fun _ q reaches => ?_
      refine (finds_accept_comma reaches).bind fun more q reaches => ?_
      cases more with
      | true =>
          rw [if_pos rfl, oneType] at reaches
          exact inductionHypothesis reaches
      | false => exact finds_pure reaches

/-- Behind the semicolon, the scan is outside of declarations again. -/
theorem finds_declaration (oneType : ∀ type, DeclarationPart.again kind type = .name kind type)
    (reaches : p.Reaches source (.type kind) className) :
    (declaration options kind bound).Finds source p
      fun _ q => q.Reaches source .elsewhere className := by
  refine (finds_type reaches).bind fun type q reaches => ?_
  refine (finds_names (oneType type) reaches).bind ?_
  rintro _ q ⟨declared, found, agrees⟩
  refine finds_symbol_reaching _ agrees (fun _ => rfl) fun t isSemicolon => ?_
  rw [DeclarationPart.next, isSemicolon]
  rfl

/-- A group of declarations behind its first word. -/
theorem finds_group {t : Token} {rest : Step Unit} {post : Unit → Progress → Prop}
    (oneType : ∀ type, DeclarationPart.again kind type = .name kind type)
    (reaches : p.Reaches source .elsewhere className) (current : p.stream.current = .ok t)
    (more : t.kind ≠ .endOfFile) (word : DeclarationPart.opened t.kind = .type kind)
    (behind : ∀ q, q.Reaches source .elsewhere className → rest.Finds source q post) :
    (do skip; declaration options kind bound; rest : Step Unit).Finds source p post := by
  rcases reaches with ⟨declared, found, agrees⟩
  refine (finds_pass agrees current more rfl).bind fun _ q agrees => ?_
  rw [DeclarationScan.read, DeclarationPart.next, word] at agrees
  exact (finds_declaration oneType ⟨declared, found, agrees⟩).bind fun _ => behind

theorem finds_classVariables (reaches : p.Reaches source .elsewhere className) :
    (classVariables options bound).Finds source p
      fun _ q => q.Reaches source .elsewhere className := by
  induction bound generalizing p with
  | zero => exact finds_exhausted
  | succ bound inductionHypothesis =>
      rw [classVariables]
      refine finds_peek_reaching reaches fun t current => ?_
      split
      · rename_i static
        exact finds_group (fun _ => rfl) reaches current (by simp [static])
          (by rw [static]; rfl) fun q => inductionHypothesis
      · rename_i field
        exact finds_group (fun _ => rfl) reaches current (by simp [field])
          (by rw [field]; rfl) fun q => inductionHypothesis
      · exact finds_pure reaches

theorem finds_localVariables (reaches : p.Reaches source .elsewhere className) :
    (localVariables options bound).Finds source p
      fun _ q => q.Reaches source .elsewhere className := by
  induction bound generalizing p with
  | zero => exact finds_exhausted
  | succ bound inductionHypothesis =>
      rw [localVariables]
      refine finds_peek_reaching reaches fun t current => ?_
      split
      · rename_i word
        exact finds_group (fun _ => rfl) reaches current (by simp [word])
          (by rw [word]; rfl) fun q => inductionHypothesis
      · exact finds_pure reaches

/-- Behind a comma between parameters there is another type, and not only another name. -/
theorem finds_parametersBehind (reaches : p.Reaches source (.type .argument) className) :
    (parametersBehind options bound).Finds source p
      fun _ q => ∃ type, q.Reaches source (.behindName .argument type) className := by
  induction bound generalizing p with
  | zero => exact finds_exhausted
  | succ bound inductionHypothesis =>
      rw [parametersBehind]
      refine (finds_type reaches).bind ?_
      rintro type q ⟨declared, found, agrees⟩
      refine (finds_consume (by simp) agrees).bind ?_
      rintro name _ ⟨current, isName, rfl⟩
      refine (finds_declare agrees current isName).bind fun _ q reaches => ?_
      refine (finds_accept_comma reaches).bind fun more q reaches => ?_
      cases more with
      | true => exact inductionHypothesis reaches
      | false => exact finds_pure ⟨type, reaches⟩

theorem finds_parameters (reaches : p.Reaches source (.type .argument) className) :
    (parameters options bound).Finds source p fun _ q =>
      q.Reaches source (.type .argument) className ∨
        ∃ type, q.Reaches source (.behindName .argument type) className := by
  refine finds_peek_reaching reaches fun t current => ?_
  split
  · exact (finds_parametersBehind reaches).mono fun _ _ => .inr
  · exact finds_pure (.inl reaches)

/-- The parenthesis behind parameters, if there are any. -/
theorem finds_symbol_parameters
    (reaches : p.Reaches source (.type .argument) className ∨
      ∃ type, p.Reaches source (.behindName .argument type) className) :
    (symbol .rightParen).Finds source p fun _ q => q.Reaches source .elsewhere className := by
  rcases reaches with ⟨declared, found, agrees⟩ | ⟨type, declared, found, agrees⟩
  · refine finds_symbol_reaching _ agrees (fun _ => rfl) fun t isSymbol => ?_
    rw [DeclarationPart.next, isSymbol]
    rfl
  · refine finds_symbol_reaching _ agrees (fun _ => rfl) fun t isSymbol => ?_
    rw [DeclarationPart.next, isSymbol]
    rfl

/-! ## Subroutines -/

variable {form : SubroutineKind}

/-- The result type declares nothing.  Behind it comes the name of the subroutine, which declares
nothing either. -/
theorem finds_resultType (reaches : p.Reaches source (.result form) className) :
    resultType.Finds source p fun _ q => q.Reaches source (.title form) className := by
  rcases reaches with ⟨declared, found, agrees⟩
  refine (finds_accept _ agrees).bind ?_
  rintro isVoid _ (⟨rfl, rfl⟩ | ⟨t, rfl, current, void, rfl⟩)
  · refine (finds_typeName agrees fun _ => rfl).bind ?_
    rintro text q ⟨t, -, -, agrees⟩
    exact finds_pure ⟨declared, found, agrees⟩
  · exact finds_pure ⟨declared, found, agrees.advance current (by simp [void]) rfl⟩

/-- Behind the name of a subroutine, only its object is declared in its scope. -/
theorem finds_heading_bind {name : Token} {title : String} {rest : Step β}
    (agrees : p.Agrees source ⟨.title form, className, declared, found⟩)
    (current : p.stream.current = .ok name) (isName : name.kind = .identifier)
    (behind : ∀ q, q.Reaches source .opening className → rest.Finds source q post) :
    (do
      record (.subroutineStarted form title)
      startSubroutine
      receiver form className
      rest : Step β).Finds source { p with stream := p.stream.advance } post := by
  have stands := agrees.stream.advance current (by simp [isName])
  have holds := agrees.symbols.startSubroutine
  have recorded : redeclarations (p.events.push (.subroutineStarted form title)) = found := by
    rw [redeclarations_push, agrees.events]
    exact List.append_nil _
  cases form with
  | method =>
      -- Nothing else is declared in the scope yet, so there is room, and nothing is replaced.
      have room : countKind .argument [] ≠ 65535 := by decide
      rcases holds.define ⟨Code.receiver, className, .argument⟩ room with
        ⟨symbols, defined, holdsReceiver⟩
      have defined : p.symbols.startSubroutine.define Code.receiver className .argument =
          .ok (none, symbols) := defined
      unfold Finds
      simp only [Bind.bind, EStateM.bind, record, startSubroutine, receiver, define, defined]
      exact behind _ ⟨_, found, stands, holdsReceiver, recorded⟩
  | constructor => exact behind _ ⟨_, found, stands, holds, recorded⟩
  | function => exact behind _ ⟨_, found, stands, holds, recorded⟩

/-- The declarations at the top of a body are noted, and the statements behind them declare nothing.
-/
theorem finds_body (name : String) (isVoid : Bool)
    (reaches : p.Reaches source .elsewhere className) :
    (body options className form name isVoid bound).Finds source p
      fun _ q => q.Reaches source .elsewhere className := by
  rcases reaches with ⟨declared, found, agrees⟩
  refine (finds_symbol _ ⟨agrees, rfl⟩).bind fun _ q outside => ?_
  refine (finds_localVariables ⟨declared, found, outside.toAgrees⟩).bind ?_
  rintro _ q ⟨declared, found, agrees⟩
  refine (finds_count _ ⟨agrees, rfl⟩).bind fun locals q outside => ?_
  refine (finds_count _ outside).bind fun fields q outside => ?_
  refine (finds_emit _ outside).bind fun _ q outside => ?_
  refine (finds_freshLabel outside).bind fun id q outside => ?_
  refine ((statementsFind source _ _ bound).statements false false outside).bind
    fun jumps q outside => ?_
  refine (finds_symbol _ outside).bind fun _ q outside => ?_
  refine (finds_emit _ outside).bind fun _ q outside => ?_
  exact (finds_record rfl outside).mono fun _ q outside => ⟨_, _, outside.toAgrees⟩

/-- The scan forgets the declarations of the subroutine before and notes the object of a method,
just as the compilation does. -/
theorem finds_subroutine {t : Token}
    (reaches : p.Reaches source .elsewhere className) (current : p.stream.current = .ok t)
    (word : t.kind = .keyword form.word) :
    (subroutine options className form bound).Finds source p
      fun _ q => q.Reaches source .elsewhere className := by
  have opened : DeclarationPart.opened t.kind = .result form := by
    rw [word]
    cases form <;> rfl
  rcases reaches with ⟨declared, found, agrees⟩
  refine (finds_pass agrees current (by simp [word]) rfl).bind fun _ q agrees => ?_
  rw [DeclarationScan.read, DeclarationPart.next, opened] at agrees
  refine (finds_resultType ⟨declared, found, agrees⟩).bind ?_
  rintro isVoid q ⟨declared, found, agrees⟩
  refine (finds_consume (by simp) agrees).bind ?_
  rintro name _ ⟨current, isName, rfl⟩
  refine finds_heading_bind agrees current isName ?_
  rintro q ⟨declared, found, agrees⟩
  refine (finds_symbol_reaching _ agrees (fun _ => rfl) fun _ _ => rfl).bind fun _ q reaches => ?_
  refine (finds_parameters reaches).bind fun _ q reaches => ?_
  refine (finds_symbol_parameters reaches).bind fun _ q reaches => ?_
  exact finds_body _ isVoid reaches

theorem finds_subroutines
    (reaches : p.Reaches source .elsewhere className) :
    (subroutines options className bound).Finds source p
      fun _ q => q.Reaches source .elsewhere className := by
  induction bound generalizing p with
  | zero => exact finds_exhausted
  | succ bound inductionHypothesis =>
      rw [subroutines]
      refine finds_peek_reaching reaches fun t current => ?_
      cases start : t.kind.subroutineKind? with
      | none => exact finds_pure reaches
      | some form =>
          have word := TokenKind.eq_of_subroutineKind? start
          exact (finds_subroutine reaches current word).bind
            fun _ q reaches => inductionHypothesis reaches

/-! ## Classes -/

/-- At the beginning, nothing has been read, declared or recorded. -/
theorem agrees_ofSource (source : List Char) :
    (Progress.ofSource source).Agrees source .start where
  stream := .ofSource source
  symbols := SymbolTable.holds_empty
  events := rfl

/-- The end of file is the last token of the source. -/
theorem finds_last (name : String) (reaches : p.Reaches source .elsewhere className) :
    (do
      let _ ← consume .endOfFile
      record (.classCompiled name (← codeSize)) : Step Unit).Finds source p fun _ q =>
        ∃ tokens, (Lexer.ofSource source).items = tokens.map .ok ∧
          redeclarations q.events = (scan tokens).found := by
  rcases reaches with ⟨declared, found, agrees⟩
  refine (finds_consume (by simp) agrees).bind ?_
  rintro t _ ⟨current, last, rfl⟩
  rcases agrees.stream.exists_tokens current last with ⟨tokens, items, scanned⟩
  refine ⟨tokens, items, ?_⟩
  rw [redeclarations_push, agrees.events, scanned]
  exact List.append_nil _

/-- Compiling a whole class records what the scan of all its tokens finds. -/
theorem finds_wholeClass :
    (wholeClass options bound).Finds source (.ofSource source) fun _ q =>
      ∃ tokens, (Lexer.ofSource source).items = tokens.map .ok ∧
        redeclarations q.events = (scan tokens).found := by
  refine (finds_consume (by simp) (agrees_ofSource source)).bind ?_
  rintro t _ ⟨current, word, rfl⟩
  have agrees := (agrees_ofSource source).advance current (by simp [word]) rfl
  rw [DeclarationScan.read, DeclarationScan.start, DeclarationPart.next, word] at agrees
  refine (finds_consume (by simp) agrees).bind ?_
  rintro name _ ⟨currentName, isName, rfl⟩
  have named : Progress.Agrees source ⟨.elsewhere, name.text, ⟨[], []⟩, []⟩
      { Progress.ofSource source with
        stream := (Progress.ofSource source).stream.advance.advance } :=
    ⟨agrees.stream.advance currentName (by simp [isName]), agrees.symbols, agrees.events⟩
  refine (finds_symbol _ ⟨named, rfl⟩).bind fun _ q outside => ?_
  refine (finds_classVariables ⟨_, _, outside.toAgrees⟩).bind fun _ q reaches => ?_
  refine (finds_subroutines reaches).bind ?_
  rintro _ q ⟨declared, found, agrees⟩
  refine (finds_symbol _ ⟨agrees, rfl⟩).bind fun _ q outside => ?_
  exact finds_last name.text ⟨_, _, outside.toAgrees⟩

end Step

/-- An error has its cause in the source.  The redeclarations that are recorded are those of all
tokens, or of the tokens in front of the cause. -/
theorem compileClass_arises (options : Options) (source : List Char) :
    match (compileClass options source).result with
    | .ok _ => ∃ tokens, (Lexer.ofSource source).items = tokens.map .ok ∧
        redeclarations (compileClass options source).events = (scan tokens).found
    | .error e => e.ArisesBehind source (redeclarations (compileClass options source).events) := by
  have finds : (Step.wholeClass options (stepBound source)).Finds source (.ofSource source) _ :=
    Step.finds_wholeClass
  unfold Step.Finds at finds
  cases run : Step.wholeClass options (stepBound source) (.ofSource source) with
  | ok u q =>
      rw [run] at finds
      rw [compileClass_of_ok run]
      exact finds
  | error stop q =>
      rw [run] at finds
      cases stop with
      | failed e =>
          rw [compileClass_of_failed run]
          exact finds
      | defect d => exact absurd run (Step.wholeClass_ne_defect options source d q)

/-- An error is located at an item behind the tokens whose redeclarations are recorded. -/
theorem compileClass_finds (options : Options) (source : List Char) :
    match (compileClass options source).result with
    | .ok _ => ∃ tokens, (Lexer.ofSource source).items = tokens.map .ok ∧
        redeclarations (compileClass options source).events = (scan tokens).found
    | .error e => ∃ item : Item, e.IsAt item ∧
        item.StandsBehind source (redeclarations (compileClass options source).events) := by
  have arises := compileClass_arises options source
  cases result : (compileClass options source).result with
  | ok listing =>
      rw [result] at arises
      exact arises
  | error e =>
      rw [result] at arises
      exact arises.exists_item

end Jack
