import Jack.Compiler.Expression
import Jack.Proofs.Redeclaration.Cause

namespace Jack

/-!
# Compilation finds what a scan finds

A progress agrees with a scan if its stream stands behind the scanned tokens, its table holds the
scanned declarations, and the redeclarations that it has recorded are those that were found.  A step
that starts in agreement ends in agreement with a scan that is further on, or it fails for an error
that has its cause in the source, and what has been recorded is what the scan finds in front of this
cause (`Step.Finds`).
-/

namespace Progress

/-- The progress has read, declared and recorded what the scan tells. -/
structure Agrees (source : List Char) (s : DeclarationScan) (p : Progress) : Prop where
  stream : p.stream.StandsBehind source s
  symbols : p.symbols.Holds s.declared
  events : redeclarations p.events = s.found

/-- The progress agrees with the scan and stands outside of all declarations. -/
structure Outside (source : List Char) (s : DeclarationScan) (p : Progress) : Prop
    extends p.Agrees source s where
  elsewhere : s.part = .elsewhere

variable {source : List Char} {s : DeclarationScan} {p : Progress} {t : Token}

/-- Code and labels do not matter. -/
theorem Agrees.congr {q : Progress} (agrees : p.Agrees source s) (stream : q.stream = p.stream)
    (symbols : q.symbols = p.symbols) (events : q.events = p.events) : q.Agrees source s where
  stream := stream ▸ agrees.stream
  symbols := symbols ▸ agrees.symbols
  events := events ▸ agrees.events

/-- Code and labels do not matter. -/
theorem Outside.congr {q : Progress} (outside : p.Outside source s) (stream : q.stream = p.stream)
    (symbols : q.symbols = p.symbols) (events : q.events = p.events) : q.Outside source s :=
  ⟨outside.toAgrees.congr stream symbols events, outside.elsewhere⟩

/-- The progress stands outside of all declarations where a term may stand. -/
structure AtTerm (source : List Char) (s : DeclarationScan) (p : Progress) : Prop
    extends p.Outside source s where
  opened : ∃ kind, TokenKind.opensTerm kind = true ∧ p.stream.ComesBehind source s kind

/-- Code and labels do not matter. -/
theorem AtTerm.congr {q : Progress} (atTerm : p.AtTerm source s) (stream : q.stream = p.stream)
    (symbols : q.symbols = p.symbols) (events : q.events = p.events) : q.AtTerm source s :=
  ⟨atTerm.toOutside.congr stream symbols events, stream ▸ atTerm.opened⟩

/-- The current token is spelled as the lexer makes it. -/
theorem Agrees.spelled (agrees : p.Agrees source s) : p.stream.Spelled := by
  rcases agrees.stream with ⟨before, l, -, -, standsAt⟩
  exact TokenStream.spelled_of_locate standsAt.2.1

/-- The current token stands behind what was found. -/
theorem Agrees.standsBehind (agrees : p.Agrees source s) (current : p.stream.current = .ok t) :
    Item.StandsBehind source s.found (.ok t) :=
  current ▸ agrees.stream.current

/-- The current token is the cause of an error if the scan says so. -/
theorem Agrees.arises {e : CompileError} (agrees : p.Agrees source s)
    (current : p.stream.current = .ok t)
    (cause : ∀ before behind, scan before = s → e.IsCausedBy before (.ok t) behind) :
    e.ArisesBehind source (redeclarations p.events) := by
  rcases agrees.stream with ⟨before, l, items, same, standsAt⟩
  rcases standsAt.items_of_ok current with ⟨behind, rest⟩
  refine ⟨before, _, behind, ?_, ?_, cause before behind same⟩
  · rw [items, rest]
  · rw [same, agrees.events]

/-- A token of which nothing is noted leaves declarations alone. -/
theorem Agrees.advance (agrees : p.Agrees source s) (current : p.stream.current = .ok t)
    (more : t.kind ≠ .endOfFile) (noted : s.note t = s) :
    Agrees source (s.read t) { p with stream := p.stream.advance } where
  stream := agrees.stream.advance current more
  symbols := by
    rw [DeclarationScan.read, noted]
    exact agrees.symbols
  events := by
    rw [DeclarationScan.read, noted]
    exact agrees.events

/-- A plain token outside of declarations leaves both outside. -/
theorem Outside.advance (outside : p.Outside source s) (current : p.stream.current = .ok t)
    (plain : t.kind.IsPlain) : Outside source s { p with stream := p.stream.advance } := by
  have noted : s.note t = s := by rw [DeclarationScan.note, outside.elsewhere]
  have agrees := outside.toAgrees.advance current plain.more noted
  rw [DeclarationScan.read_of_isPlain outside.elsewhere plain] at agrees
  exact ⟨agrees, outside.elsewhere⟩

/-- Behind a token that declares nothing, the stream stands behind the same scan. -/
theorem Outside.comesBehind (outside : p.Outside source s) (current : p.stream.current = .ok t)
    (plain : t.kind.IsPlain) : p.stream.advance.ComesBehind source s t.kind := by
  have comes := outside.stream.comesBehind current plain.more
  rwa [DeclarationScan.read_of_isPlain outside.elsewhere plain] at comes

/-- Behind some tokens a term may stand. -/
theorem Outside.advance_atTerm (outside : p.Outside source s)
    (current : p.stream.current = .ok t) (plain : t.kind.IsPlain)
    (opens : t.kind.opensTerm = true) :
    AtTerm source s { p with stream := p.stream.advance } :=
  ⟨outside.advance current plain, t.kind, opens, outside.comesBehind current plain⟩

end Progress

namespace Step

variable {α β : Type} {source : List Char} {s : DeclarationScan} {p : Progress} {t : Token}
  {post : β → Progress → Prop}

/-- The step ends as described, or it fails for an error whose cause stands behind tokens with just
those redeclarations that have been recorded. -/
def Finds (source : List Char) (x : Step α) (p : Progress) (post : α → Progress → Prop) : Prop :=
  match x p with
  | .ok a q => post a q
  | .error (.failed e) q => e.ArisesBehind source (redeclarations q.events)
  | .error (.defect _) _ => True

/-- One step behind another.  Whatever goes wrong in either has its cause where it stands. -/
theorem Finds.bind {x : Step α} {f : α → Step β} {between : α → Progress → Prop}
    (first : x.Finds source p between)
    (second : ∀ a q, between a q → (f a).Finds source q post) :
    (x >>= f).Finds source p post := by
  unfold Finds at *
  simp only [Bind.bind, EStateM.bind]
  cases run : x p with
  | ok a q =>
      rw [run] at first
      exact second a q first
  | error stop q =>
      rw [run] at first
      cases stop <;> exact first

/-- Less may be said about the end. -/
theorem Finds.mono {x : Step β} {weaker : β → Progress → Prop} (finds : x.Finds source p post)
    (implies : ∀ b q, post b q → weaker b q) : x.Finds source p weaker := by
  unfold Finds at *
  cases run : x p with
  | ok b q =>
      rw [run] at finds
      exact implies b q finds
  | error stop q =>
      rw [run] at finds
      cases stop <;> exact finds

/-- Nothing is said about an exhausted bound. -/
theorem finds_exhausted : (exhausted : Step β).Finds source p post := trivial

theorem finds_pure {b : β} (described : post b p) : (pure b : Step β).Finds source p post :=
  described

/-- A look fails only for a fault of the current item, which is its cause. -/
theorem finds_peek_bind {f : Token → Step β} (agrees : p.Agrees source s)
    (rest : ∀ t, p.stream.current = .ok t → (f t).Finds source p post) :
    (peek >>= f).Finds source p post := by
  have stands := agrees.stream.current
  unfold Finds
  simp only [Bind.bind, EStateM.bind, peek, TokenStream.peek]
  cases current : p.stream.current with
  | ok t => exact rest t current
  | error e =>
      rw [current, ← agrees.events] at stands
      exact stands.arises_lexical

/-- The token at which the step fails may have been passed before. -/
theorem finds_unexpected {expected : String} (notNumber : expected ≠ "integer constant")
    (agrees : p.Agrees source s) (stands : Item.StandsBehind source s.found (.ok t)) :
    (unexpected expected t : Step β).Finds source p post := by
  rw [← agrees.events] at stands
  exact stands.arises_unexpected notNumber

/-- Consuming a token passes it, or complains about it.  Numbers are left out, since they are never
consumed so. -/
theorem finds_consume {kind : TokenKind} (notNumber : kind ≠ .integer)
    (agrees : p.Agrees source s) :
    (consume kind).Finds source p fun t q => p.stream.current = .ok t ∧ t.kind = kind ∧
      q = { p with stream := p.stream.advance } := by
  have stands := agrees.stream.current
  rw [← agrees.events] at stands
  unfold Finds consume TokenStream.consume TokenStream.consumeIf
  cases current : p.stream.current with
  | error e =>
      rw [current] at stands
      exact stands.arises_lexical
  | ok t =>
      rw [current] at stands
      by_cases same : t.kind = kind
      · simp only [List.mem_singleton, same, if_true]
        exact ⟨trivial, trivial, trivial⟩
      · simp only [List.mem_singleton, same, if_false]
        exact stands.arises_unexpected (TokenKind.name_ne_integer notNumber)

/-- A token that may be there is passed or left. -/
theorem finds_accept (kind : TokenKind) (agrees : p.Agrees source s) :
    (accept kind).Finds source p fun found q => (found = false ∧ q = p) ∨
      ∃ t, found = true ∧ p.stream.current = .ok t ∧ t.kind = kind ∧
        q = { p with stream := p.stream.advance } := by
  have stands := agrees.stream.current
  unfold Finds accept TokenStream.accept
  cases current : p.stream.current with
  | error e =>
      rw [current, ← agrees.events] at stands
      exact stands.arises_lexical
  | ok t =>
      by_cases same : t.kind = kind
      · simp only [same, if_true]
        exact .inr ⟨t, trivial, rfl, same, trivial⟩
      · simp only [same, if_false]
        exact .inl ⟨trivial, trivial⟩

/-- A token of which nothing is noted is passed. -/
theorem finds_pass (agrees : p.Agrees source s) (current : p.stream.current = .ok t)
    (more : t.kind ≠ .endOfFile) (noted : s.note t = s) :
    skip.Finds source p fun _ q => q.Agrees source (s.read t) :=
  agrees.advance current more noted

/-! ## Outside of declarations -/

/-- A plain token is passed, outside of declarations. -/
theorem finds_skip (outside : p.Outside source s) (current : p.stream.current = .ok t)
    (plain : t.kind.IsPlain) : skip.Finds source p fun _ q => q.Outside source s :=
  outside.advance current plain

/-- The next token is read where a term stands. -/
theorem finds_skip_atTerm (outside : p.Outside source s) (current : p.stream.current = .ok t)
    (plain : t.kind.IsPlain) (opens : t.kind.opensTerm = true) :
    skip.Finds source p fun _ q => q.AtTerm source s :=
  outside.advance_atTerm current plain opens

theorem finds_consume_plain {kind : TokenKind} (outside : p.Outside source s)
    (plain : kind.IsPlain) (notNumber : kind ≠ .integer) :
    (consume kind).Finds source p fun t q =>
      q.Outside source s ∧ p.stream.current = .ok t ∧ t.kind = kind := by
  refine (finds_consume notNumber outside.toAgrees).mono ?_
  rintro t _ ⟨current, rfl, rfl⟩
  exact ⟨outside.advance current plain, current, rfl⟩

/-- A name outside of declarations is passed.  Whether it is known is not asked here. -/
theorem finds_identifier (outside : p.Outside source s) :
    (consume .identifier).Finds source p fun t q =>
      q.Outside source s ∧ p.stream.current = .ok t ∧ t.kind = .identifier :=
  finds_consume_plain outside isPlain_identifier (by simp)

theorem finds_symbol (symbol : Punctuation) (outside : p.Outside source s) :
    (Step.symbol symbol).Finds source p fun _ q => q.Outside source s :=
  (finds_consume_plain outside (isPlain_symbol symbol) (by simp)).bind
    fun _ _ passed => finds_pure passed.1

/-- Behind some symbols a term may stand. -/
theorem finds_symbol_atTerm {symbol : Punctuation}
    (opens : TokenKind.opensTerm (.symbol symbol) = true) (outside : p.Outside source s) :
    (Step.symbol symbol).Finds source p fun _ q => q.AtTerm source s := by
  refine (finds_consume (by simp) outside.toAgrees).bind ?_
  rintro t _ ⟨current, isSymbol, rfl⟩
  rw [← isSymbol] at opens
  exact finds_pure (outside.advance_atTerm current (isSymbol ▸ isPlain_symbol symbol) opens)

theorem finds_accept_plain {kind : TokenKind} (outside : p.Outside source s)
    (plain : kind.IsPlain) :
    (accept kind).Finds source p fun _ q => q.Outside source s := by
  refine (finds_accept kind outside.toAgrees).mono ?_
  rintro found _ (⟨rfl, rfl⟩ | ⟨t, rfl, current, rfl, rfl⟩)
  · exact outside
  · exact outside.advance current plain

/-- If the symbol stands there, a term may stand behind it. -/
theorem finds_accept_atTerm {symbol : Punctuation}
    (opens : TokenKind.opensTerm (.symbol symbol) = true) (outside : p.Outside source s) :
    (accept (.symbol symbol)).Finds source p fun found q =>
      (found = true ∧ q.AtTerm source s) ∨ (found = false ∧ q.Outside source s) := by
  refine (finds_accept _ outside.toAgrees).mono ?_
  rintro found _ (⟨rfl, rfl⟩ | ⟨t, rfl, current, isSymbol, rfl⟩)
  · exact .inr ⟨rfl, outside⟩
  · rw [← isSymbol] at opens
    have plain : t.kind.IsPlain := isSymbol ▸ isPlain_symbol symbol
    exact .inl ⟨rfl, outside.advance_atTerm current plain opens⟩

/-- A fault behind the current token has this token in front of it. -/
theorem finds_peekNext_bind {f : Token → Step β} (outside : p.Outside source s)
    (current : p.stream.current = .ok t) (plain : t.kind.IsPlain)
    (rest : ∀ u, p.stream.advance.current = .ok u → (f u).Finds source p post) :
    (peekNext >>= f).Finds source p post := by
  have stands := (outside.advance current plain).stream.current
  unfold Finds
  simp only [Bind.bind, EStateM.bind, peekNext, TokenStream.peekNext_eq current plain.more]
  cases following : p.stream.advance.current with
  | ok u => exact rest u following
  | error e =>
      dsimp only at stands
      rw [following, ← outside.events] at stands
      exact stands.arises_lexical

/-- A name that is used as a variable is found, or nothing in sight declares it. -/
theorem finds_resolve (outside : p.Outside source s) (used : t.IsUsed source s) :
    (resolve t).Finds source p fun _ q => q.Outside source s := by
  unfold Finds
  rw [resolve_eq, SymbolTable.lookup, outside.symbols.get?_eq]
  cases found : s.declared.symbol? t.text with
  | some symbol => exact outside
  | none =>
      rcases used with ⟨isName, before, behind, items, rfl, use⟩
      refine ⟨before, _, behind, items, outside.events.symm, ?_⟩
      have undeclared := Declarations.symbol?_eq_none_iff_scopes.mp found
      exact .unresolved isName outside.elsewhere use undeclared

theorem finds_emit (commands : List Command) (outside : p.Outside source s) :
    (emit commands).Finds source p fun _ q => q.Outside source s :=
  outside.congr rfl rfl rfl

theorem finds_emit_atTerm (commands : List Command) (atTerm : p.AtTerm source s) :
    (emit commands).Finds source p fun _ q => q.AtTerm source s :=
  atTerm.congr rfl rfl rfl

theorem finds_freshLabel (outside : p.Outside source s) :
    freshLabel.Finds source p fun _ q => q.Outside source s :=
  outside.congr rfl rfl rfl

theorem finds_symbol? (name : String) (outside : p.Outside source s) :
    (symbol? name).Finds source p fun _ q => q.Outside source s := outside

theorem finds_count (kind : SymbolKind) (outside : p.Outside source s) :
    (count kind).Finds source p fun _ q => q.Outside source s := outside

/-- Other events than redeclarations leave what was found alone. -/
theorem finds_record {e : Event} (other : e.redeclaration? = none)
    (outside : p.Outside source s) :
    (record e).Finds source p fun _ q => q.Outside source s := by
  refine ⟨⟨outside.stream, outside.symbols, ?_⟩, outside.elsewhere⟩
  rw [redeclarations_push, other, outside.events]
  exact List.append_nil _

end Step

end Jack
