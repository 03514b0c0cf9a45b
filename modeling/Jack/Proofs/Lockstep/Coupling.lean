import Jack.Compiler

namespace Jack

/-!
# Two compilations in step

Compilation looks at the stream, at the symbol table and at the number of labels, but never at the
code that it has emitted or at the events that it has recorded.  So two compilations that see
streams alike go the same way: they pass corresponding tokens, and if one of them fails, so does the
other, for a corresponding reason.  A `PartialCoupling` says which streams, tokens and errors
correspond, and `PartialCoupling.InStep` that two steps keep up with each other.

The streams need not be alike to their ends.  Nothing is said about the second compilation once the
first has passed all that the streams have in common, or when one of the two reaches its bound on
the number of steps.  A `Coupling` is the case where the streams are alike to their ends, and the
whole compilation never reaches its bound.
-/

/-- Two items of streams correspond. -/
def Item.Corresponds (tokens : Token → Token → Prop) (errors : CompileError → CompileError → Prop) :
    Item → Item → Prop
  | .ok t, .ok u => tokens t u
  | .error e, .error e' => errors (.token (.lexical e)) (.token (.lexical e'))
  | _, _ => False

/-- A correspondence between the streams of two compilations, the tokens that they read and the
errors for which they fail.  Tokens that correspond have the same kind and the same text. -/
structure Coupling where
  streams : TokenStream → TokenStream → Prop
  tokens : Token → Token → Prop
  errors : CompileError → CompileError → Prop
  kind : ∀ {t u : Token}, tokens t u → t.kind = u.kind
  text : ∀ {t u : Token}, tokens t u → t.text = u.text
  current : ∀ {s s' : TokenStream}, streams s s' → s.current.Corresponds tokens errors s'.current
  following : ∀ {s s' : TokenStream}, streams s s' →
    s.peekNext.Corresponds tokens errors s'.peekNext
  advance : ∀ {s s' : TokenStream}, streams s s' → streams s.advance s'.advance
  unexpected : ∀ {s s' : TokenStream} {t u : Token} (expected : String), streams s s' →
    tokens t u → errors (.token (s.unexpected expected t)) (.token (s'.unexpected expected u))
  symbol : ∀ {t u : Token} (e : SymbolError), tokens t u →
    errors (.symbol e t.start) (.symbol e u.start)
  redeclared : ∀ {t u : Token} (name : String), tokens t u →
    errors (.redeclared name t.start) (.redeclared name u.start)

/-- A correspondence of streams as far as they are alike.  A stream has passed what they have in
common if it stands behind it, and then it corresponds to no other. -/
structure PartialCoupling where
  streams : TokenStream → TokenStream → Prop
  /-- The stream of the first compilation has passed what the two have in common. -/
  passed : TokenStream → Prop
  tokens : Token → Token → Prop
  errors : CompileError → CompileError → Prop
  /-- The first compilation may fail for the error when it looks behind what the two have in common.
  -/
  ignored : CompileError → Prop
  kind : ∀ {t u : Token}, tokens t u → t.kind = u.kind
  text : ∀ {t u : Token}, tokens t u → t.text = u.text
  refl : ∀ {s : TokenStream} (t : Token), passed s → tokens t t
  current : ∀ {s s' : TokenStream}, streams s s' → s.current.Corresponds tokens errors s'.current
  following : ∀ {s s' : TokenStream}, streams s s' →
    s.peekNext.Corresponds tokens errors s'.peekNext ∨
      passed s.advance ∧ ∀ e, s.peekNext = .error e → ignored (.token (.lexical e))
  advance : ∀ {s s' : TokenStream}, streams s s' → streams s.advance s'.advance ∨ passed s.advance
  passed_advance : ∀ {s : TokenStream}, passed s → passed s.advance
  unexpected : ∀ {s s' : TokenStream} {t u : Token} (expected : String), streams s s' →
    tokens t u → errors (.token (s.unexpected expected t)) (.token (s'.unexpected expected u))
  symbol : ∀ {t u : Token} (e : SymbolError), tokens t u →
    errors (.symbol e t.start) (.symbol e u.start)
  redeclared : ∀ {t u : Token} (name : String), tokens t u →
    errors (.redeclared name t.start) (.redeclared name u.start)

/-- Streams that are alike to their ends. -/
def Coupling.toPartial (c : Coupling) : PartialCoupling where
  streams := c.streams
  passed _ := False
  tokens := c.tokens
  errors := c.errors
  ignored _ := False
  kind := c.kind
  text := c.text
  refl _ passed := passed.elim
  current := c.current
  following alike := .inl (c.following alike)
  advance alike := .inl (c.advance alike)
  passed_advance := id
  unexpected := c.unexpected
  symbol := c.symbol
  redeclared := c.redeclared

namespace PartialCoupling

variable {α α' β β' : Type}

/-- Two compilations that have come equally far. -/
structure Alike (c : PartialCoupling) (p q : Progress) : Prop where
  stream : c.streams p.stream q.stream
  symbols : p.symbols = q.symbols
  labels : p.labels = q.labels

/-- The first compilation has passed what the two have in common, or has looked behind it. -/
def Behind (c : PartialCoupling) (related : α → β → Prop) : EStateM.Result Stop Progress α → Prop
  | .ok a p => c.passed p.stream ∧ ∃ b, related a b
  | .error (.failed e) p => c.passed p.stream ∨ c.ignored e
  | .error (.defect _) _ => True

/-- The results of two steps correspond. -/
inductive Meets (c : PartialCoupling) (related : α → β → Prop) :
    EStateM.Result Stop Progress α → EStateM.Result Stop Progress β → Prop
  | ok {a : α} {b : β} {p q : Progress} (results : related a b) (alike : c.Alike p q) :
    Meets c related (.ok a p) (.ok b q)
  | failed {e e' : CompileError} {p q : Progress} (errors : c.errors e e') :
    Meets c related (.error (.failed e) p) (.error (.failed e') q)
  | leftDefect {d : Defect} {p : Progress} {r : EStateM.Result Stop Progress β} :
    Meets c related (.error (.defect d) p) r
  | rightDefect {d : Defect} {q : Progress} {r : EStateM.Result Stop Progress α} :
    Meets c related r (.error (.defect d) q)
  | behind {r : EStateM.Result Stop Progress α} {r' : EStateM.Result Stop Progress β}
    (left : c.Behind related r) : Meets c related r r'

/-- Two steps that are taken from progresses alike lead to progresses alike, or fail alike.  Behind
what the two compilations have in common, the first of them stays there. -/
structure InStep (c : PartialCoupling) (x : Step α) (y : Step β) (related : α → β → Prop) :
    Prop where
  meets : ∀ p q, c.Alike p q → c.Meets related (x p) (y q)
  behind : ∀ p, c.passed p.stream → c.Behind related (x p)

variable {c : PartialCoupling} {x : Step α} {y : Step β} {f : α → Step α'} {g : β → Step β'}
  {related : α → β → Prop} {related' : α' → β' → Prop}

/-- Streams that are alike to their ends are never passed. -/
theorem Behind.exists_defect {c : Coupling} {r : EStateM.Result Stop Progress α}
    (behind : c.toPartial.Behind related r) : ∃ d p, r = .error (.defect d) p := by
  cases r with
  | ok a p => exact behind.1.elim
  | error stop p =>
      cases stop with
      | failed e => exact (or_self_iff.mp behind).elim
      | defect d => exact ⟨d, p, rfl⟩

/-- Results may be related more loosely. -/
theorem Behind.mono {r : EStateM.Result Stop Progress α} {weaker : α → β → Prop}
    (behind : c.Behind related r) (implies : ∀ a b, related a b → weaker a b) :
    c.Behind weaker r := by
  cases r with
  | ok a p => exact ⟨behind.1, behind.2.imp fun b => implies a b⟩
  | error stop p => cases stop <;> exact behind

/-- The first compilation stays behind the common part, since streams only go on. -/
theorem Behind.bind {p : Progress} (first : c.Behind related (x p))
    (second : ∀ a b q, related a b → c.passed q.stream → c.Behind related' (f a q)) :
    c.Behind related' ((x >>= f) p) := by
  simp only [Bind.bind, EStateM.bind]
  generalize x p = left at first
  cases left with
  | ok a q =>
      rcases first with ⟨passed, b, results⟩
      exact second a b q results passed
  | error stop q => cases stop <;> exact first

/-- Steps that meet are followed by steps that meet.  If one compilation fails here, nothing of the
second steps is run. -/
theorem Meets.bind {p q : Progress} (first : c.Meets related (x p) (y q))
    (second : ∀ a b, related a b → c.InStep (f a) (g b) related') :
    c.Meets related' ((x >>= f) p) ((y >>= g) q) := by
  have continued (left : c.Behind related (x p)) : c.Behind related' ((x >>= f) p) :=
    left.bind fun a b r results => (second a b results).behind r
  simp only [Bind.bind, EStateM.bind] at continued ⊢
  generalize x p = left, y q = right at first continued
  cases first with
  | ok results alike => exact (second _ _ results).meets _ _ alike
  | failed errors => exact .failed errors
  | leftDefect => exact .leftDefect
  | rightDefect => exact .rightDefect
  | behind left => exact .behind (continued left)

/-- Steps are put together.  This is what the proofs about the functions of the compiler are made
of. -/
theorem InStep.bind (first : c.InStep x y related)
    (second : ∀ a b, related a b → c.InStep (f a) (g b) related') :
    c.InStep (x >>= f) (y >>= g) related' where
  meets p q alike := (first.meets p q alike).bind second
  behind p passed := (first.behind p passed).bind fun a b q results => (second a b results).behind q

/-- Behind steps with equal results, only equal results have to be considered. -/
theorem InStep.bind_eq {y : Step α} {g : α → Step β'} (first : c.InStep x y Eq)
    (second : ∀ a, c.InStep (f a) (g a) related') : c.InStep (x >>= f) (y >>= g) related' :=
  first.bind fun a _ same => same ▸ second a

/-- Results may be related more loosely. -/
theorem InStep.mono {weaker : α → β → Prop} (inStep : c.InStep x y related)
    (implies : ∀ a b, related a b → weaker a b) : c.InStep x y weaker where
  meets p q alike := by
    have meets := inStep.meets p q alike
    generalize x p = left, y q = right at meets ⊢
    cases meets with
    | ok results alike => exact .ok (implies _ _ results) alike
    | failed errors => exact .failed errors
    | leftDefect => exact .leftDefect
    | rightDefect => exact .rightDefect
    | behind left => exact .behind (left.mono implies)
  behind p passed := (inStep.behind p passed).mono implies

/-! ## Elementary steps -/

/-- Nothing moves, and the results correspond. -/
theorem inStep_pure {a : α} {b : β} (results : related a b) :
    c.InStep (pure a) (pure b) related where
  meets _ _ alike := .ok results alike
  behind _ passed := ⟨passed, b, results⟩

/-- Nothing is said about a compilation that runs out of steps. -/
theorem inStep_exhausted_left : c.InStep Step.exhausted y related where
  meets _ _ _ := .leftDefect
  behind _ _ := trivial

/-- A step that keeps up with any other keeps up with one that reaches its bound. -/
theorem InStep.exhausted_right {z : Step β} (inStep : c.InStep x z related) :
    c.InStep x Step.exhausted related where
  meets _ _ _ := .rightDefect
  behind := inStep.behind

/-- The second of two steps may reach its bound at once, or it takes a part of it. -/
theorem inStep_of_bound {z : Nat → Step β} (zero : z 0 = Step.exhausted)
    (succ : ∀ bound, c.InStep x (z (bound + 1)) related) (bound : Nat) :
    c.InStep x (z bound) related := by
  cases bound with
  | zero =>
      rw [zero]
      exact (succ 0).exhausted_right
  | succ bound => exact succ bound

/-- Two tokens are passed, unless the first is the last that the two compilations have in common. -/
theorem Alike.meets_advance {p q : Progress} (alike : c.Alike p q) {a : α} {b : β}
    (results : related a b) :
    c.Meets related (.ok a { p with stream := p.stream.advance })
      (.ok b { q with stream := q.stream.advance }) := by
  rcases c.advance alike.stream with streams | passed
  · exact .ok results ⟨streams, alike.symbols, alike.labels⟩
  · exact .behind ⟨passed, b, results⟩

/-- Both compilations see corresponding tokens, or corresponding errors. -/
theorem inStep_peek : c.InStep Step.peek Step.peek c.tokens where
  meets p q alike := by
    have items := c.current alike.stream
    unfold Step.peek TokenStream.peek
    cases current : p.stream.current <;> cases current' : q.stream.current <;>
      rw [current, current'] at items
    · exact .failed items
    · exact items.elim
    · exact items.elim
    · exact .ok items alike
  behind p passed := by
    unfold Step.peek TokenStream.peek
    cases p.stream.current with
    | ok t => exact ⟨passed, t, c.refl t passed⟩
    | error e => exact .inl passed

/-- Both streams go one token on. -/
theorem inStep_skip : c.InStep Step.skip Step.skip Eq where
  meets _ _ alike := alike.meets_advance rfl
  behind _ passed := ⟨c.passed_advance passed, (), rfl⟩

/-- Complaints about corresponding tokens correspond. -/
theorem inStep_unexpected {t u : Token} (expected : String) (tokens : c.tokens t u) :
    c.InStep (Step.unexpected expected t) (Step.unexpected expected u) related where
  meets _ _ alike := .failed (c.unexpected expected alike.stream tokens)
  behind _ passed := .inl passed

theorem inStep_redeclared {t u : Token} (name : String) (tokens : c.tokens t u) :
    c.InStep (Step.fail (.redeclared name t.start)) (Step.fail (.redeclared name u.start))
      related where
  meets _ _ _ := .failed (c.redeclared name tokens)
  behind _ passed := .inl passed

/-- Corresponding tokens have one kind, so both compilations accept it or neither does. -/
theorem inStep_accept (kind : TokenKind) :
    c.InStep (Step.accept kind) (Step.accept kind) Eq where
  meets p q alike := by
    have items := c.current alike.stream
    unfold Step.accept TokenStream.accept
    cases current : p.stream.current <;> cases current' : q.stream.current <;>
      rw [current, current'] at items
    · exact .failed items
    · exact items.elim
    · exact items.elim
    · rename_i t u
      simp only [c.kind items]
      by_cases same : u.kind = kind
      · simp only [if_pos same]
        exact alike.meets_advance rfl
      · simp only [if_neg same]
        exact .ok rfl alike
  behind p passed := by
    unfold Step.accept TokenStream.accept
    cases p.stream.current with
    | error e => exact .inl passed
    | ok t =>
        by_cases same : t.kind = kind
        · simp only [if_pos same]
          exact ⟨c.passed_advance passed, true, rfl⟩
        · simp only [if_neg same]
          exact ⟨passed, false, rfl⟩

/-- Both compilations consume corresponding tokens or complain about them. -/
theorem inStep_consume (kind : TokenKind) :
    c.InStep (Step.consume kind) (Step.consume kind) c.tokens where
  meets p q alike := by
    have items := c.current alike.stream
    unfold Step.consume TokenStream.consume TokenStream.consumeIf
    cases current : p.stream.current <;> cases current' : q.stream.current <;>
      rw [current, current'] at items
    · exact .failed items
    · exact items.elim
    · exact items.elim
    · rename_i t u
      simp only [List.mem_singleton, c.kind items]
      by_cases same : u.kind = kind
      · simp only [if_pos same]
        exact alike.meets_advance items
      · simp only [if_neg same]
        exact .failed (c.unexpected _ alike.stream items)
  behind p passed := by
    unfold Step.consume TokenStream.consume TokenStream.consumeIf
    cases p.stream.current with
    | error e => exact .inl passed
    | ok t =>
        simp only [List.mem_singleton]
        by_cases same : t.kind = kind
        · simp only [if_pos same]
          exact ⟨c.passed_advance passed, t, c.refl t passed⟩
        · simp only [if_neg same]
          exact .inl passed

theorem inStep_symbol (s : Punctuation) : c.InStep (Step.symbol s) (Step.symbol s) Eq :=
  (inStep_consume _).bind fun _ _ _ => inStep_pure rfl

/-- The commands may differ, because nothing looks at them. -/
theorem inStep_emit (commands commands' : List Command) :
    c.InStep (Step.emit commands) (Step.emit commands') Eq where
  meets _ _ alike := .ok rfl ⟨alike.stream, alike.symbols, alike.labels⟩
  behind _ passed := ⟨passed, (), rfl⟩

/-- Events are not looked at, so any two of them do. -/
theorem inStep_record (e e' : Event) : c.InStep (Step.record e) (Step.record e') Eq where
  meets _ _ alike := .ok rfl ⟨alike.stream, alike.symbols, alike.labels⟩
  behind _ passed := ⟨passed, (), rfl⟩

/-- The numbers of commands may differ; they only go into the log. -/
theorem inStep_codeSize : c.InStep Step.codeSize Step.codeSize fun _ _ => True where
  meets _ _ alike := .ok trivial alike
  behind p passed := ⟨passed, p.code.size, trivial⟩

/-- Both compilations have taken equally many label numbers. -/
theorem inStep_freshLabel : c.InStep Step.freshLabel Step.freshLabel Eq where
  meets _ _ alike :=
    .ok alike.labels ⟨alike.stream, alike.symbols, congrArg (· + 1) alike.labels⟩
  behind _ passed := ⟨passed, _, rfl⟩

/-- Both compilations know the same symbols. -/
theorem inStep_symbol? (name : String) :
    c.InStep (Step.symbol? name) (Step.symbol? name) Eq where
  meets _ _ alike := .ok (congrArg (SymbolTable.get? · name) alike.symbols) alike
  behind _ passed := ⟨passed, _, rfl⟩

theorem inStep_count (kind : SymbolKind) : c.InStep (Step.count kind) (Step.count kind) Eq where
  meets _ _ alike := .ok (congrArg (SymbolTable.count · kind) alike.symbols) alike
  behind _ passed := ⟨passed, _, rfl⟩

theorem inStep_startSubroutine : c.InStep Step.startSubroutine Step.startSubroutine Eq where
  meets _ _ alike :=
    .ok rfl ⟨alike.stream, congrArg SymbolTable.startSubroutine alike.symbols, alike.labels⟩
  behind _ passed := ⟨passed, (), rfl⟩

/-- Corresponding tokens have one text, and so they are the same symbol or unknown to both. -/
theorem inStep_resolve {t u : Token} (tokens : c.tokens t u) :
    c.InStep (Step.resolve t) (Step.resolve u) Eq where
  meets p q alike := by
    rw [Step.resolve_eq, Step.resolve_eq, c.text tokens, alike.symbols]
    cases q.symbols.lookup u.text with
    | ok s => exact .ok rfl alike
    | error e => exact .failed (c.symbol e tokens)
  behind p passed := by
    rw [Step.resolve_eq]
    cases p.symbols.lookup t.text with
    | ok s => exact ⟨passed, s, rfl⟩
    | error e => exact .inl passed

/-- Both compilations define the symbol or find no room for it, each with the place of its own
token. -/
theorem inStep_locate_define {t u : Token} (name type : String) (kind : SymbolKind)
    (tokens : c.tokens t u) :
    c.InStep (Step.locate t.start (Step.define name type kind))
      (Step.locate u.start (Step.define name type kind)) Eq where
  meets p q alike := by
    rw [Step.locate_define, Step.locate_define, alike.symbols]
    cases q.symbols.define name type kind with
    | ok defined => exact .ok rfl ⟨alike.stream, rfl, alike.labels⟩
    | error e => exact .failed (c.symbol e tokens)
  behind p passed := by
    rw [Step.locate_define]
    cases p.symbols.define name type kind with
    | ok defined => exact ⟨passed, _, rfl⟩
    | error e => exact .inl passed

theorem inStep_define (name type : String) (kind : SymbolKind) :
    c.InStep (Step.define name type kind) (Step.define name type kind) Eq where
  meets p q alike := by
    unfold Step.define
    rw [alike.symbols]
    cases q.symbols.define name type kind with
    | ok defined => exact .ok rfl ⟨alike.stream, rfl, alike.labels⟩
    | error e => exact .leftDefect
  behind p passed := by
    unfold Step.define
    cases p.symbols.define name type kind with
    | ok defined => exact ⟨passed, _, rfl⟩
    | error e => exact trivial

/-! ## A look behind a name -/

/-- The steps keep up with each other where a given token is the current one of the first. -/
structure InStepAt (c : PartialCoupling) (t : Token) (x : Step α) (y : Step β)
    (related : α → β → Prop) : Prop where
  meets : ∀ p q, p.stream.current = .ok t → c.Alike p q → c.Meets related (x p) (y q)
  behind : ∀ p, c.passed p.stream → c.Behind related (x p)

/-- A step that is in step from anywhere is so behind a given token. -/
theorem InStep.at {t : Token} (inStep : c.InStep x y related) : c.InStepAt t x y related where
  meets p q _ := inStep.meets p q
  behind := inStep.behind

/-- What comes behind a look may rely on the token that was seen. -/
theorem inStep_peek_bind {f : Token → Step α} {g : Token → Step β}
    (second : ∀ t u, c.tokens t u → c.InStepAt t (f t) (g u) related) :
    c.InStep (Step.peek >>= f) (Step.peek >>= g) related where
  meets p q alike := by
    have items := c.current alike.stream
    simp only [Bind.bind, EStateM.bind, Step.peek, TokenStream.peek]
    cases current : p.stream.current <;> cases current' : q.stream.current <;>
      rw [current, current'] at items
    · exact .failed items
    · exact items.elim
    · exact items.elim
    · exact (second _ _ items).meets p q current alike
  behind p passed := by
    simp only [Bind.bind, EStateM.bind, Step.peek, TokenStream.peek]
    cases p.stream.current with
    | ok t => exact (second t t (c.refl t passed)).behind p passed
    | error e => exact .inl passed

/-- The steps start by passing a name.  So the first of them leaves what the two compilations have
in common if the name is the last token of it. -/
structure OpensWithName (c : PartialCoupling) (x : Step α) (y : Step β) (related : α → β → Prop) :
    Prop where
  inStep : c.InStep x y related
  leaves : ∀ p t, p.stream.current = .ok t → t.kind = .identifier → c.passed p.stream.advance →
    c.Behind related (x p)

/-- A step that begins with a name has passed a token before it goes on. -/
theorem opensWithName {f : Token → Step α} {g : Token → Step β}
    (second : ∀ t u, c.tokens t u → c.InStep (f t) (g u) related) :
    c.OpensWithName (Step.consume .identifier >>= f) (Step.consume .identifier >>= g) related where
  inStep := (inStep_consume _).bind second
  leaves p t current name passed := by
    simp only [Bind.bind, EStateM.bind, Step.consume, TokenStream.consume, TokenStream.consumeIf,
      current, List.mem_singleton, name, if_true]
    exact (second t t (c.refl t passed)).behind _ passed

/-- Only the first of several steps needs to begin with a name. -/
theorem OpensWithName.bind (first : c.OpensWithName x y related)
    (second : ∀ a b, related a b → c.InStep (f a) (g b) related') :
    c.OpensWithName (x >>= f) (y >>= g) related' where
  inStep := first.inStep.bind second
  leaves p t current name passed :=
    (first.leaves p t current name passed).bind fun a b q results => (second a b results).behind q

/-- Behind steps with equal results, only equal results have to be considered. -/
theorem OpensWithName.bind_eq {y : Step α} {g : α → Step β'} (first : c.OpensWithName x y Eq)
    (second : ∀ a, c.InStep (f a) (g a) related') : c.OpensWithName (x >>= f) (y >>= g) related' :=
  first.bind fun a _ same => same ▸ second a

/-- Nothing is said about a compilation that runs out of steps. -/
theorem opensWithName_exhausted_left : c.OpensWithName Step.exhausted y related where
  inStep := inStep_exhausted_left
  leaves _ _ _ _ _ := trivial

theorem OpensWithName.exhausted_right {z : Step β} (opens : c.OpensWithName x z related) :
    c.OpensWithName x Step.exhausted related where
  inStep := opens.inStep.exhausted_right
  leaves := opens.leaves

/-- A look behind a name that is the last token in common may find anything.  This does no harm, as
the name is passed next in any case. -/
theorem inStepAt_peekNext_bind {t : Token} {f : Token → Step α} {g : Token → Step β}
    (name : t.kind = .identifier)
    (second : ∀ u u', u.kind = u'.kind → c.OpensWithName (f u) (g u') related) :
    c.InStepAt t (Step.peekNext >>= f) (Step.peekNext >>= g) related where
  meets p q current alike := by
    simp only [Bind.bind, EStateM.bind, Step.peekNext]
    rcases c.following alike.stream with items | ⟨passed, ignored⟩
    · cases following : p.stream.peekNext <;> cases following' : q.stream.peekNext <;>
        rw [following, following'] at items
      · exact .failed items
      · exact items.elim
      · exact items.elim
      · exact (second _ _ (c.kind items)).inStep.meets p q alike
    · cases following : p.stream.peekNext with
      | error e => exact .behind (.inr (ignored e following))
      | ok u => exact .behind ((second u u rfl).leaves p t current name passed)
  behind p passed := by
    simp only [Bind.bind, EStateM.bind, Step.peekNext]
    cases p.stream.peekNext with
    | error e => exact .inl passed
    | ok u => exact (second u u rfl).inStep.behind p passed

end PartialCoupling

end Jack
