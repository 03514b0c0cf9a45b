import Jack.Compiler.Expression
import Jack.Proofs.Grammar.Follow
import Jack.Proofs.Stream.Reading

namespace Jack

/-!
# Steps that succeed

`Step.Succeeds` is the total correctness of a step, apart from the bound on the number of steps: the
step does not fail, and if the bound suffices, its result and its progress satisfy a given
condition.  Most conditions say that the progress stands in front of the lexemes that are left and
that its symbols are the same as before (`Progress.InFront`).
-/

/-- The progress has given symbols, and its stream reads lexemes up to another stream. -/
structure Progress.InFront (p : Progress) (symbols : SymbolTable) (lexemes : List Lexeme)
    (s : TokenStream) : Prop where
  symbols : p.symbols = symbols
  reads : p.stream.Reads lexemes s
  spelled : p.stream.Spelled

/-- Steps that do not read leave a progress in front of the same lexemes. -/
theorem Progress.InFront.unread {p q : Progress} {symbols : SymbolTable} {lexemes : List Lexeme}
    {s : TokenStream} (front : p.InFront symbols lexemes s) (sameStream : q.stream = p.stream) :
    q.InFront q.symbols lexemes s where
  symbols := rfl
  reads := sameStream ▸ front.reads
  spelled := sameStream ▸ front.spelled

/-- In front of lexemes, the current token and the next progress are those of the first lexeme. -/
theorem Progress.InFront.current {p : Progress} {symbols : SymbolTable} {l : Lexeme}
    {rest : List Lexeme} {s : TokenStream} (front : p.InFront symbols (l :: rest) s) :
    ∃ t, p.stream.current = .ok t ∧ t.kind ≠ .endOfFile ∧ t.lexeme = l ∧
      ∀ q : Progress, q.symbols = p.symbols → q.stream = p.stream.advance →
        q.InFront symbols rest s := by
  rcases front.reads.of_cons with ⟨t, current, more, same, behind⟩
  refine ⟨t, current, more, same, fun q sameSymbols sameStream => ⟨?_, ?_, ?_⟩⟩
  · rw [sameSymbols, front.symbols]
  · rwa [sameStream]
  · rw [sameStream]
    exact TokenStream.spelled_advance front.spelled

namespace Step

variable {α β : Type} {p : Progress} {symbols : SymbolTable} {l : Lexeme} {rest : List Lexeme}
  {s : TokenStream}

/-- The step is not refused, and its success satisfies the condition. -/
def Succeeds (x : Step α) (p : Progress) (post : α → Progress → Prop) : Prop :=
  match x p with
  | .ok a q => post a q
  | .error (.defect _) _ => True
  | .error (.failed _) _ => False

/-- One successful run is enough, since a step has one result. -/
theorem Succeeds.of_ok {x : Step α} {a : α} {q : Progress} {post : α → Progress → Prop}
    (run : x p = .ok a q) (holds : post a q) : x.Succeeds p post := by
  rw [Succeeds, run]
  exact holds

/-- An exhausted bound is no complaint about the source.  That the bound is large enough is shown
elsewhere, without a word about what is read. -/
theorem succeeds_exhausted {post : α → Progress → Prop} : (exhausted : Step α).Succeeds p post :=
  trivial

theorem succeeds_pure {a : α} {post : α → Progress → Prop} (holds : post a p) :
    (pure a : Step α).Succeeds p post := holds

/-- Less may be asked for behind the same step. -/
theorem Succeeds.mono {x : Step α} {post weaker : α → Progress → Prop}
    (succeeds : x.Succeeds p post) (implies : ∀ a q, post a q → weaker a q) :
    x.Succeeds p weaker := by
  unfold Succeeds at *
  cases result : x p with
  | ok a q =>
      rw [result] at succeeds
      exact implies a q succeeds
  | error stop q =>
      rw [result] at succeeds
      cases stop with
      | failed e => exact succeeds
      | defect d => trivial

/-- A condition between two steps. -/
theorem Succeeds.bind {x : Step α} {f : α → Step β} {middle : α → Progress → Prop}
    {post : β → Progress → Prop} (first : x.Succeeds p middle)
    (second : ∀ a q, middle a q → (f a).Succeeds q post) : (x >>= f).Succeeds p post := by
  unfold Succeeds at *
  simp only [Bind.bind, EStateM.bind]
  cases result : x p with
  | ok a q =>
      rw [result] at first
      exact second a q first
  | error stop q =>
      rw [result] at first
      cases stop with
      | failed e => exact first
      | defect d => trivial

/-! ## Elementary steps -/

/-- A look at a token leaves everything in its place. -/
theorem succeeds_peek_bind {f : Token → Step β} {t : Token} {post : β → Progress → Prop}
    (current : p.stream.current = .ok t) (behind : (f t).Succeeds p post) :
    (peek >>= f).Succeeds p post := by
  have peeked : peek p = .ok t p := by
    simp only [peek, TokenStream.peek, current]
  have same : peek.Succeeds p fun u q => u = t ∧ q = p := Succeeds.of_ok peeked ⟨rfl, rfl⟩
  exact same.bind fun u q ⟨sameToken, samePlace⟩ => by rwa [sameToken, samePlace]

/-- A look at the token behind the current one leaves everything in its place.  There has to be a
token behind it, and so the end of file is left out. -/
theorem succeeds_peekNext_bind {f : Token → Step β} {t u : Token} {post : β → Progress → Prop}
    (current : p.stream.current = .ok t) (more : t.kind ≠ .endOfFile)
    (following : p.stream.advance.current = .ok u) (behind : (f u).Succeeds p post) :
    (peekNext >>= f).Succeeds p post := by
  have peeked : peekNext p = .ok u p := by
    simp only [peekNext, TokenStream.peekNext_eq current more, following]
  have same : peekNext.Succeeds p fun v q => v = u ∧ q = p := Succeeds.of_ok peeked ⟨rfl, rfl⟩
  exact same.bind fun v q ⟨sameToken, samePlace⟩ => by rwa [sameToken, samePlace]

/-- A token that has been looked at is passed, whatever it is. -/
theorem succeeds_skip (front : p.InFront symbols (l :: rest) s) :
    skip.Succeeds p fun _ q => q.InFront symbols rest s := by
  rcases front.current with ⟨t, -, -, -, next⟩
  exact next _ rfl rfl

/-- A token of the kind that is asked for is consumed. -/
theorem succeeds_consume (front : p.InFront symbols (l :: rest) s) {kind : TokenKind}
    (sameKind : l.kind = kind) :
    (consume kind).Succeeds p fun t q => t.lexeme = l ∧ q.InFront symbols rest s := by
  rcases front.current with ⟨t, current, -, same, next⟩
  have kindEq : t.kind = kind := (Token.kind_of_lexeme_eq same).trans sameKind
  have consumed : p.stream.consume kind = .ok (t, p.stream.advance) := by
    simp only [TokenStream.consume, TokenStream.consumeIf, current, kindEq, List.mem_singleton,
      if_true]
  apply Succeeds.of_ok (a := t) (q := { p with stream := p.stream.advance })
  · simp only [consume, consumed]
  · exact ⟨same, next _ rfl rfl⟩

theorem succeeds_consume_identifier {name : String}
    (front : p.InFront symbols (.identifier name :: rest) s) :
    (consume .identifier).Succeeds p fun t q => t.text = name ∧ q.InFront symbols rest s :=
  (succeeds_consume front rfl).mono fun _ _ ⟨same, behind⟩ =>
    ⟨Token.text_of_lexeme_eq_identifier same, behind⟩

theorem succeeds_symbol {c : Punctuation} (front : p.InFront symbols (.symbol c :: rest) s) :
    (symbol c).Succeeds p fun _ q => q.InFront symbols rest s :=
  (succeeds_consume front rfl).bind fun _ _ ⟨_, behind⟩ => behind

/-- A token that stands there is accepted. -/
theorem succeeds_accept (front : p.InFront symbols (l :: rest) s) {kind : TokenKind}
    (sameKind : l.kind = kind) :
    (accept kind).Succeeds p fun found q => found = true ∧ q.InFront symbols rest s := by
  rcases front.current with ⟨t, current, -, same, next⟩
  have kindEq : t.kind = kind := (Token.kind_of_lexeme_eq same).trans sameKind
  have accepted : p.stream.accept kind = .ok (true, p.stream.advance) := by
    simp only [TokenStream.accept, current, kindEq, if_true]
  apply Succeeds.of_ok (a := true) (q := { p with stream := p.stream.advance })
  · simp only [accept, accepted]
  · exact ⟨rfl, next _ rfl rfl⟩

/-- A token that does not stand there is not accepted, and nothing changes. -/
theorem succeeds_accept_other {kind : TokenKind} (front : p.InFront symbols rest s)
    (other : Begins (fun k => k ≠ kind) rest) :
    (accept kind).Succeeds p fun found q => found = false ∧ q.InFront symbols rest s := by
  rcases other with ⟨l, more, rfl, differs⟩
  rcases front.current with ⟨t, current, -, same, -⟩
  have kindNe : t.kind ≠ kind := by
    rw [Token.kind_of_lexeme_eq same]
    exact of_decide_eq_true differs
  have accepted : p.stream.accept kind = .ok (false, p.stream) := by
    simp only [TokenStream.accept, current, kindNe, if_false]
  apply Succeeds.of_ok (a := false) (q := p)
  · simp only [accept, accepted]
  · exact ⟨rfl, front⟩

/-- Emitting commands moves neither the tokens nor the symbols. -/
theorem succeeds_emit {commands : List Command} (front : p.InFront symbols rest s) :
    (emit commands).Succeeds p fun _ q => q.InFront symbols rest s :=
  ⟨front.symbols, front.reads, front.spelled⟩

theorem succeeds_freshLabel (front : p.InFront symbols rest s) :
    freshLabel.Succeeds p fun _ q => q.InFront symbols rest s :=
  ⟨front.symbols, front.reads, front.spelled⟩

/-- Looking up a name never fails; it may find nothing. -/
theorem succeeds_symbol? {name : String} (front : p.InFront symbols rest s) :
    (symbol? name).Succeeds p fun found q =>
      found = symbols.get? name ∧ q.InFront symbols rest s :=
  ⟨by rw [front.symbols], front⟩

/-- A declared name is resolved. -/
theorem succeeds_resolve {name : Token} (front : p.InFront symbols rest s)
    (declared : (symbols.get? name.text).isSome = true) :
    (resolve name).Succeeds p fun _ q => q.InFront symbols rest s := by
  rcases Option.isSome_iff_exists.mp declared with ⟨found, same⟩
  rw [← front.symbols] at same
  apply Succeeds.of_ok (a := found) (q := p)
  · simp only [resolve_eq, SymbolTable.lookup, same]
  · exact front

end Step

end Jack
