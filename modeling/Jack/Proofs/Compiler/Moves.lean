import Jack.Compiler.Expression
import Jack.Proofs.Stream.Reading

namespace Jack

/-!
# What one step of compilation does

Reading expressions and statements changes a progress in three ways only: the stream moves on, code
is appended, and label numbers are given away.  `Progress.moved` is the progress after such changes,
and `Progress.Goes` adds which lexemes have been read on the way.

For each elementary step there is a lemma that tells from its success where it went.
-/

/-- The progress at another token of its stream, behind more code and more label numbers. -/
def Progress.moved (p : Progress) (s : TokenStream) (commands : List Command) (labels : Nat) :
    Progress :=
  { p with stream := s, code := commands.foldl Array.push p.code, labels := p.labels + labels }

namespace Progress

variable {p q r : Progress}

/-- Two moves behind each other are one with both codes and all label numbers. -/
theorem moved_moved (p : Progress) (s s' : TokenStream) (first second : List Command)
    (n m : Nat) :
    (p.moved s first n).moved s' second m = p.moved s' (first ++ second) (n + m) := by
  simp only [moved, List.foldl_append, Nat.add_assoc]

/-- One progress leads to another by reading lexemes, appending code and giving label numbers
away. -/
def Goes (p : Progress) (lexemes : List Lexeme) (commands : List Command) (labels : Nat)
    (q : Progress) : Prop :=
  p.stream.Reads lexemes q.stream ∧ q = p.moved q.stream commands labels

theorem Goes.refl (p : Progress) : p.Goes [] [] 0 p := ⟨.nil _, rfl⟩

/-- One part of the source behind another one. -/
theorem Goes.trans {lexemes lexemes' : List Lexeme} {commands commands' : List Command}
    {n n' : Nat} (first : p.Goes lexemes commands n q)
    (second : q.Goes lexemes' commands' n' r) :
    p.Goes (lexemes ++ lexemes') (commands ++ commands') (n + n') r := by
  rcases first with ⟨reads, eq⟩
  rcases second with ⟨reads', eq'⟩
  refine ⟨reads.append reads', ?_⟩
  rw [← moved_moved p q.stream, ← eq]
  exact eq'

/-- Lexemes, commands and numbers may be written another way. -/
theorem Goes.of_eq {lexemes lexemes' : List Lexeme} {commands commands' : List Command} {n n' : Nat}
    (goes : p.Goes lexemes commands n q) (sameLexemes : lexemes' = lexemes)
    (sameCode : commands' = commands) (sameLabels : n' = n) : p.Goes lexemes' commands' n' q := by
  rwa [sameLexemes, sameCode, sameLabels]

/-- Expressions and statements declare nothing. -/
theorem Goes.symbols {lexemes : List Lexeme} {commands : List Command} {n : Nat}
    (goes : p.Goes lexemes commands n q) : q.symbols = p.symbols := by
  rw [goes.2, moved]

/-- The label numbers that a part takes are all behind those taken before. -/
theorem Goes.labels {lexemes : List Lexeme} {commands : List Command} {n : Nat}
    (goes : p.Goes lexemes commands n q) : q.labels = p.labels + n := by
  rw [goes.2, moved]

/-- What names stand for does not change on the way. -/
theorem Goes.names {lexemes : List Lexeme} {commands : List Command} {n : Nat}
    {names : String → Option Symbol} (goes : p.Goes lexemes commands n q)
    (seen : p.symbols.get? = names) : q.symbols.get? = names := by
  rw [goes.symbols, seen]

end Progress

namespace Step

variable {α β : Type} {p q r : Progress}

/-- The commands that are there when a step has succeeded. -/
def emitted? (x : Step α) (p : Progress) : Option (List Command) :=
  match x p with
  | .ok _ q => some q.code.toList
  | .error _ _ => none

/-- Commands are emitted by a step that goes well. -/
theorem emitted?_eq_some {x : Step α} {commands : List Command} :
    x.emitted? p = some commands ↔ ∃ a q, x p = .ok a q ∧ q.code.toList = commands := by
  unfold emitted?
  cases result : x p with
  | ok a q =>
      constructor
      · intro emitted
        exact ⟨a, q, rfl, Option.some.inj emitted⟩
      · rintro ⟨a', q', same, code⟩
        cases same
        exact congrArg some code
  | error stop q =>
      constructor
      · intro emitted
        cases emitted
      · rintro ⟨a', q', same, _⟩
        cases same

/-- The error for which a step fails. -/
def failure? (x : Step α) (p : Progress) : Option CompileError :=
  match x p with
  | .error (.failed e) _ => some e
  | _ => none

/-- A failure is an error that is reported, and no defect. -/
theorem failure?_eq_some {x : Step α} {e : CompileError} :
    x.failure? p = some e ↔ ∃ q, x p = .error (.failed e) q := by
  unfold failure?
  constructor
  · intro failed
    split at failed
    · rename_i q run
      cases failed
      exact ⟨q, run⟩
    · cases failed
  · rintro ⟨q, run⟩
    rw [run]

/-! ## Elementary steps -/

/-- Two steps go well if the first one does and the second one does behind it. -/
theorem bind_eq_ok {x : Step α} {f : α → Step β} {b : β} :
    (x >>= f) p = .ok b r ↔ ∃ a q, x p = .ok a q ∧ f a q = .ok b r := by
  simp only [Bind.bind, EStateM.bind]
  cases result : x p with
  | ok a q =>
      constructor
      · intro run
        exact ⟨a, q, rfl, run⟩
      · rintro ⟨a', q', same, run⟩
        cases same
        exact run
  | error stop q =>
      constructor
      · intro run
        cases run
      · rintro ⟨a', q', same, _⟩
        cases same

theorem pure_eq_ok {a b : α} : (pure a : Step α) p = .ok b q ↔ a = b ∧ p = q := by
  simp only [Pure.pure, EStateM.pure, EStateM.Result.ok.injEq]

/-- A look that goes well shows the current token and changes nothing. -/
theorem peek_ok {t : Token} (run : peek p = .ok t q) : p.stream.current = .ok t ∧ p = q := by
  unfold peek TokenStream.peek at run
  cases current : p.stream.current with
  | ok u =>
      rw [current] at run
      cases run
      exact ⟨rfl, rfl⟩
  | error e =>
      rw [current] at run
      cases run

/-- A look that goes well shows the token behind the current one and changes nothing. -/
theorem peekNext_ok {t u : Token} (run : peekNext p = .ok u q)
    (current : p.stream.current = .ok t) (more : t.kind ≠ .endOfFile) :
    p.stream.advance.current = .ok u ∧ p = q := by
  unfold peekNext at run
  rw [TokenStream.peekNext_eq current more] at run
  cases following : p.stream.advance.current with
  | ok v =>
      rw [following] at run
      cases run
      exact ⟨rfl, rfl⟩
  | error e =>
      rw [following] at run
      cases run

/-- Skipping a token goes through its lexeme, without any code. -/
theorem skip_ok {t : Token} {u : Unit} (run : skip p = .ok u q)
    (current : p.stream.current = .ok t) (more : t.kind ≠ .endOfFile) :
    p.Goes [t.lexeme] [] 0 q := by
  cases run
  exact ⟨.singleton current more, rfl⟩

/-- A token that is consumed was the current one and has the kind that was asked for. -/
theorem consume_ok {kind : TokenKind} {t : Token} (run : consume kind p = .ok t q)
    (more : kind ≠ .endOfFile) :
    p.stream.current = .ok t ∧ t.kind = kind ∧ p.Goes [t.lexeme] [] 0 q := by
  unfold consume TokenStream.consume TokenStream.consumeIf at run
  cases current : p.stream.current with
  | error e =>
      rw [current] at run
      cases run
  | ok u =>
      simp only [current, List.mem_singleton] at run
      by_cases same : u.kind = kind
      · simp only [same, if_true] at run
        cases run
        exact ⟨rfl, same, .singleton current (same ▸ more), rfl⟩
      · simp only [same, if_false, reduceCtorEq] at run

theorem consume_identifier_ok {t : Token} (run : consume .identifier p = .ok t q) :
    p.Goes [.identifier t.text] [] 0 q := by
  rcases consume_ok run (by simp only [ne_eq, reduceCtorEq, not_false_eq_true]) with ⟨-, kind, goes⟩
  rwa [Token.lexeme_eq_identifier kind] at goes

theorem consume_symbol_ok {s : Punctuation} {t : Token} (run : consume (.symbol s) p = .ok t q) :
    p.Goes [.symbol s] [] 0 q := by
  rcases consume_ok run (by simp only [ne_eq, reduceCtorEq, not_false_eq_true]) with ⟨-, kind, goes⟩
  rwa [Token.lexeme_eq_symbol kind] at goes

theorem symbol_ok {s : Punctuation} {u : Unit} (run : symbol s p = .ok u q) :
    p.Goes [.symbol s] [] 0 q := by
  rcases bind_eq_ok.mp run with ⟨t, q', consumed, rest⟩
  rcases pure_eq_ok.mp rest with ⟨-, rfl⟩
  exact consume_symbol_ok consumed

/-- Accepting a symbol or a reserved word either reads it or changes nothing. -/
theorem accept_ok {kind : TokenKind} {l : Lexeme} {found : Bool} (run : accept kind p = .ok found q)
    (more : kind ≠ .endOfFile) (only : ∀ t : Token, t.kind = kind → t.lexeme = l) :
    (found = true ∧ p.Goes [l] [] 0 q) ∨
      (found = false ∧ p = q) := by
  unfold accept TokenStream.accept at run
  cases current : p.stream.current with
  | error e =>
      rw [current] at run
      cases run
  | ok t =>
      simp only [current] at run
      by_cases same : t.kind = kind
      · simp only [same, if_true] at run
        cases run
        have reads := TokenStream.Reads.singleton current (same ▸ more)
        rw [only t same] at reads
        exact .inl ⟨rfl, reads, rfl⟩
      · simp only [same, if_false] at run
        cases run
        exact .inr ⟨rfl, rfl⟩

/-- A symbol that may be there is passed if it is there, and otherwise nothing is changed. -/
theorem accept_symbol_ok {s : Punctuation} {found : Bool}
    (run : accept (.symbol s) p = .ok found q) :
    (found = true ∧ p.Goes [.symbol s] [] 0 q) ∨
      (found = false ∧ p = q) :=
  accept_ok run (by simp only [ne_eq, reduceCtorEq, not_false_eq_true])
    fun _ => Token.lexeme_eq_symbol

/-- A word that may be there is passed if it is there, and otherwise nothing is changed. -/
theorem accept_keyword_ok {k : Keyword} {found : Bool}
    (run : accept (.keyword k) p = .ok found q) :
    (found = true ∧ p.Goes [.keyword k] [] 0 q) ∨
      (found = false ∧ p = q) :=
  accept_ok run (by simp only [ne_eq, reduceCtorEq, not_false_eq_true])
    fun _ => Token.lexeme_eq_keyword

theorem emit_ok {commands : List Command} {u : Unit} (run : emit commands p = .ok u q) :
    p.Goes [] commands 0 q := by
  cases run
  exact ⟨.nil _, rfl⟩

/-- A fresh number is the count of those taken so far. -/
theorem freshLabel_ok {id : Nat} (run : freshLabel p = .ok id q) :
    id = p.labels ∧ p.Goes [] [] 1 q := by
  cases run
  exact ⟨rfl, .nil _, rfl⟩

/-- A name that can be resolved is known to the table. -/
theorem resolve_ok {name : Token} {s : Symbol} (run : resolve name p = .ok s q) :
    p.symbols.get? name.text = some s ∧ p = q := by
  rw [resolve_eq, SymbolTable.lookup] at run
  cases found : p.symbols.get? name.text with
  | none => simp only [found, reduceCtorEq] at run
  | some s' =>
      simp only [found] at run
      cases run
      exact ⟨rfl, rfl⟩

/-- Looking up a name changes nothing and tells what the table knows. -/
theorem symbol?_ok {name : String} {found : Option Symbol} (run : symbol? name p = .ok found q) :
    found = p.symbols.get? name ∧ p = q := by
  cases run
  exact ⟨rfl, rfl⟩

/-- A complaint never goes well. -/
theorem unexpected_ne_ok {expected : String} {t : Token} {a : α} :
    unexpected expected t p ≠ .ok a q := by
  intro run
  cases run

end Step

end Jack
