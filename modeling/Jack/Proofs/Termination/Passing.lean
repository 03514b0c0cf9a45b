import Jack.Compiler.Bound
import Jack.Proofs.Stream.Items

namespace Jack

/-!
# Passing tokens

Compilation only moves forward, and it passes the end of file at most once, as the last thing it
does.  Here two steps are run side by side from one progress (`Step.Alike`): they do the same, and
the tokens that they pass are counted from some earlier progress on.  The steps out of which the
compiler is made either leave the stream alone (`Step.Still`) or pass a token.
-/

/-- Each lexeme that is read leaves one token fewer. -/
theorem TokenStream.Reads.remaining_le {s s' : TokenStream} {lexemes : List Lexeme}
    (reads : s.Reads lexemes s') : s'.remaining + lexemes.length ≤ s.remaining := by
  induction reads with
  | nil s => exact Nat.le_refl _
  | @cons s s' t rest current more _ inductionHypothesis =>
      have less := TokenStream.remaining_advance_lt current more
      rw [List.length_cons]
      omega

/-- The way from one progress to another passes at least so many tokens, and not the end of file. -/
def Progress.Advances (p : Progress) (n : Nat) (q : Progress) : Prop :=
  ∃ lexemes, p.stream.Reads lexemes q.stream ∧ n ≤ lexemes.length

namespace Progress.Advances

variable {p q r : Progress} {m n : Nat}

theorem refl (p : Progress) : p.Advances 0 p := ⟨[], .nil _, Nat.le_refl 0⟩

/-- Tokens that are passed one behind the other add up. -/
theorem trans (first : p.Advances m q) (second : q.Advances n r) : p.Advances (m + n) r := by
  rcases first with ⟨lexemes, reads, enough⟩
  rcases second with ⟨lexemes', reads', enough'⟩
  refine ⟨lexemes ++ lexemes', reads.append reads', ?_⟩
  rw [List.length_append]
  exact Nat.add_le_add enough enough'

/-- At least so many are at least fewer. -/
theorem mono (passes : p.Advances n q) (fewer : m ≤ n) : p.Advances m q := by
  rcases passes with ⟨lexemes, reads, enough⟩
  exact ⟨lexemes, reads, Nat.le_trans fewer enough⟩

/-- The position counts the tokens that are passed. -/
theorem position_le (passes : p.Advances n q) : p.stream.position + n ≤ q.stream.position := by
  rcases passes with ⟨lexemes, reads, enough⟩
  rw [reads.position_eq]
  exact Nat.add_le_add_left enough _

/-- Fewer tokens are left to the compilation. -/
theorem remaining_le (passes : p.Advances n q) : q.remaining + n ≤ p.remaining := by
  rcases passes with ⟨lexemes, reads, enough⟩
  have left := reads.remaining_le
  simp only [Progress.remaining]
  omega

/-- Only the stream matters. -/
theorem congr (passes : p.Advances n q) (same : r.stream = q.stream) : p.Advances n r := by
  rcases passes with ⟨lexemes, reads, enough⟩
  exact ⟨lexemes, same ▸ reads, enough⟩

end Progress.Advances

namespace Step

variable {α β : Type} {x y : Step α} {start p q : Progress} {k n : Nat}

/-- Two steps do the same at a progress, and if they succeed, at least `n` tokens have been passed
from the start on. -/
def Alike (start p : Progress) (n : Nat) (x y : Step α) : Prop :=
  x p = y p ∧ match x p with
    | .ok _ q => start.Advances n q
    | .error _ q => start.Advances 0 q

/-- At least so many are at least fewer. -/
theorem Alike.mono (alike : Alike start p n x y) (fewer : k ≤ n) : Alike start p k x y := by
  rcases alike with ⟨same, passes⟩
  refine ⟨same, ?_⟩
  cases run : x p with
  | ok a q =>
      rw [run] at passes
      exact passes.mono fewer
  | error stop q =>
      rw [run] at passes
      exact passes

/-- Tokens that have been passed before count. -/
theorem Alike.trans (passed : start.Advances k p) (alike : Alike p p n x y) :
    Alike start p (k + n) x y := by
  rcases alike with ⟨same, passes⟩
  refine ⟨same, ?_⟩
  cases run : x p with
  | ok a q =>
      rw [run] at passes
      exact passed.trans passes
  | error stop q =>
      rw [run] at passes
      exact (passed.trans passes).mono (Nat.zero_le _)

/-- One step behind another, on both sides. -/
theorem Alike.bind {f g : α → Step β} (first : Alike start p k x y)
    (behind : ∀ a q, start.Advances k q → Alike start q n (f a) (g a)) :
    Alike start p n (x >>= f) (y >>= g) := by
  rcases first with ⟨same, passes⟩
  unfold Alike
  simp only [Bind.bind, EStateM.bind]
  rw [← same]
  cases run : x p with
  | ok a q =>
      rw [run] at passes
      exact behind a q passes
  | error stop q =>
      rw [run] at passes
      exact ⟨rfl, passes⟩

/-! ## Steps that pass nothing -/

/-- The step leaves the stream where it is. -/
def Still (x : Step α) : Prop :=
  ∀ p, (reached (x p)).stream = p.stream

/-- A step that leaves the stream alone passes no token. -/
theorem Still.alike (still : x.Still) (passed : start.Advances n p) : Alike start p n x x := by
  have same := still p
  refine ⟨rfl, ?_⟩
  cases run : x p with
  | ok a q =>
      rw [run] at same
      exact passed.congr same
  | error stop q =>
      rw [run] at same
      exact (passed.congr same).mono (Nat.zero_le _)

/-- Two steps that leave the stream alone, one behind the other. -/
theorem Still.bind {f : α → Step β} (first : x.Still) (second : ∀ a, (f a).Still) :
    (x >>= f).Still := by
  intro p
  have same := first p
  simp only [Bind.bind, EStateM.bind]
  cases run : x p with
  | error stop q =>
      rw [run] at same
      exact same
  | ok a q =>
      rw [run] at same
      dsimp only at same ⊢
      rw [← same]
      exact second a q

theorem still_pure (a : α) : (pure a : Step α).Still := fun _ => rfl

theorem still_peek : peek.Still := by
  intro p
  unfold peek
  cases p.stream.peek <;> rfl

theorem still_peekNext : peekNext.Still := by
  intro p
  unfold peekNext
  cases p.stream.peekNext <;> rfl

/-- A complaint leaves the stream alone. -/
theorem still_unexpected (expected : String) (t : Token) :
    (unexpected expected t : Step α).Still := fun _ => rfl

theorem still_record (e : Event) : (record e).Still := fun _ => rfl

theorem still_count (kind : SymbolKind) : (count kind).Still := fun _ => rfl

theorem still_freshLabel : freshLabel.Still := fun _ => rfl

theorem still_startSubroutine : startSubroutine.Still := fun _ => rfl

theorem still_emit (commands : List Command) : (emit commands).Still := fun _ => rfl

theorem still_resolve (name : Token) : (resolve name).Still := by
  intro p
  rw [resolve_eq]
  cases p.symbols.lookup name.text <;> rfl

theorem still_define (name type : String) (kind : SymbolKind) :
    (define name type kind).Still := by
  intro p
  unfold define
  cases p.symbols.define name type kind <;> rfl

theorem Still.locate (still : x.Still) (place : Location) : (locate place x).Still := by
  intro p
  have same := still p
  unfold Step.locate
  cases run : x p with
  | ok a q =>
      rw [run] at same
      exact same
  | error stop q =>
      rw [run] at same
      rcases stop with _ | (_ | _ | _) <;> exact same

/-- A declaration leaves the stream alone, whether it is made or refused. -/
theorem still_declare (options : Options) (name : Token) (type : String) (kind : SymbolKind) :
    (declare options name type kind).Still := by
  refine ((still_define _ _ _).locate _).bind fun previous => ?_
  cases previous with
  | none => exact still_pure _
  | some previous =>
      dsimp only
      split
      · exact fun _ => rfl
      · exact fun _ => rfl

theorem still_binaryOperation (t : Token) : (binaryOperation t).Still := by
  unfold binaryOperation
  split
  · exact still_emit _
  · exact fun _ => rfl

theorem still_integerConstant (t : Token) : (integerConstant t).Still := by
  unfold integerConstant
  split
  · exact still_emit _
  · exact still_unexpected _ _

/-- The token of the constant has been passed before. -/
theorem still_stringConstant (t : Token) : (stringConstant t).Still := by
  unfold stringConstant
  split
  · exact still_unexpected _ _
  · split
    · exact still_unexpected _ _
    · exact still_emit _

theorem still_receiver (kind : SubroutineKind) (className : String) :
    (receiver kind className).Still := by
  cases kind with
  | method => exact (still_define _ _ _).bind fun _ => still_pure _
  | _ => exact still_pure _

/-- A look leaves the stream alone. -/
theorem still_needsJump (f : Frame) (nested : Bool) : (needsJump f nested).Still := by
  unfold needsJump
  split
  · exact still_peek.bind fun _ => still_pure _
  · exact still_pure _

/-! ## Steps that pass tokens -/

/-- After a complaint there is nothing to pass. -/
theorem alike_unexpected (expected : String) (t : Token) (passed : start.Advances k p) :
    Alike start p n (unexpected expected t : Step α) (unexpected expected t) :=
  ⟨rfl, passed.mono (Nat.zero_le _)⟩

/-- What is done with the current token may depend on which one it is. -/
theorem Alike.peek_bind {f g : Token → Step β} (passed : start.Advances 0 p)
    (behind : ∀ t, p.stream.current = .ok t → Alike start p n (f t) (g t)) :
    Alike start p n (peek >>= f) (peek >>= g) := by
  unfold Alike
  simp only [Bind.bind, EStateM.bind, peek, TokenStream.peek]
  cases current : p.stream.current with
  | ok t => exact behind t current
  | error e => exact ⟨rfl, passed⟩

/-- Skipping passes a token, except at the end of file. -/
theorem alike_skip {t : Token} (passed : start.Advances n p) (current : p.stream.current = .ok t)
    (more : t.kind ≠ .endOfFile) : Alike start p (n + 1) skip skip :=
  ⟨rfl, passed.trans ⟨[t.lexeme], .singleton current more, Nat.le_refl 1⟩⟩

/-- The first word of a statement is passed without a look at it. -/
theorem alike_skip_of_shows (passed : start.Advances n p)
    (ready : p.stream.Shows (· ≠ .endOfFile)) : Alike start p (n + 1) skip skip := by
  rcases ready with ⟨t, current, more⟩
  exact alike_skip passed current (of_decide_eq_true more)

/-- Consuming passes a token or complains.  The end of file is left out. -/
theorem alike_consume {kind : TokenKind} (passed : start.Advances n p)
    (more : kind ≠ .endOfFile) : Alike start p (n + 1) (consume kind) (consume kind) := by
  refine ⟨rfl, ?_⟩
  unfold consume TokenStream.consume TokenStream.consumeIf
  cases current : p.stream.current with
  | error e => exact passed.mono (Nat.zero_le _)
  | ok t =>
      by_cases same : t.kind = kind
      · simp only [List.mem_singleton, same, if_true]
        exact passed.trans ⟨[t.lexeme], .singleton current (same ▸ more), Nat.le_refl 1⟩
      · simp only [List.mem_singleton, same, if_false]
        exact passed.mono (Nat.zero_le _)

theorem alike_symbol {s : Punctuation} (passed : start.Advances n p) :
    Alike start p (n + 1) (symbol s) (symbol s) :=
  (alike_consume passed (by simp)).bind fun _ _ passed => (still_pure ()).alike passed

/-- A token that is accepted has been passed. -/
theorem Alike.accept_bind {kind : TokenKind} {f g : Bool → Step β} (passed : start.Advances k p)
    (more : kind ≠ .endOfFile)
    (accepted : ∀ q, start.Advances (k + 1) q → Alike start q n (f true) (g true))
    (refused : Alike start p n (f false) (g false)) :
    Alike start p n (accept kind >>= f) (accept kind >>= g) := by
  unfold Alike
  simp only [Bind.bind, EStateM.bind, accept, TokenStream.accept]
  cases current : p.stream.current with
  | error e => exact ⟨rfl, passed.mono (Nat.zero_le _)⟩
  | ok t =>
      by_cases same : t.kind = kind
      · simp only [same, if_true]
        exact accepted _
          (passed.trans ⟨[t.lexeme], .singleton current (same ▸ more), Nat.le_refl 1⟩)
      · simp only [same, if_false]
        exact refused

theorem alike_typeName (passed : start.Advances n p) :
    Alike start p (n + 1) typeName typeName := by
  refine Alike.peek_bind (passed.mono (Nat.zero_le _)) fun t current => ?_
  split
  · rename_i isType
    have more := TokenKind.ne_endOfFile_of_isType isType
    exact (alike_skip passed current more).bind fun _ _ passed => (still_pure _).alike passed
  · exact alike_unexpected _ _ passed

theorem alike_resultType (passed : start.Advances n p) :
    Alike start p (n + 1) resultType resultType := by
  refine Alike.accept_bind passed (by simp) (fun q passed => ?_) ?_
  · exact (still_pure _).alike passed
  · exact (alike_typeName passed).bind fun _ _ passed => (still_pure _).alike passed

/-- The name of what is called passes one token at least. -/
theorem alike_callee (className : String) (passed : start.Advances n p) :
    Alike start p (n + 1) (callee className) (callee className) := by
  rw [callee_eq]
  refine (alike_consume passed (by simp)).bind fun first q passed => ?_
  refine Alike.accept_bind passed (by simp) (fun q passed => ?_) ?_
  · refine (alike_consume passed (by simp)).bind fun member q passed => ?_
    have object : (symbol? first.text).Still := fun _ => rfl
    refine ((object.bind fun s => ?_).alike passed).mono (by omega)
    cases s with
    | some s => exact (still_emit _).bind fun _ => still_pure _
    | none => exact still_pure _
  · exact ((still_emit _).bind fun _ => still_pure _).alike passed

end Step

end Jack
