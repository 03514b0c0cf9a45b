import Jack.Compiler.Expression
import Jack.Proofs.Prediction.Language
import Jack.Proofs.Stream.Reading

namespace Jack

open Computability

/-!
# Steps that predict

A step is taken in front of a language: the lexemes from the current token on that are possible
according to what has been read so far.  The step predicts if it knows at any time what is possible.
If it succeeds, it has read lexemes behind which exactly the members of another language remain; if
it stops at a faulty token, the lexemes in front of the token are possible and those up to the token
are not (`Step.Predicts`).  Steps in sequence predict if each of them does.

Faults that come from a limit of the machine are left out, and so are errors about names, because
the grammar knows of neither.
-/

/-- The error is about a limit of the machine and not about the grammar. -/
def SyntaxError.IsLimit (e : SyntaxError) : Prop :=
  e.expected ∈
    [Step.tooManyArguments, "shorter string constant", "character with code up to 32767"]

namespace TokenStream

/-- Somewhere behind the stream stands a token that no lexer makes. -/
def Misspells (s : TokenStream) : Prop := ∃ w s', s.Reads w s' ∧ ¬ s'.Spelled

/-- A badly spelled token may come later. -/
theorem Reads.misspells {s s' : TokenStream} {w : List Lexeme} (reads : s.Reads w s')
    (misspells : s'.Misspells) : s.Misspells := by
  rcases misspells with ⟨w', s'', behind, wrong⟩
  exact ⟨w ++ w', s'', reads.append behind, wrong⟩

/-- No source has badly spelled tokens; the case is there for streams in general. -/
theorem not_misspells_ofSource (source : List Char) : ¬ (ofSource source).Misspells := by
  rintro ⟨w, s, reads, wrong⟩
  exact wrong (reads.spelled (spelled_ofSource source))

/-- Between the streams, lexemes of the first language are read, and the second language remains.
Of what remains, only the members are known that begin with the current token. -/
structure ReadsOff (s s' : TokenStream) (w : List Lexeme) (before behind : Language Lexeme) :
    Prop where
  reads : s.Reads w s'
  possible : ∀ v ∈ behind, w ++ v ∈ before
  known : ∀ {t : Token} {v : List Lexeme}, s'.current = .ok t → w ++ t.lexeme :: v ∈ before →
    t.lexeme :: v ∈ behind

/-- The error is reported at the first token that is not possible, or it is the first lexical fault
and stands behind possible tokens.  Nothing is said of streams that do not come from a source. -/
def Blames (s : TokenStream) (before : Language Lexeme) : CompileError → TokenStream → Prop
  | .token (.lexical e), _ =>
    ∃ w s', s.Reads w s' ∧ s'.current = .error e ∧ Viable before w
  | .token (.syntactic e), s' =>
    (e.IsLimit ∨ s.Misspells) ∨ ∃ w, s.Reads w s' ∧ s'.current = .ok e.token ∧
      Viable before w ∧ ¬ Viable before (w ++ [e.token.lexeme])
  | _, _ => True

variable {s s' s'' : TokenStream} {before behind last : Language Lexeme} {t : Token}
  {w w' v : List Lexeme}

/-- What is read in front of a token starts with the current token, unless nothing is read. -/
theorem Reads.exists_current {t' : Token} (reads : s.Reads w s') (current' : s'.current = .ok t')
    (v : List Lexeme) :
    ∃ t v', s.current = .ok t ∧ w ++ t'.lexeme :: v = t.lexeme :: v' := by
  cases reads with
  | nil => exact ⟨t', v, current', rfl⟩
  | @cons _ _ t rest current => exact ⟨t, rest ++ t'.lexeme :: v, current, rfl⟩

/-- What is read in front of a token belongs to the language that the current token narrows down. -/
theorem Reads.mem_narrow {wide narrow : Language Lexeme} {t' : Token} (reads : s.Reads w s')
    (current : s.current = .ok t) (narrows : Narrows t.lexeme wide narrow)
    (current' : s'.current = .ok t') (member : w ++ t'.lexeme :: v ∈ wide) :
    w ++ t'.lexeme :: v ∈ narrow := by
  rcases reads.exists_current current' v with ⟨u, v', head, same⟩
  rw [current] at head
  cases head
  rw [same] at member ⊢
  exact narrows.mem v' member

namespace ReadsOff

/-- Nothing is read. -/
theorem refl : s.ReadsOff s [] before before where
  reads := .nil s
  possible _ member := member
  known _ member := member

/-- What is known at the second stream is also known at any token behind it. -/
theorem known_behind (first : s.ReadsOff s' w before behind) (reads : s'.Reads w' s'')
    (current : s''.current = .ok t) (member : w ++ (w' ++ t.lexeme :: v) ∈ before) :
    w' ++ t.lexeme :: v ∈ behind := by
  rcases reads.exists_current current v with ⟨u, v', head, same⟩
  rw [same] at member ⊢
  exact first.known head member

/-- One part is read behind another. -/
theorem trans (first : s.ReadsOff s' w before behind) (second : s'.ReadsOff s'' w' behind last) :
    s.ReadsOff s'' (w ++ w') before last where
  reads := first.reads.append second.reads
  possible v member := by
    rw [List.append_assoc]
    exact first.possible _ (second.possible v member)
  known current member := by
    rw [List.append_assoc] at member
    exact second.known current (first.known_behind second.reads current member)

/-- What is possible behind what has been read is possible from the beginning. -/
theorem viable (first : s.ReadsOff s' w before behind) (viable : Viable behind w') :
    Viable before (w ++ w') := by
  rcases viable with ⟨v, member⟩
  exact ⟨v, List.append_assoc w w' v ▸ first.possible _ member⟩

/-- An error behind the lexemes is an error of the whole. -/
theorem blames {e : CompileError} (first : s.ReadsOff s' w before behind)
    (blames : s'.Blames behind e s'') : s.Blames before e s'' := by
  cases e with
  | token e =>
      cases e with
      | lexical e =>
          rcases blames with ⟨w', last, reads, fault, viable⟩
          exact ⟨w ++ w', last, first.reads.append reads, fault, first.viable viable⟩
      | syntactic e =>
          rcases blames with limit | ⟨w', reads, current, viable, impossible⟩
          · exact .inl (limit.imp_right first.reads.misspells)
          · refine .inr ⟨w ++ w', first.reads.append reads, current, first.viable viable, ?_⟩
            rintro ⟨v, member⟩
            rw [List.append_assoc, List.append_assoc, List.singleton_append] at member
            refine impossible ⟨v, ?_⟩
            rw [List.append_assoc, List.singleton_append]
            exact first.known_behind reads current member
  | symbol e place => trivial
  | redeclared name place => trivial

/-- In front of its first lexeme, a language may be replaced by one that the lexeme narrows down. -/
theorem widen {wide : Language Lexeme} (current : s.current = .ok t)
    (narrows : Narrows t.lexeme wide before) (readsOff : s.ReadsOff s' w before behind) :
    s.ReadsOff s' w wide behind where
  reads := readsOff.reads
  possible v member := narrows.le (readsOff.possible v member)
  known current' member :=
    readsOff.known current' (readsOff.reads.mem_narrow current narrows current' member)

end ReadsOff

/-- A fault in a narrower language is one in the wider language too, if the current lexeme narrows
it down. -/
theorem Blames.widen {wide : Language Lexeme} {e : CompileError} (current : s.current = .ok t)
    (narrows : Narrows t.lexeme wide before) (blames : s.Blames before e s') :
    s.Blames wide e s' := by
  cases e with
  | token e =>
      cases e with
      | lexical e =>
          rcases blames with ⟨w, last, reads, fault, viable⟩
          exact ⟨w, last, reads, fault, viable.mono narrows.le⟩
      | syntactic e =>
          rcases blames with limit | ⟨w, reads, current', viable, impossible⟩
          · exact .inl limit
          · refine .inr ⟨w, reads, current', viable.mono narrows.le, ?_⟩
            rintro ⟨v, member⟩
            refine impossible ⟨v, ?_⟩
            rw [List.append_assoc, List.singleton_append] at member ⊢
            exact reads.mem_narrow current narrows current' member
  | symbol e place => trivial
  | redeclared name place => trivial

section Next

variable {kind : TokenKind} {wide narrow : Language Lexeme} {u : Token}

/-- A larger language may stand behind a lexeme. -/
theorem ofKind_mul_mono (le : narrow ≤ wide) : ofKind kind * narrow ≤ ofKind kind * wide :=
  mul_le_mul_right le _

/-- What is read behind the current token belongs to the language that the next one narrows down. -/
theorem Reads.mem_narrow_next {l : Lexeme} {t' : Token} (reads : s.Reads (l :: w) s')
    (next : s.advance.current = .ok u) (narrows : Narrows u.lexeme wide narrow)
    (current' : s'.current = .ok t') (member : l :: w ++ t'.lexeme :: v ∈ ofKind kind * wide) :
    l :: w ++ t'.lexeme :: v ∈ ofKind kind * narrow := by
  rcases reads.of_cons with ⟨-, -, -, -, rest⟩
  rw [List.cons_append, cons_mem_ofKind_mul] at member ⊢
  exact ⟨member.1, rest.mem_narrow next narrows current' member.2⟩

/-- The token behind the current one may narrow down what comes behind it.  Something has to be read
for this, because otherwise nothing is known of the token behind. -/
theorem ReadsOff.widen_next [Productive behind]
    (readsOff : s.ReadsOff s' w (ofKind kind * narrow) behind)
    (next : s.advance.current = .ok u) (narrows : Narrows u.lexeme wide narrow)
    (moves : BeginsWith (fun k => !decide (k = kind)) behind) :
    s.ReadsOff s' w (ofKind kind * wide) behind where
  reads := readsOff.reads
  possible v member := ofKind_mul_mono narrows.le (readsOff.possible v member)
  known {t' v} current' member := by
    have reads := readsOff.reads
    cases w with
    | nil =>
        rcases viable_nil (L := behind) with ⟨v', member'⟩
        rcases moves _ member' with ⟨l, rest, same, other⟩
        have sameKind := readsOff.possible _ member'
        rw [same] at sameKind
        rw [Bool.not_eq_true', decide_eq_false_iff_not] at other
        exact absurd (cons_mem_ofKind_mul.mp sameKind).1 other
    | cons l w =>
        exact readsOff.known current' (reads.mem_narrow_next next narrows current' member)

/-- The same with the lexeme behind the current one, which is what a look at two tokens is for. -/
theorem Blames.widen_next [Productive narrow] {e : CompileError}
    (blames : s.Blames (ofKind kind * narrow) e s') (current : s.current = .ok t)
    (sameKind : t.kind = kind) (next : s.advance.current = .ok u)
    (narrows : Narrows u.lexeme wide narrow) : s.Blames (ofKind kind * wide) e s' := by
  cases e with
  | token e =>
      cases e with
      | lexical e =>
          rcases blames with ⟨w, last, reads, fault, viable⟩
          exact ⟨w, last, reads, fault, viable.mono (ofKind_mul_mono narrows.le)⟩
      | syntactic e =>
          rcases blames with limit | ⟨w, reads, current', viable, impossible⟩
          · exact .inl limit
          · refine .inr ⟨w, reads, current', viable.mono (ofKind_mul_mono narrows.le), ?_⟩
            rintro ⟨v, member⟩
            apply impossible
            cases w with
            | nil =>
                -- The current token is possible, so it cannot be the faulty one.
                rw [reads.of_nil, current] at current'
                cases current'
                exact viable_of_kind (by rw [Token.kind_lexeme, sameKind])
            | cons l w =>
                refine ⟨v, ?_⟩
                rw [List.append_assoc, List.singleton_append] at member ⊢
                exact reads.mem_narrow_next next narrows current' member
  | symbol e place => trivial
  | redeclared name place => trivial

end Next

end TokenStream

namespace Step

variable {α β : Type} {p : Progress} {before behind last : Language Lexeme} {t : Token}
  {allowed : TokenKind → Bool} {kind : TokenKind}

/-- In front of the first language the step reads lexemes and leaves the second language, or it
stops at the first token that is not possible. -/
def Predicts (x : Step α) (p : Progress) (before behind : Language Lexeme) : Prop :=
  match x p with
  | .ok _ q => ∃ w, p.stream.ReadsOff q.stream w before behind
  | .error (.failed e) q => p.stream.Blames before e q.stream
  | .error (.defect _) _ => True

/-- Prediction is about the run from one progress. -/
theorem Predicts.congr {x y : Step α} (predicts : x.Predicts p before behind)
    (same : y p = x p) : y.Predicts p before behind := by
  unfold Predicts at *
  rwa [same]

/-- An exhausted bound is no complaint about the source. -/
theorem predicts_exhausted : (exhausted : Step α).Predicts p before behind := trivial

/-- One step behind another.  What is possible behind the first step is what is possible in front of
the second. -/
theorem Predicts.bind {x : Step α} {f : α → Step β} (first : x.Predicts p before behind)
    (second : ∀ a q, (f a).Predicts q behind last) : (x >>= f).Predicts p before last := by
  unfold Predicts at *
  simp only [Bind.bind, EStateM.bind]
  cases run : x p with
  | error stop q =>
      rw [run] at first
      cases stop <;> exact first
  | ok a q =>
      rw [run] at first
      rcases first with ⟨w, readsOff⟩
      have rest := second a q
      dsimp only
      cases run' : f a q with
      | ok b r =>
          rw [run'] at rest
          rcases rest with ⟨w', readsOff'⟩
          exact ⟨w ++ w', readsOff.trans readsOff'⟩
      | error stop r =>
          rw [run'] at rest
          cases stop with
          | failed e => exact readsOff.blames rest
          | defect d => trivial

/-- The current token narrows the language down. -/
theorem Predicts.widen {x : Step α} {wide : Language Lexeme}
    (predicts : x.Predicts p before behind) (current : p.stream.current = .ok t)
    (narrows : Narrows t.lexeme wide before) : x.Predicts p wide behind := by
  unfold Predicts at *
  cases run : x p with
  | ok a q =>
      rw [run] at predicts
      rcases predicts with ⟨w, readsOff⟩
      exact ⟨w, readsOff.widen current narrows⟩
  | error stop q =>
      rw [run] at predicts
      cases stop with
      | failed e => exact predicts.widen current narrows
      | defect d => trivial

/-- The token behind the current one narrows down what comes behind the current one. -/
theorem Predicts.widen_next {x : Step α} {wide narrow : Language Lexeme} {u : Token}
    [Productive narrow] [Productive behind]
    (predicts : x.Predicts p (ofKind kind * narrow) behind)
    (current : p.stream.current = .ok t) (sameKind : t.kind = kind)
    (next : p.stream.advance.current = .ok u) (narrows : Narrows u.lexeme wide narrow)
    (moves : BeginsWith (fun k => !decide (k = kind)) behind) :
    x.Predicts p (ofKind kind * wide) behind := by
  unfold Predicts at *
  cases run : x p with
  | ok a q =>
      rw [run] at predicts
      rcases predicts with ⟨w, readsOff⟩
      exact ⟨w, readsOff.widen_next next narrows moves⟩
  | error stop q =>
      rw [run] at predicts
      cases stop with
      | failed e => exact predicts.widen_next current sameKind next narrows
      | defect d => trivial

/-! ## Steps that read nothing -/

/-- The step leaves the stream where it is, and if it fails, then for a name. -/
def Quiet (x : Step α) : Prop :=
  ∀ p, match x p with
    | .ok _ q => q.stream = p.stream
    | .error (.failed (.token _)) _ => False
    | .error _ _ => True

/-- A quiet step reads nothing, so that the same remains possible. -/
theorem Quiet.predicts {x : Step α} (quiet : x.Quiet) : x.Predicts p before before := by
  have same := quiet p
  unfold Predicts
  cases run : x p with
  | ok a q =>
      rw [run] at same
      dsimp only at same ⊢
      rw [same]
      exact ⟨[], .refl⟩
  | error stop q =>
      rw [run] at same
      cases stop with
      | failed e =>
          cases e with
          | token e => exact same.elim
          | symbol e place => trivial
          | redeclared name place => trivial
      | defect d => trivial

theorem Quiet.bind {x : Step α} {f : α → Step β} (first : x.Quiet) (second : ∀ a, (f a).Quiet) :
    (x >>= f).Quiet := by
  intro p
  have same := first p
  simp only [Bind.bind, EStateM.bind]
  cases run : x p with
  | error stop q =>
      rw [run] at same
      rcases stop with (_ | _ | _) | _ <;> exact same
  | ok a q =>
      rw [run] at same
      dsimp only at same ⊢
      rw [← same]
      exact second a q

theorem quiet_pure (a : α) : (pure a : Step α).Quiet := fun _ => rfl

theorem quiet_emit (commands : List Command) : (emit commands).Quiet := fun _ => rfl

theorem quiet_record (e : Event) : (record e).Quiet := fun _ => rfl

theorem quiet_freshLabel : freshLabel.Quiet := fun _ => rfl

theorem quiet_codeSize : codeSize.Quiet := fun _ => rfl

theorem quiet_symbol? (name : String) : (symbol? name).Quiet := fun _ => rfl

theorem quiet_count (kind : SymbolKind) : (count kind).Quiet := fun _ => rfl

theorem quiet_startSubroutine : startSubroutine.Quiet := fun _ => rfl

theorem quiet_resolve (name : Token) : (resolve name).Quiet := by
  intro p
  rw [resolve_eq]
  cases p.symbols.lookup name.text with
  | ok s => exact rfl
  | error e => trivial

theorem quiet_define (name type : String) (kind : SymbolKind) :
    (define name type kind).Quiet := by
  intro p
  unfold define
  cases p.symbols.define name type kind with
  | ok defined => exact rfl
  | error e => trivial

theorem Quiet.locate {x : Step α} (quiet : x.Quiet) (place : Location) :
    (locate place x).Quiet := by
  intro p
  have same := quiet p
  unfold Step.locate
  cases run : x p with
  | ok a q =>
      rw [run] at same
      exact same
  | error stop q =>
      rw [run] at same
      rcases stop with _ | (_ | _ | _) <;> exact same

/-- A declaration reads nothing, and its errors are none of the grammar. -/
theorem quiet_declare (options : Options) (name : Token) (type : String) (kind : SymbolKind) :
    (declare options name type kind).Quiet := by
  refine ((quiet_define _ _ _).locate _).bind fun previous => ?_
  cases previous with
  | none => exact quiet_pure _
  | some previous =>
      dsimp only
      split
      · exact fun _ => trivial
      · exact quiet_record _

theorem predicts_pure (a : α) : (pure a : Step α).Predicts p before before :=
  (quiet_pure a).predicts

/-! ## Steps that read -/

/-- A token that has been looked at is read as a lexeme of an allowed kind. -/
theorem predicts_skip (current : p.stream.current = .ok t) (more : t.kind ≠ .endOfFile)
    (isAllowed : allowed t.kind = true) : skip.Predicts p (single allowed * behind) behind := by
  refine ⟨[t.lexeme], .singleton current more, fun v member => ?_, fun _ member => ?_⟩
  · exact cons_mem_single_mul.mpr ⟨by rwa [Token.kind_lexeme], member⟩
  · exact (cons_mem_single_mul.mp member).2

theorem predicts_skip_ofKind (current : p.stream.current = .ok t) (same : t.kind = kind)
    (more : kind ≠ .endOfFile) : skip.Predicts p (ofKind kind * behind) behind :=
  predicts_skip current (same ▸ more) (decide_eq_true same)

/-- A token that is not expected is reported, and nothing is read. -/
theorem blames_unexpected [Productive before] {expected : String}
    (current : p.stream.current = .ok t) (impossible : ¬ Viable before [t.lexeme]) :
    p.stream.Blames before (.token (p.stream.unexpected expected t)) p.stream :=
  .inr ⟨[], .nil _, current, viable_nil, impossible⟩

/-- A complaint about the current token is right if its lexeme is not possible there. -/
theorem predicts_unexpected [Productive before] (expected : String)
    (current : p.stream.current = .ok t) (impossible : ¬ Viable before [t.lexeme]) :
    (unexpected expected t : Step α).Predicts p before behind :=
  blames_unexpected current impossible

/-- A complaint about a limit of the machine says nothing about the grammar. -/
theorem predicts_limit {expected : String} (t : Token)
    (limit : expected ∈
      [tooManyArguments, "shorter string constant", "character with code up to 32767"]) :
    (unexpected expected t : Step α).Predicts p before behind :=
  .inl (.inl limit)

/-- A lexical fault stands behind possible lexemes. -/
theorem blames_lexical [Productive before] {e : LexError} (fault : p.stream.current = .error e) :
    p.stream.Blames before (.token (.lexical e)) p.stream :=
  ⟨[], p.stream, .nil _, fault, viable_nil⟩

/-- Only a lexeme of one kind is possible.  If it is another one, the complaint is right. -/
theorem predicts_consume [Productive behind] (more : kind ≠ .endOfFile) :
    (consume kind).Predicts p (ofKind kind * behind) behind := by
  unfold Predicts consume TokenStream.consume TokenStream.consumeIf
  cases current : p.stream.current with
  | error e => exact blames_lexical current
  | ok t =>
      by_cases same : t.kind = kind
      · simp only [List.mem_singleton, same, if_true]
        refine ⟨[t.lexeme], .singleton current (same ▸ more), fun v member => ?_,
          fun _ member => ?_⟩
        · exact cons_mem_ofKind_mul.mpr ⟨by rw [Token.kind_lexeme, same], member⟩
        · exact (cons_mem_ofKind_mul.mp member).2
      · simp only [List.mem_singleton, same, if_false]
        apply blames_unexpected current
        rintro ⟨v, member⟩
        have kindEq := (cons_mem_ofKind_mul.mp member).1
        rw [Token.kind_lexeme] at kindEq
        exact same kindEq

theorem predicts_symbol [Productive behind] (s : Punctuation) :
    (symbol s).Predicts p (ofKind (.symbol s) * behind) behind :=
  (predicts_consume (by simp only [ne_eq, reduceCtorEq, not_false_eq_true])).bind
    fun _ _ => predicts_pure _

/-- A look reads nothing, and what comes behind it may rely on the token that was seen. -/
theorem predicts_peek_bind [Productive before] {f : Token → Step β}
    (rest : ∀ t, p.stream.current = .ok t → (f t).Predicts p before behind) :
    (peek >>= f).Predicts p before behind := by
  unfold Predicts
  simp only [Bind.bind, EStateM.bind, peek, TokenStream.peek]
  cases current : p.stream.current with
  | ok t => exact rest t current
  | error e => exact blames_lexical current

/-- Looking behind the current token may find a lexical fault there. -/
theorem predicts_peekNext_bind {f : Token → Step β} (current : p.stream.current = .ok t)
    (more : t.kind ≠ .endOfFile) (viable : Viable before [t.lexeme])
    (rest : ∀ u, p.stream.advance.current = .ok u → (f u).Predicts p before behind) :
    (peekNext >>= f).Predicts p before behind := by
  unfold Predicts
  simp only [Bind.bind, EStateM.bind, peekNext, TokenStream.peekNext_eq current more]
  cases following : p.stream.advance.current with
  | ok u => exact rest u following
  | error e => exact ⟨[t.lexeme], _, .singleton current more, following, viable⟩

/-- A token is accepted where it is one of two possible ways to go on. -/
theorem predicts_accept_bind {refused accepted : Language Lexeme} [Productive refused]
    {f : Bool → Step β} (more : kind ≠ .endOfFile)
    (other : BeginsWith (fun k => !decide (k = kind)) refused)
    (whenAccepted : ∀ q, (f true).Predicts q accepted behind)
    (whenRefused : (f false).Predicts p refused behind) :
    (accept kind >>= f).Predicts p (refused + ofKind kind * accepted) behind := by
  cases current : p.stream.current with
  | error e =>
      unfold Predicts
      simp only [Bind.bind, EStateM.bind, accept, TokenStream.accept, current]
      exact blames_lexical current
  | ok t =>
      by_cases same : t.kind = kind
      · have skipping : (skip >>= fun _ => f true).Predicts p (ofKind kind * accepted) behind :=
          (predicts_skip_ofKind current same more).bind fun _ q => whenAccepted q
        have sameRun : (accept kind >>= f) p = (skip >>= fun _ => f true) p := by
          simp only [Bind.bind, EStateM.bind, accept, TokenStream.accept, current, if_pos same,
            skip]
        refine (skipping.congr sameRun).widen current (.right (other.not_viable ?_))
        rw [Token.kind_lexeme, decide_eq_true same, Bool.not_true]
      · have sameRun : (accept kind >>= f) p = f false p := by
          simp only [Bind.bind, EStateM.bind, accept, TokenStream.accept, current, if_neg same]
        refine (whenRefused.congr sameRun).widen current (.left ?_)
        rintro ⟨v, member⟩
        have kindEq := (cons_mem_ofKind_mul.mp member).1
        rw [Token.kind_lexeme] at kindEq
        exact same kindEq

end Step

end Jack
