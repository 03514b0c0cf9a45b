import Jack.Compiler
import Jack.Proofs.Reaching.Relation
import Jack.Proofs.Stream.Operations

namespace Jack

/-!
# Coming to a term

To see with what progress the compiler comes to a term, one lets it stop in front of the term
(`Callees.stoppingAt`).  The compiler that does not stop has the same progress there, and whatever
it does afterwards begins with the term: if the term fails, the compilation fails in the same way,
and otherwise commands are only added to those of the term (`ComesTo.goesOn`).
-/

namespace Progress

/-- The way from one progress to another stays in the source and only adds commands. -/
structure ContinuedBy (p q : Progress) : Prop where
  stream : ∀ source position, p.stream.StandsAtPosition source position →
    ∃ position', q.stream.StandsAtPosition source position'
  code : p.code.toList <+: q.code.toList

namespace ContinuedBy

variable {p q r : Progress}

/-- Nothing has happened. -/
theorem refl (p : Progress) : p.ContinuedBy p :=
  ⟨fun _ position stands => ⟨position, stands⟩, List.prefix_refl _⟩

/-- Progresses go on one behind the other. -/
theorem trans (first : p.ContinuedBy q) (second : q.ContinuedBy r) : p.ContinuedBy r where
  stream := by
    intro source position stands
    rcases first.stream source position stands with ⟨position', stands'⟩
    exact second.stream source position' stands'
  code := first.code.trans second.code

/-- Names, labels and events do not matter. -/
theorem of_eq (stream : q.stream = p.stream) (code : q.code = p.code) : p.ContinuedBy q :=
  ⟨fun _ position stands => ⟨position, stream ▸ stands⟩, code ▸ List.prefix_refl _⟩

theorem advance (p : Progress) : p.ContinuedBy { p with stream := p.stream.advance } :=
  ⟨fun _ position stands => ⟨position + 1, stands.advance⟩, List.prefix_refl _⟩

theorem emit (p : Progress) (commands : List Command) :
    p.ContinuedBy { p with code := commands.foldl Array.push p.code } := by
  refine ⟨fun _ position stands => ⟨position, stands⟩, ?_⟩
  rw [List.foldl_push_eq_append', Array.toList_append]
  exact List.prefix_append _ _

end ContinuedBy

end Progress

namespace Step

variable {α β : Type} {x y : Step α} {t : Token}

/-- The step continues the progress, whether it succeeds or fails. -/
def Continues (x : Step α) : Prop := ∀ p : Progress, p.ContinuedBy (reached (x p))

/-- Steps that only add something, one behind the other. -/
theorem Continues.bind {f : α → Step β} (first : x.Continues) (behind : ∀ a, (f a).Continues) :
    (x >>= f).Continues := by
  intro p
  have continued := first p
  simp only [Bind.bind, EStateM.bind]
  cases run : x p with
  | error stop q =>
      rw [run] at continued
      exact continued
  | ok a q =>
      rw [run] at continued
      exact continued.trans (behind a q)

/-- Simple steps only add something. -/
theorem Simple.continues (simple : x.Simple) : x.Continues := by
  intro p
  cases simple with
  | peek =>
      unfold Step.peek
      cases p.stream.peek <;> exact .of_eq rfl rfl
  | peekNext =>
      unfold Step.peekNext
      cases p.stream.peekNext <;> exact .of_eq rfl rfl
  | lookup name =>
      unfold Step.lookup
      cases p.symbols.lookup name <;> exact .of_eq rfl rfl
  | resolve name =>
      rw [resolve_eq]
      cases p.symbols.lookup name.text <;> exact .of_eq rfl rfl
  | define name type kind =>
      unfold Step.define
      cases p.symbols.define name type kind <;> exact .of_eq rfl rfl
  | declareAt place name type kind =>
      rw [locate_define]
      cases p.symbols.define name type kind <;> exact .of_eq rfl rfl
  | accept kind =>
      unfold Step.accept TokenStream.accept
      cases p.stream.current with
      | error e => exact .refl p
      | ok t =>
          by_cases same : t.kind = kind
          · simp only [same, if_true]
            exact .advance p
          · simp only [same, if_false]
            exact .refl p
  | consume kind =>
      unfold Step.consume TokenStream.consume TokenStream.consumeIf
      cases p.stream.current with
      | error e => exact .refl p
      | ok t =>
          by_cases same : t.kind ∈ [kind]
          · simp only [same, if_true]
            exact .advance p
          · simp only [same, if_false]
            exact .refl p
  | skip => exact .advance p
  | emit commands => exact .emit p commands
  | _ => exact .of_eq rfl rfl

/-! ## Stopping in front of a term -/

/-- What follows a first result has come of it: a failure stays, and a success is continued. -/
def Follows (first : EStateM.Result Stop Progress α) (whole : EStateM.Result Stop Progress β) :
    Prop :=
  match first with
  | .ok _ q => Progress.ContinuedBy q (reached whole)
  | .error stop q => whole = .error stop q

/-- The first step is done as the second one is, except that the second one may stop in front of a
term that begins with the token, with which the first one goes on. -/
structure StopsAt (t : Token) (x y : Step α) : Prop where
  continues : x.Continues
  stops : ∀ p, x p = y p ∨ ∃ q className bound, p.ContinuedBy q ∧ q.stream.current = .ok t ∧
    y p = .error (.defect .exhausted) q ∧ Follows (term className (bound + 1) q) (x p)

theorem Follows.refl (result : EStateM.Result Stop Progress α) : Follows result result := by
  cases result with
  | ok a q => exact Progress.ContinuedBy.refl q
  | error stop q => rfl

/-- A failure is not caught, and what has succeeded is not taken back. -/
theorem Follows.bind {γ : Type} {first : EStateM.Result Stop Progress γ} {f : α → Step β}
    {p : Progress} (follows : Follows first (x p))
    (behind : ∀ a, (f a).Continues) : Follows first ((x >>= f) p) := by
  simp only [Bind.bind, EStateM.bind]
  cases first with
  | error stop q =>
      have failed : x p = .error stop q := follows
      rw [failed]
      rfl
  | ok c q =>
      have more : q.ContinuedBy (reached (x p)) := follows
      cases run : x p with
      | ok a r =>
          rw [run] at more
          exact more.trans (behind a r)
      | error stop r =>
          rw [run] at more
          exact more

/-- A sequence stops where its first part does, or else where its second part does. -/
theorem StopsAt.bind {f g : α → Step β} (first : StopsAt t x y)
    (behind : ∀ a, StopsAt t (f a) (g a)) : StopsAt t (x >>= f) (y >>= g) where
  continues := first.continues.bind fun a => (behind a).continues
  stops := by
    intro p
    rcases first.stops p with same | ⟨q, className, bound, front, current, stopped, follows⟩
    · have continued := first.continues p
      simp only [Bind.bind, EStateM.bind]
      rw [← same]
      cases run : x p with
      | error stop q => exact .inl rfl
      | ok a q =>
          rw [run] at continued
          rcases (behind a).stops q with same | ⟨r, className, bound, front, isStop⟩
          · exact .inl same
          · exact .inr ⟨r, className, bound, continued.trans front, isStop⟩
    · refine .inr ⟨q, className, bound, front, current, ?_, ?_⟩
      · simp only [Bind.bind, EStateM.bind]
        rw [stopped]
      · exact follows.bind fun a => (behind a).continues

/-- A simple step calls nothing, so it is the same with and without stopping. -/
theorem Simple.stopsAt (simple : x.Simple) (t : Token) : StopsAt t x x :=
  ⟨simple.continues, fun _ => .inl rfl⟩

end Step

namespace TokenStream

/-- The current token of the stream is the given one. -/
def showsToken (s : TokenStream) (t : Token) : Bool :=
  match s.current with
  | .ok u => u = t
  | .error _ => false

/-- What the test shows is the current token. -/
theorem current_of_showsToken {s : TokenStream} {t : Token} (shown : s.showsToken t = true) :
    s.current = .ok t := by
  unfold showsToken at shown
  split at shown
  · rename_i u current
    rw [current, of_decide_eq_true shown]
  · cases shown

end TokenStream

namespace Callees

open Step Routine

/-- The functions of the compiler, except that a term is not compiled if it begins with the given
token: the run stops there. -/
def stoppingAt (t : Token) : Nat → Callees
  | 0, _, _ => exhausted
  | bound + 1, x, parameters => fun p =>
    if x = .term ∧ p.stream.showsToken t = true then exhausted p
    else (stoppingAt t bound).next x parameters p

/-- How the compiler is related to the one that stops. -/
def stopping (t : Token) : StepRelation where
  Holds := StopsAt t
  simple := fun simple => simple.stopsAt t
  bind := StopsAt.bind

/-- The functions that stop at a token are those of the compiler up to it. -/
theorem between_stoppingAt (t : Token) (bound : Nat) :
    (stopping t).Between (ofBound bound) (stoppingAt t bound) := by
  induction bound with
  | zero =>
      intro x parameters
      rw [ofBound_zero]
      exact ⟨Progress.ContinuedBy.refl, fun _ => .inl rfl⟩
  | succ bound inductionHypothesis =>
      intro x parameters
      have goesOn := inductionHypothesis.next x parameters
      rw [← ofBound_succ] at goesOn
      refine ⟨goesOn.continues, fun p => ?_⟩
      by_cases isTerm : x = .term ∧ p.stream.showsToken t = true
      · have stopped : stoppingAt t (bound + 1) x parameters p = exhausted p := if_pos isTerm
        rcases isTerm with ⟨rfl, shown⟩
        have current := TokenStream.current_of_showsToken shown
        exact .inr ⟨p, parameters, bound, .refl p, current, stopped, .refl _⟩
      · have same : stoppingAt t (bound + 1) x parameters p =
            (stoppingAt t bound).next x parameters p := if_neg isTerm
        rw [same]
        exact goesOn.stops p

end Callees

/-- Compilation comes to a term that begins with the token, and this is its progress in front of
it. -/
def ComesTo (options : Options) (source : List Char) (t : Token) (p : Progress) : Prop :=
  (Callees.stoppingAt t (stepBound source)).wholeClass options (.ofSource source) =
    .error (.defect .exhausted) p

/-- Whether compilation comes to such a term is told by the run that stops there. -/
theorem exists_comesTo_iff {options : Options} {source : List Char} {t : Token} :
    (match (Callees.stoppingAt t (stepBound source)).wholeClass options (.ofSource source) with
      | .error (.defect .exhausted) _ => true
      | _ => false) = true ↔ ∃ p, ComesTo options source t p := by
  unfold ComesTo
  constructor
  · intro stopped
    split at stopped
    · rename_i p run
      exact ⟨p, run⟩
    · cases stopped
  · rintro ⟨p, run⟩
    rw [run]

instance (options : Options) (source : List Char) (t : Token) :
    Decidable (∃ p, ComesTo options source t p) :=
  decidable_of_iff _ exists_comesTo_iff

namespace ComesTo

variable {options : Options} {source : List Char} {t : Token} {p : Progress}

/-- The compiler that does not stop comes to the same term with the same progress and goes on with
it. -/
theorem goesOn (comesTo : ComesTo options source t p) :
    (Progress.ofSource source).ContinuedBy p ∧ p.stream.current = .ok t ∧
      ∃ className bound, Step.Follows (Step.term className (bound + 1) p)
        (Step.wholeClass options (stepBound source) (.ofSource source)) := by
  have between := (Callees.between_stoppingAt t (stepBound source)).wholeClass options
  rcases between.stops (.ofSource source) with
    same | ⟨q, className, bound, front, current, stopped, follows⟩
  · rw [Callees.wholeClass_ofBound] at same
    exact absurd (same.trans comesTo) (Step.wholeClass_ne_defect options source _ p)
  · cases comesTo.symm.trans stopped
    rw [Callees.wholeClass_ofBound] at follows
    exact ⟨front, current, className, bound, follows⟩

/-- A progress to which a compilation comes stands at some item of the source. -/
theorem standsAtPosition (comesTo : ComesTo options source t p) :
    ∃ position, p.stream.StandsAtPosition source position :=
  comesTo.goesOn.1.stream source 0 (TokenStream.standsAtPosition_ofSource source)

/-- The term begins with a token of the source. -/
theorem mem_items (comesTo : ComesTo options source t p) (more : t.kind ≠ .endOfFile) :
    .ok t ∈ (Lexer.ofSource source).items := by
  rcases comesTo.standsAtPosition with ⟨position, stands⟩
  have current := stands.current
  rw [comesTo.goesOn.2.1, endlessItem, List.getD_eq_getElem?_getD] at current
  cases found : (Lexer.ofSource source).items[position]? with
  | none =>
      rw [found] at current
      cases current
      exact absurd rfl more
  | some item =>
      rw [found, Option.getD_some] at current
      rw [current]
      exact List.mem_of_getElem? found

/-- If the term fails, the compilation fails in the same way. -/
theorem result_of_failed (comesTo : ComesTo options source t p) {e : CompileError} {q : Progress}
    (failed : ∀ className bound,
      Step.term className (bound + 1) p = .error (.failed e) q) :
    (compileClass options source).result = .error e := by
  rcases comesTo.goesOn with ⟨-, -, className, bound, follows⟩
  rw [failed] at follows
  rw [compileClass_of_failed follows]

/-- What the term emits stays in front of what is emitted later. -/
theorem code_prefix (comesTo : ComesTo options source t p) {q : Progress}
    (compiled : ∀ className bound, Step.term className (bound + 1) p = .ok () q) :
    q.code.toList <+: (Step.reached
      (Step.wholeClass options (stepBound source) (.ofSource source))).code.toList := by
  rcases comesTo.goesOn with ⟨-, -, className, bound, follows⟩
  rw [compiled] at follows
  exact follows.code

end ComesTo

end Jack
