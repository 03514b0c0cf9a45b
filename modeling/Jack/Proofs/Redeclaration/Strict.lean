import Jack.Compiler
import Jack.Proofs.Redeclaration.Silent

namespace Jack

/-!
# Strict declarations

A compilation records a name that is declared again in its scope, and goes on.  If declarations are
strict, the compilation does the same up to the first such name, and fails there.

So a strict step stops at the first redeclaration of the same step without strictness
(`Step.StopsAtFirst`), and steps in sequence do so if each of them does.  Silent steps do not know
whether declarations are strict.
-/

namespace Step

variable {α β : Type}

/-- Without strictness a step records redeclarations.  With strictness it fails for the first of
them, and it does the same if there are none. -/
def StopsAtFirst (strict lenient : Step α) : Prop :=
  ∀ p, ∃ found, redeclarations (reached (lenient p)).events = redeclarations p.events ++ found ∧
    match found with
    | [] => strict p = lenient p
    | r :: _ => ∃ q, strict p = .error (.failed (.redeclared r.name r.place)) q

/-- A silent step finds no redeclaration, and so strictness makes no difference. -/
theorem Silent.stopsAtFirst {x : Step α} (silent : x.Silent) : StopsAtFirst x x :=
  fun p => ⟨[], by rw [silent p, List.append_nil], rfl⟩

/-- One step behind another.  The second one is only run with strictness if the first one has found
nothing. -/
theorem StopsAtFirst.bind {x y : Step α} {f g : α → Step β} (first : StopsAtFirst x y)
    (second : ∀ a, StopsAtFirst (f a) (g a)) : StopsAtFirst (x >>= f) (y >>= g) := by
  intro p
  rcases first p with ⟨found, recorded, agrees⟩
  simp only [Bind.bind, EStateM.bind]
  cases run : y p with
  | error stop q =>
      rw [run] at recorded agrees
      refine ⟨found, recorded, ?_⟩
      cases found with
      | nil =>
          dsimp only at agrees ⊢
          rw [agrees]
      | cons r more =>
          rcases agrees with ⟨q', failed⟩
          exact ⟨q', by rw [failed]⟩
  | ok a q =>
      rw [run] at recorded agrees
      rcases second a q with ⟨further, recorded', agrees'⟩
      refine ⟨found ++ further, ?_, ?_⟩
      · rw [recorded', ← List.append_assoc]
        exact congrArg (· ++ further) recorded
      -- The first redeclaration of both is that of the second only if the first finds none.
      · cases found with
        | nil =>
            dsimp only at agrees
            rw [agrees]
            exact agrees'
        | cons r more =>
            rcases agrees with ⟨q', failed⟩
            exact ⟨q', by rw [failed]⟩

/-- The part in front is the same in both steps. -/
theorem Silent.bind_stopsAtFirst {x : Step α} {f g : α → Step β} (first : x.Silent)
    (second : ∀ a, StopsAtFirst (f a) (g a)) : StopsAtFirst (x >>= f) (x >>= g) :=
  first.stopsAtFirst.bind second

/-! ## Classes -/

section Classes

variable {strict lenient : Options} (isStrict : strict.strictDeclarations = true)
  (isLenient : lenient.strictDeclarations = false)

include isStrict isLenient

/-- This is the one step that asks whether declarations are strict. -/
theorem stopsAtFirst_declare (name : Token) (type : String) (kind : SymbolKind) :
    StopsAtFirst (declare strict name type kind) (declare lenient name type kind) := by
  refine ((silent_define _ _ _).locate _).bind_stopsAtFirst fun previous => ?_
  cases previous with
  | none => exact (silent_pure ()).stopsAtFirst
  | some previous =>
      dsimp only
      rw [isStrict, isLenient, if_pos rfl, if_neg Bool.false_ne_true]
      intro p
      refine ⟨[⟨name.text, name.start, previous⟩], ?_, p, rfl⟩
      rw [record, reached, redeclarations_push]
      rfl

/-- Names of one declaration, one after the other. -/
theorem stopsAtFirst_names (type : String) (kind : SymbolKind) (bound : Nat) :
    StopsAtFirst (names strict type kind bound) (names lenient type kind bound) := by
  induction bound with
  | zero => exact silent_exhausted.stopsAtFirst
  | succ bound inductionHypothesis =>
      rw [names, names]
      refine (silent_consume _).bind_stopsAtFirst fun name => ?_
      refine (stopsAtFirst_declare isStrict isLenient name type kind).bind fun _ => ?_
      refine (silent_accept _).bind_stopsAtFirst fun more => ?_
      cases more with
      | true => exact inductionHypothesis
      | false => exact (silent_pure _).stopsAtFirst

theorem stopsAtFirst_declaration (kind : SymbolKind) (bound : Nat) :
    StopsAtFirst (declaration strict kind bound) (declaration lenient kind bound) := by
  refine silent_typeName.bind_stopsAtFirst fun type => ?_
  refine (stopsAtFirst_names isStrict isLenient type kind bound).bind fun _ => ?_
  exact (silent_symbol _).stopsAtFirst

theorem stopsAtFirst_classVariables (bound : Nat) :
    StopsAtFirst (classVariables strict bound) (classVariables lenient bound) := by
  induction bound with
  | zero => exact silent_exhausted.stopsAtFirst
  | succ bound inductionHypothesis =>
      have group (kind : SymbolKind) := stopsAtFirst_declaration isStrict isLenient kind bound
      rw [classVariables, classVariables]
      refine silent_peek.bind_stopsAtFirst fun t => ?_
      split
      · refine silent_skip.bind_stopsAtFirst fun _ => ?_
        exact (group .static).bind fun _ => inductionHypothesis
      · refine silent_skip.bind_stopsAtFirst fun _ => ?_
        exact (group .field).bind fun _ => inductionHypothesis
      · exact (silent_pure _).stopsAtFirst

theorem stopsAtFirst_localVariables (bound : Nat) :
    StopsAtFirst (localVariables strict bound) (localVariables lenient bound) := by
  induction bound with
  | zero => exact silent_exhausted.stopsAtFirst
  | succ bound inductionHypothesis =>
      rw [localVariables, localVariables]
      refine silent_peek.bind_stopsAtFirst fun t => ?_
      split
      · refine silent_skip.bind_stopsAtFirst fun _ => ?_
        exact (stopsAtFirst_declaration isStrict isLenient _ bound).bind
          fun _ => inductionHypothesis
      · exact (silent_pure _).stopsAtFirst

theorem stopsAtFirst_parametersBehind (bound : Nat) :
    StopsAtFirst (parametersBehind strict bound) (parametersBehind lenient bound) := by
  induction bound with
  | zero => exact silent_exhausted.stopsAtFirst
  | succ bound inductionHypothesis =>
      rw [parametersBehind, parametersBehind]
      refine silent_typeName.bind_stopsAtFirst fun type => ?_
      refine (silent_consume _).bind_stopsAtFirst fun name => ?_
      refine (stopsAtFirst_declare isStrict isLenient name type .argument).bind fun _ => ?_
      refine (silent_accept _).bind_stopsAtFirst fun more => ?_
      cases more with
      | true => exact inductionHypothesis
      | false => exact (silent_pure _).stopsAtFirst

theorem stopsAtFirst_parameters (bound : Nat) :
    StopsAtFirst (parameters strict bound) (parameters lenient bound) := by
  refine silent_peek.bind_stopsAtFirst fun t => ?_
  split
  · exact stopsAtFirst_parametersBehind isStrict isLenient bound
  · exact (silent_pure _).stopsAtFirst

variable (sameChoice : strict.foldTailReturn = lenient.foldTailReturn)

include sameChoice

/-- Only the declarations at the top of a body can be stopped at. -/
theorem stopsAtFirst_body (className : String) (kind : SubroutineKind) (name : String)
    (isVoid : Bool) (bound : Nat) :
    StopsAtFirst (body strict className kind name isVoid bound)
      (body lenient className kind name isVoid bound) := by
  unfold body
  rw [sameChoice]
  refine (silent_symbol _).bind_stopsAtFirst fun _ => ?_
  refine (stopsAtFirst_localVariables isStrict isLenient bound).bind fun _ => ?_
  refine (silent_count _).bind_stopsAtFirst fun locals => ?_
  refine (silent_count _).bind_stopsAtFirst fun fields => ?_
  refine (silent_emit _).bind_stopsAtFirst fun _ => ?_
  refine silent_freshLabel.bind_stopsAtFirst fun id => ?_
  refine ((silentStatements _ bound).statements false false).bind_stopsAtFirst fun jumps => ?_
  refine (silent_symbol _).bind_stopsAtFirst fun _ => ?_
  refine (silent_emit _).bind_stopsAtFirst fun _ => ?_
  exact (silent_record rfl).stopsAtFirst

theorem stopsAtFirst_subroutine (className : String) (kind : SubroutineKind) (bound : Nat) :
    StopsAtFirst (subroutine strict className kind bound)
      (subroutine lenient className kind bound) := by
  unfold subroutine
  refine silent_skip.bind_stopsAtFirst fun _ => ?_
  refine silent_resultType.bind_stopsAtFirst fun isVoid => ?_
  refine (silent_consume _).bind_stopsAtFirst fun name => ?_
  refine (silent_record rfl).bind_stopsAtFirst fun _ => ?_
  refine silent_startSubroutine.bind_stopsAtFirst fun _ => ?_
  refine (silent_receiver _ _).bind_stopsAtFirst fun _ => ?_
  refine (silent_symbol _).bind_stopsAtFirst fun _ => ?_
  refine (stopsAtFirst_parameters isStrict isLenient bound).bind fun _ => ?_
  refine (silent_symbol _).bind_stopsAtFirst fun _ => ?_
  exact stopsAtFirst_body isStrict isLenient sameChoice className kind _ isVoid bound

theorem stopsAtFirst_subroutines (className : String) (bound : Nat) :
    StopsAtFirst (subroutines strict className bound) (subroutines lenient className bound) := by
  induction bound with
  | zero => exact silent_exhausted.stopsAtFirst
  | succ bound inductionHypothesis =>
      rw [subroutines, subroutines]
      refine silent_peek.bind_stopsAtFirst fun t => ?_
      cases t.kind.subroutineKind? with
      | none => exact (silent_pure _).stopsAtFirst
      | some kind =>
          exact (stopsAtFirst_subroutine isStrict isLenient sameChoice className kind bound).bind
            fun _ => inductionHypothesis

/-- A strict compilation of a class stops at the first redeclaration of the lenient one. -/
theorem stopsAtFirst_wholeClass (bound : Nat) :
    StopsAtFirst (wholeClass strict bound) (wholeClass lenient bound) := by
  unfold wholeClass
  refine (silent_consume _).bind_stopsAtFirst fun _ => ?_
  refine (silent_consume _).bind_stopsAtFirst fun name => ?_
  refine (silent_symbol _).bind_stopsAtFirst fun _ => ?_
  refine (stopsAtFirst_classVariables isStrict isLenient bound).bind fun _ => ?_
  refine (stopsAtFirst_subroutines isStrict isLenient sameChoice name.text bound).bind fun _ => ?_
  refine (silent_symbol _).bind_stopsAtFirst fun _ => ?_
  refine (silent_consume _).bind_stopsAtFirst fun _ => ?_
  exact (silent_codeSize.bind fun _ => silent_record rfl).stopsAtFirst

end Classes

end Step

/-- Without redeclarations a strict compilation has the same result, and otherwise it fails for the
first of them. -/
theorem compileClass_stopsAtFirst {strict lenient : Options}
    (isStrict : strict.strictDeclarations = true)
    (isLenient : lenient.strictDeclarations = false)
    (sameChoice : strict.foldTailReturn = lenient.foldTailReturn) (source : List Char) :
    match redeclarations (compileClass lenient source).events with
    | [] => (compileClass strict source).result = (compileClass lenient source).result
    | r :: _ => (compileClass strict source).result = .error (.redeclared r.name r.place) := by
  rcases Step.stopsAtFirst_wholeClass isStrict isLenient sameChoice (stepBound source)
    (.ofSource source) with ⟨found, recorded, agrees⟩
  have start : redeclarations (Progress.ofSource source).events = [] := rfl
  rw [start, List.nil_append] at recorded
  have sameEvents : redeclarations (compileClass lenient source).events = found := by
    rw [← recorded]
    cases run : Step.wholeClass lenient (stepBound source) (.ofSource source) with
    | ok u q => rw [compileClass_of_ok run]; rfl
    | error stop q =>
        cases stop with
        | failed e => rw [compileClass_of_failed run]; rfl
        | defect d => exact absurd run (Step.wholeClass_ne_defect lenient source d q)
  rw [sameEvents]
  cases found with
  | nil =>
      dsimp only at agrees ⊢
      cases run : Step.wholeClass lenient (stepBound source) (.ofSource source) with
      | ok u q =>
          rw [run] at agrees
          rw [compileClass_of_ok run, compileClass_of_ok agrees]
      | error stop q =>
          rw [run] at agrees
          cases stop with
          | failed e => rw [compileClass_of_failed run, compileClass_of_failed agrees]
          | defect d => exact absurd run (Step.wholeClass_ne_defect lenient source d q)
  | cons r more =>
      rcases agrees with ⟨q, failed⟩
      dsimp only
      rw [compileClass_of_failed failed]

end Jack
