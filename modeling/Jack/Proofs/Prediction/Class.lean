import Jack.Compiler
import Jack.Proofs.Prediction.Statement
import Jack.Proofs.Stream.Items

namespace Jack

open Computability

open Grammar

/-!
# Classes are predicted

Every repetition of declarations is ended by one token that starts none of them.  The compilation of
a whole class stands in front of the language of all classes, so an error of it is blamed on the
first token that no class can have there (`Step.faults_wholeClass`).
-/

namespace Step

variable {p : Progress} {t : Token} {K : Language Lexeme} {options : Options} {bound : Nat}

/-! ## Declarations -/

/-- A type is one lexeme: a word or an identifier. -/
theorem predicts_typeName [Productive K] : typeName.Predicts p (types * K) K := by
  refine predicts_peek_bind fun t current => ?_
  by_cases isType : t.kind.isType = true
  · rw [if_pos isType]
    have more := TokenKind.ne_endOfFile_of_isType isType
    exact (predicts_skip current more isType).bind fun _ q => predicts_pure _
  · rw [if_neg isType]
    apply predicts_unexpected _ current
    apply (beginsWith_single _).mul.not_viable
    rw [Token.kind_lexeme, Bool.eq_false_iff.mpr isType]

/-- Names with commas between them.  Behind them a semicolon must be possible, so that a comma tells
that there is another name. -/
theorem predicts_names (type : String) (kind : SymbolKind) [Productive K]
    (closes : BeginsWith (fun k => k = .symbol .semicolon) K) :
    (names options type kind bound).Predicts p
      (separated (.symbol .comma) (ofKind .identifier) * K) K := by
  induction bound generalizing p with
  | zero => exact predicts_exhausted
  | succ bound inductionHypothesis =>
      rw [names, separated, mul_assoc, kstar_separated_mul]
      refine (predicts_consume (by simp)).bind fun name q => ?_
      refine (quiet_declare _ _ _ _).predicts.bind fun _ q => ?_
      refine predicts_accept_bind (by simp) ?_ (fun q => inductionHypothesis) (predicts_pure _)
      exact closes.mono fun k same => of_decide_eq_true same ▸ rfl

theorem predicts_declaration (kind : SymbolKind) [Productive K] :
    (declaration options kind bound).Predicts p (variableGroups * K) K := by
  rw [variableGroups, mul_assoc, mul_assoc]
  refine predicts_typeName.bind fun type q => ?_
  refine (predicts_names type kind (beginsWith_ofKind (by rfl)).mul).bind fun _ q => ?_
  exact predicts_symbol _

/-- Lines of class variables, of which there may be none.  What follows them starts with another
word. -/
theorem predicts_classVariables [Productive K]
    (closes : BeginsWith (fun k => !k.startsClassVariables) K) :
    (classVariables options bound).Predicts p (classVariableGroups∗ * K) K := by
  induction bound generalizing p with
  | zero => exact predicts_exhausted
  | succ bound inductionHypothesis =>
      rw [classVariables]
      refine predicts_peek_bind fun t current => ?_
      -- Both words are followed by the same steps; they differ in the kind alone.
      have group (kind : SymbolKind) (more : t.kind ≠ .endOfFile)
          (starts : t.kind.startsClassVariables = true) :
          (do
            skip
            declaration options kind bound
            classVariables options bound : Step Unit).Predicts p (classVariableGroups∗ * K) K := by
        have other : ¬ Viable K [t.lexeme] := by
          apply closes.not_viable
          rw [Token.kind_lexeme, starts, Bool.not_true]
        refine Predicts.widen ?_ current (.repeats other)
        rw [classVariableGroups, mul_assoc]
        refine (predicts_skip current more starts).bind fun _ q => ?_
        exact (predicts_declaration kind).bind fun _ q => inductionHypothesis
      split
      · rename_i static
        exact group .static (by simp [static]) (by rw [static]; rfl)
      · rename_i field
        exact group .field (by simp [field]) (by rw [field]; rfl)
      · rename_i notStatic notField
        refine (predicts_pure _).widen current (.ends (beginsWith_single _).mul ?_)
        rw [Token.kind_lexeme, TokenKind.startsClassVariables, decide_eq_false notStatic,
          decide_eq_false notField, Bool.or_false]

/-- Groups of local variables, of which there may be none.  What follows them starts with another
token than `var`. -/
theorem predicts_localVariables [Productive K]
    (closes : BeginsWith (fun k => !decide (k = .keyword .var)) K) :
    (localVariables options bound).Predicts p (localVariableGroups∗ * K) K := by
  induction bound generalizing p with
  | zero => exact predicts_exhausted
  | succ bound inductionHypothesis =>
      rw [localVariables]
      refine predicts_peek_bind fun t current => ?_
      split
      · rename_i word
        have other : ¬ Viable K [t.lexeme] := by
          apply closes.not_viable
          rw [Token.kind_lexeme, decide_eq_true word, Bool.not_true]
        refine Predicts.widen ?_ current (.repeats other)
        rw [localVariableGroups, mul_assoc]
        refine (predicts_skip_ofKind current word (by simp)).bind fun _ q => ?_
        exact (predicts_declaration _).bind fun _ q => inductionHypothesis
      · rename_i other
        have word : BeginsWith (fun k => k = .keyword .var) localVariableGroups :=
          (beginsWith_ofKind rfl).mul
        refine (predicts_pure _).widen current (.ends word ?_)
        rw [Token.kind_lexeme, decide_eq_false other]

theorem predicts_parametersBehind [Productive K]
    (closes : BeginsWith (fun k => k = .symbol .rightParen) K) :
    (parametersBehind options bound).Predicts p
      (separated (.symbol .comma) typedNames * K) K := by
  induction bound generalizing p with
  | zero => exact predicts_exhausted
  | succ bound inductionHypothesis =>
      rw [parametersBehind, separated, mul_assoc, kstar_separated_mul, mul_assoc]
      refine predicts_typeName.bind fun type q => ?_
      refine (predicts_consume (by simp)).bind fun name q => ?_
      refine (quiet_declare _ _ _ _).predicts.bind fun _ q => ?_
      refine predicts_accept_bind (by simp) ?_ (fun q => inductionHypothesis) (predicts_pure _)
      exact closes.mono fun k same => of_decide_eq_true same ▸ rfl

/-- There may be no parameters, and the closing parenthesis tells so. -/
theorem predicts_parameters [Productive K]
    (closes : BeginsWith (fun k => k = .symbol .rightParen) K) :
    (parameters options bound).Predicts p
      ((1 + separated (.symbol .comma) typedNames) * K) K := by
  rw [add_mul, one_mul]
  refine predicts_peek_bind fun t current => ?_
  split
  · rename_i more
    refine (predicts_parametersBehind closes).widen current (.right (closes.not_viable ?_))
    rw [Token.kind_lexeme, decide_eq_false more]
  · rename_i close
    refine (predicts_pure _).widen current (.left ?_)
    apply (beginsWith_single _).mul.mul.mul.not_viable
    rw [Token.kind_lexeme, not_not.mp close]
    rfl

/-! ## Subroutines -/

theorem predicts_resultType [Productive K] : resultType.Predicts p (results * K) K := by
  rw [results, add_mul]
  refine predicts_accept_bind (by simp) ?_ (fun q => predicts_pure _) ?_
  · refine (beginsWith_single _).mul.mono fun k isType => ?_
    cases k with
    | keyword w => cases w <;> first | rfl | cases isType
    | _ => rfl
  · exact predicts_typeName.bind fun _ q => predicts_pure _

/-- The body of a subroutine.  The number of its local variables and whether it is `void` are told
to the compiler, and no lexeme depends on them. -/
theorem predicts_body (className : String) (kind : SubroutineKind) (name : String) (isVoid : Bool)
    [Productive K] :
    (body options className kind name isVoid bound).Predicts p (bodies * K) K := by
  simp only [bodies, mul_assoc]
  refine (predicts_symbol _).bind fun _ q => ?_
  refine (predicts_localVariables ?_).bind fun _ q => ?_
  · rw [statementLists_eq]
    apply BeginsWith.kstar_mul _ (beginsWith_ofKind rfl).mul
    refine selects_statementForms.beginsWith.mono fun k statement => ?_
    cases k with
    | keyword w => cases w <;> first | rfl | cases statement
    | _ => rfl
  refine (quiet_count _).predicts.bind fun locals q => ?_
  refine (quiet_count _).predicts.bind fun fields q => ?_
  refine (quiet_emit _).predicts.bind fun _ q => ?_
  refine quiet_freshLabel.predicts.bind fun id q => ?_
  refine ((predictStatements _ bound).statements q false false _
    (beginsWith_ofKind rfl).mul).bind fun jumps q => ?_
  refine (predicts_symbol _).bind fun _ q => ?_
  refine (quiet_emit _).predicts.bind fun _ q => ?_
  exact (quiet_record _).predicts

/-- The object of a method is declared without a lexeme. -/
theorem quiet_receiver (kind : SubroutineKind) (className : String) :
    (receiver kind className).Quiet := by
  cases kind with
  | method => exact (quiet_define _ _ _).bind fun _ => quiet_pure _
  | constructor => exact quiet_pure _
  | function => exact quiet_pure _

/-- Behind its first word, all kinds of subroutines have the same form. -/
theorem predicts_subroutine (className : String) (kind : SubroutineKind) [Productive K]
    (current : p.stream.current = .ok t) (word : t.kind = .keyword kind.word) :
    (subroutine options className kind bound).Predicts p (subroutineForms kind * K) K := by
  rw [subroutineForms, subroutineRests, mul_assoc, mul_assoc, mul_assoc, mul_assoc, mul_assoc,
    mul_assoc]
  refine (predicts_skip_ofKind current word (by simp)).bind fun _ q => ?_
  refine predicts_resultType.bind fun isVoid q => ?_
  refine (predicts_consume (by simp)).bind fun name q => ?_
  refine (quiet_record _).predicts.bind fun _ q => ?_
  refine quiet_startSubroutine.predicts.bind fun _ q => ?_
  refine (quiet_receiver _ _).predicts.bind fun _ q => ?_
  refine (predicts_symbol _).bind fun _ q => ?_
  refine (predicts_parameters (beginsWith_ofKind (by rfl)).mul).bind fun _ q => ?_
  refine (predicts_symbol _).bind fun _ q => ?_
  exact predicts_body className kind _ isVoid

/-- Subroutines, of which there may be none.  What follows them starts none. -/
theorem predicts_subroutines (className : String) [Productive K]
    (closes : BeginsWith TokenKind.closesBlock K) :
    (subroutines options className bound).Predicts p ((⨆ kind, subroutineForms kind)∗ * K) K := by
  induction bound generalizing p with
  | zero => exact predicts_exhausted
  | succ bound inductionHypothesis =>
      rw [subroutines]
      refine predicts_peek_bind fun t current => ?_
      cases start : t.kind.subroutineKind? with
      | none =>
          rw [← Token.kind_lexeme] at start
          exact (predicts_pure _).widen current (selects_subroutineForms.narrows_end start)
      | some kind =>
          have word := TokenKind.eq_of_subroutineKind? start
          rw [← Token.kind_lexeme] at start
          have other : ¬ Viable K [t.lexeme] := by
            apply closes.not_viable
            rw [Token.kind_lexeme, word]
            rfl
          refine Predicts.widen ?_ current (selects_subroutineForms.narrows_kstar_mul start other)
          exact (predicts_subroutine className kind current word).bind
            fun _ q => inductionHypothesis

/-! ## Classes -/

/-- Every error of the step is blamed on the first token that is not possible. -/
def Faults {α : Type} (x : Step α) (p : Progress) (before : Language Lexeme) : Prop :=
  ∀ e q, x p = .error (.failed e) q → p.stream.Blames before e q.stream

/-- The last step need not tell what remains, since nothing is read behind it. -/
theorem Predicts.bind_faults {α β : Type} {x : Step α} {f : α → Step β}
    {before behind : Language Lexeme} (first : x.Predicts p before behind)
    (second : ∀ a q, (f a).Faults q behind) : (x >>= f).Faults p before := by
  intro e q failed
  unfold Predicts at first
  simp only [Bind.bind, EStateM.bind] at failed
  cases run : x p with
  | ok a r =>
      rw [run] at first failed
      rcases first with ⟨w, readsOff⟩
      exact readsOff.blames (second a r e q failed)
  | error stop r =>
      rw [run] at first failed
      cases failed
      exact first

/-- The end of file is the last token, and nothing is read behind it. -/
theorem faults_consume_endOfFile {β : Type} {f : Token → Step β} (quiet : ∀ t, (f t).Quiet) :
    (consume .endOfFile >>= f).Faults p (ofKind .endOfFile) := by
  intro e q failed
  simp only [Bind.bind, EStateM.bind, consume, TokenStream.consume, TokenStream.consumeIf] at failed
  cases current : p.stream.current with
  | error fault =>
      simp only [current] at failed
      cases failed
      exact blames_lexical current
  | ok t =>
      by_cases last : t.kind = .endOfFile
      · simp only [current, List.mem_singleton, last, if_true] at failed
        have same := quiet t { p with stream := p.stream.advance }
        rw [failed] at same
        cases e with
        | token e => exact same.elim
        | symbol e place => trivial
        | redeclared name place => trivial
      · simp only [current, List.mem_singleton, last, if_false] at failed
        cases failed
        apply blames_unexpected current
        rintro ⟨v, member⟩
        rcases mem_ofKind.mp member with ⟨l, kind, same⟩
        cases same
        rw [Token.kind_lexeme] at kind
        exact last kind

/-- A compilation that fails for the grammar fails at the first lexeme with which no class can go
on. -/
theorem faults_wholeClass : (wholeClass options bound).Faults p (languageOf ClassTree.lexemes) := by
  rw [classes_eq]
  refine (predicts_consume (by simp)).bind_faults fun _ q => ?_
  refine (predicts_consume (by simp)).bind_faults fun name q => ?_
  refine (predicts_symbol _).bind_faults fun _ q => ?_
  refine (predicts_classVariables ?_).bind_faults fun _ q => ?_
  · apply BeginsWith.kstar_mul _ (beginsWith_ofKind rfl).mul
    refine selects_subroutineForms.beginsWith.mono fun k subroutine => ?_
    cases k with
    | keyword w => cases w <;> first | rfl | cases subroutine
    | _ => rfl
  refine (predicts_subroutines _ (beginsWith_ofKind rfl).mul).bind_faults fun _ q => ?_
  refine (predicts_symbol _).bind_faults fun _ q => ?_
  exact faults_consume_endOfFile fun _ => quiet_codeSize.bind fun _ => quiet_record _

end Step

end Jack
