import Jack.Proofs.Lockstep.Statement

namespace Jack

/-!
# Classes in step

Two compilations of classes keep up with each other if both or none of them are strict about
declarations.  They may differ in whether a `return` at the end of a subroutine needs a jump.
-/

namespace PartialCoupling

variable {c : PartialCoupling} {o o' : Options} {className : String}

/-! ## Declarations -/

theorem inStep_typeName : c.InStep Step.typeName Step.typeName Eq := by
  unfold Step.typeName
  refine inStep_peek.bind fun t u tokens => ?_
  rw [c.kind tokens]
  split
  · rw [c.text tokens]
    exact inStep_skip.bind_eq fun _ => inStep_pure rfl
  · exact inStep_unexpected _ tokens

/-- Both compilations declare the same name or refuse it for corresponding reasons.  What they
record may differ, since events hold places. -/
theorem inStep_declare (sameStrict : o.strictDeclarations = o'.strictDeclarations) {t u : Token}
    (tokens : c.tokens t u) (type : String) (kind : SymbolKind) :
    c.InStep (Step.declare o t type kind) (Step.declare o' u type kind) Eq := by
  unfold Step.declare
  rw [c.text tokens]
  refine (inStep_locate_define _ _ _ tokens).bind_eq fun previous => ?_
  cases previous with
  | none => exact inStep_pure rfl
  | some previous =>
      dsimp only
      rw [sameStrict]
      split
      · exact inStep_redeclared _ tokens
      · exact inStep_record _ _

/-- Names of one declaration, one after the other.  The proof is by induction on both bounds, and
nothing is said if one of them is exhausted. -/
theorem inStep_names (sameStrict : o.strictDeclarations = o'.strictDeclarations) (type : String)
    (kind : SymbolKind) (bound bound' : Nat) :
    c.InStep (Step.names o type kind bound) (Step.names o' type kind bound') Eq := by
  induction bound generalizing bound' with
  | zero => exact inStep_exhausted_left
  | succ bound inductionHypothesis =>
      refine inStep_of_bound rfl (fun bound' => ?_) bound'
      rw [Step.names, Step.names]
      refine (inStep_consume _).bind fun name name' tokens => ?_
      refine (inStep_declare sameStrict tokens type kind).bind_eq fun _ => ?_
      refine (inStep_accept _).bind_eq fun more => ?_
      cases more with
      | true => exact inductionHypothesis bound'
      | false => exact inStep_pure rfl

theorem inStep_declaration (sameStrict : o.strictDeclarations = o'.strictDeclarations)
    (kind : SymbolKind) (bound bound' : Nat) :
    c.InStep (Step.declaration o kind bound) (Step.declaration o' kind bound') Eq := by
  unfold Step.declaration
  refine inStep_typeName.bind_eq fun type => ?_
  refine (inStep_names sameStrict type kind bound bound').bind_eq fun _ => ?_
  exact inStep_symbol _

/-- Both compilations find the same word, or another one that ends the declarations. -/
theorem inStep_classVariables (sameStrict : o.strictDeclarations = o'.strictDeclarations)
    (bound bound' : Nat) :
    c.InStep (Step.classVariables o bound) (Step.classVariables o' bound') Eq := by
  induction bound generalizing bound' with
  | zero => exact inStep_exhausted_left
  | succ bound inductionHypothesis =>
      refine inStep_of_bound rfl (fun bound' => ?_) bound'
      rw [Step.classVariables, Step.classVariables]
      refine inStep_peek.bind fun t u tokens => ?_
      rw [c.kind tokens]
      split
      · refine inStep_skip.bind_eq fun _ => ?_
        exact (inStep_declaration sameStrict _ _ _).bind_eq fun _ => inductionHypothesis bound'
      · refine inStep_skip.bind_eq fun _ => ?_
        exact (inStep_declaration sameStrict _ _ _).bind_eq fun _ => inductionHypothesis bound'
      · exact inStep_pure rfl

/-- Both compilations find the word `var`, or another token that ends the declarations. -/
theorem inStep_localVariables (sameStrict : o.strictDeclarations = o'.strictDeclarations)
    (bound bound' : Nat) :
    c.InStep (Step.localVariables o bound) (Step.localVariables o' bound') Eq := by
  induction bound generalizing bound' with
  | zero => exact inStep_exhausted_left
  | succ bound inductionHypothesis =>
      refine inStep_of_bound rfl (fun bound' => ?_) bound'
      rw [Step.localVariables, Step.localVariables]
      refine inStep_peek.bind fun t u tokens => ?_
      rw [c.kind tokens]
      split
      · refine inStep_skip.bind_eq fun _ => ?_
        exact (inStep_declaration sameStrict _ _ _).bind_eq fun _ => inductionHypothesis bound'
      · exact inStep_pure rfl

theorem inStep_parametersBehind (sameStrict : o.strictDeclarations = o'.strictDeclarations)
    (bound bound' : Nat) :
    c.InStep (Step.parametersBehind o bound) (Step.parametersBehind o' bound') Eq := by
  induction bound generalizing bound' with
  | zero => exact inStep_exhausted_left
  | succ bound inductionHypothesis =>
      refine inStep_of_bound rfl (fun bound' => ?_) bound'
      rw [Step.parametersBehind, Step.parametersBehind]
      refine inStep_typeName.bind_eq fun type => ?_
      refine (inStep_consume _).bind fun name name' tokens => ?_
      refine (inStep_declare sameStrict tokens type .argument).bind_eq fun _ => ?_
      refine (inStep_accept _).bind_eq fun more => ?_
      cases more with
      | true => exact inductionHypothesis bound'
      | false => exact inStep_pure rfl

theorem inStep_parameters (sameStrict : o.strictDeclarations = o'.strictDeclarations)
    (bound bound' : Nat) :
    c.InStep (Step.parameters o bound) (Step.parameters o' bound') Eq := by
  unfold Step.parameters
  refine inStep_peek.bind fun t u tokens => ?_
  rw [c.kind tokens]
  split
  · exact inStep_parametersBehind sameStrict bound bound'
  · exact inStep_pure rfl

/-! ## Subroutines -/

/-- Both compilations find the same result type. -/
theorem inStep_resultType : c.InStep Step.resultType Step.resultType Eq := by
  unfold Step.resultType
  refine (inStep_accept _).bind_eq fun isVoid => ?_
  cases isVoid with
  | true => exact inStep_pure rfl
  | false => exact inStep_typeName.bind_eq fun _ => inStep_pure rfl

theorem inStep_receiver (kind : SubroutineKind) (className : String) :
    c.InStep (Step.receiver kind className) (Step.receiver kind className) Eq := by
  cases kind with
  | method => exact (inStep_define _ _ _).bind_eq fun _ => inStep_pure rfl
  | constructor => exact inStep_pure rfl
  | function => exact inStep_pure rfl

/-- All statements of a subroutine, whether or not jumps are left out. -/
theorem inStep_bodyStatements {f g : Frame} (sameClass : f.className = g.className)
    (choice : f.foldTailReturn = g.foldTailReturn ∨ g.foldTailReturn = false)
    (bound bound' : Nat) :
    c.InStep (Step.statements f bound false false) (Step.statements g bound' false false)
      fun _ _ => True := by
  rcases choice with same | keeps
  · exact ((statementsInStep c sameClass bound bound').statements false (.inr same)).mono
      fun _ _ _ => trivial
  · exact inStep_statements_of_not_fold sameClass keeps false false false bound bound'

/-- The bodies of a subroutine go in step.  Their code may differ in the jumps of tail returns, and
so may the labels at their ends, but no numbers do. -/
theorem inStep_body (sameStrict : o.strictDeclarations = o'.strictDeclarations)
    (choice : o.foldTailReturn = o'.foldTailReturn ∨ o'.foldTailReturn = false)
    (kind : SubroutineKind) (name : String) (isVoid : Bool) (bound bound' : Nat) :
    c.InStep (Step.body o className kind name isVoid bound)
      (Step.body o' className kind name isVoid bound') Eq := by
  unfold Step.body
  refine (inStep_symbol _).bind_eq fun _ => ?_
  refine (inStep_localVariables sameStrict bound bound').bind_eq fun _ => ?_
  refine (inStep_count _).bind_eq fun locals => ?_
  refine (inStep_count _).bind_eq fun fields => ?_
  refine (inStep_emit _ _).bind_eq fun _ => ?_
  refine inStep_freshLabel.bind_eq fun id => ?_
  refine (inStep_bodyStatements (f := ⟨className, Code.endLabel id, o.foldTailReturn⟩)
    (g := ⟨className, Code.endLabel id, o'.foldTailReturn⟩) rfl choice bound bound').bind
    fun jumps jumps' _ => ?_
  refine (inStep_symbol _).bind_eq fun _ => ?_
  exact (inStep_emit _ _).bind_eq fun _ => inStep_record _ _

/-- Both compilations pass the same subroutine. -/
theorem inStep_subroutine (sameStrict : o.strictDeclarations = o'.strictDeclarations)
    (choice : o.foldTailReturn = o'.foldTailReturn ∨ o'.foldTailReturn = false)
    (kind : SubroutineKind) (bound bound' : Nat) :
    c.InStep (Step.subroutine o className kind bound)
      (Step.subroutine o' className kind bound') Eq := by
  unfold Step.subroutine
  refine inStep_skip.bind_eq fun _ => ?_
  refine inStep_resultType.bind_eq fun isVoid => ?_
  refine (inStep_consume _).bind fun name name' tokens => ?_
  rw [c.text tokens]
  refine (inStep_record _ _).bind_eq fun _ => ?_
  refine inStep_startSubroutine.bind_eq fun _ => ?_
  refine (inStep_receiver kind className).bind_eq fun _ => ?_
  refine (inStep_symbol _).bind_eq fun _ => ?_
  refine (inStep_parameters sameStrict bound bound').bind_eq fun _ => ?_
  refine (inStep_symbol _).bind_eq fun _ => ?_
  exact inStep_body sameStrict choice kind _ isVoid bound bound'

/-- Both compilations pass the same subroutines, up to a token that starts none. -/
theorem inStep_subroutines (sameStrict : o.strictDeclarations = o'.strictDeclarations)
    (choice : o.foldTailReturn = o'.foldTailReturn ∨ o'.foldTailReturn = false)
    (bound bound' : Nat) :
    c.InStep (Step.subroutines o className bound) (Step.subroutines o' className bound') Eq := by
  induction bound generalizing bound' with
  | zero => exact inStep_exhausted_left
  | succ bound inductionHypothesis =>
      refine inStep_of_bound rfl (fun bound' => ?_) bound'
      rw [Step.subroutines, Step.subroutines]
      refine inStep_peek.bind fun t u tokens => ?_
      rw [c.kind tokens]
      cases u.kind.subroutineKind? with
      | none => exact inStep_pure rfl
      | some kind =>
          exact (inStep_subroutine sameStrict choice kind bound bound').bind_eq
            fun _ => inductionHypothesis bound'

/-! ## Classes -/

/-- Two compilations keep up with each other to the end of their classes. -/
theorem inStep_wholeClass (c : PartialCoupling)
    (sameStrict : o.strictDeclarations = o'.strictDeclarations)
    (choice : o.foldTailReturn = o'.foldTailReturn ∨ o'.foldTailReturn = false)
    (bound bound' : Nat) :
    c.InStep (Step.wholeClass o bound) (Step.wholeClass o' bound') Eq := by
  unfold Step.wholeClass
  refine (inStep_consume _).bind fun _ _ _ => ?_
  refine (inStep_consume _).bind fun name name' tokens => ?_
  rw [c.text tokens]
  refine (inStep_symbol _).bind_eq fun _ => ?_
  refine (inStep_classVariables sameStrict bound bound').bind_eq fun _ => ?_
  refine (inStep_subroutines sameStrict choice bound bound').bind_eq fun _ => ?_
  refine (inStep_symbol _).bind_eq fun _ => ?_
  refine (inStep_consume _).bind fun _ _ _ => ?_
  exact inStep_codeSize.bind fun _ _ _ => inStep_record _ _

end PartialCoupling

/-- Two compilations that start alike either both succeed or fail for corresponding errors. -/
theorem compileClass_corresponds (c : Coupling) {o o' : Options} {source source' : List Char}
    (sameStrict : o.strictDeclarations = o'.strictDeclarations)
    (choice : o.foldTailReturn = o'.foldTailReturn ∨ o'.foldTailReturn = false)
    (streams : c.streams (.ofSource source) (.ofSource source')) :
    (∃ listing listing', (compileClass o source).result = .ok listing ∧
        (compileClass o' source').result = .ok listing') ∨
      ∃ e e', (compileClass o source).result = .error e ∧
        (compileClass o' source').result = .error e' ∧ c.errors e e' := by
  have meets := (c.toPartial.inStep_wholeClass sameStrict choice (stepBound source)
    (stepBound source')).meets (.ofSource source) (.ofSource source') ⟨streams, rfl, rfl⟩
  cases run : Step.wholeClass o (stepBound source) (.ofSource source) <;>
    cases run' : Step.wholeClass o' (stepBound source') (.ofSource source') <;>
    rw [run, run'] at meets
  case ok.ok =>
      rw [compileClass_of_ok run, compileClass_of_ok run']
      exact .inl ⟨_, _, rfl, rfl⟩
  case ok.error =>
      cases meets with
      | rightDefect => exact absurd run' (Step.wholeClass_ne_defect o' source' _ _)
      | behind left =>
          rcases left.exists_defect with ⟨_, _, reached⟩
          cases reached
  case error.ok =>
      cases meets with
      | leftDefect => exact absurd run (Step.wholeClass_ne_defect o source _ _)
      | behind left =>
          rcases left.exists_defect with ⟨_, _, reached⟩
          exact absurd (run.trans reached) (Step.wholeClass_ne_defect o source _ _)
  case error.error =>
      cases meets with
      | failed errors =>
          rw [compileClass_of_failed run, compileClass_of_failed run']
          exact .inr ⟨_, _, rfl, rfl, errors⟩
      | leftDefect => exact absurd run (Step.wholeClass_ne_defect o source _ _)
      | rightDefect => exact absurd run' (Step.wholeClass_ne_defect o' source' _ _)
      | behind left =>
          rcases left.exists_defect with ⟨_, _, reached⟩
          exact absurd (run.trans reached) (Step.wholeClass_ne_defect o source _ _)

/-- If one of two compilations fails within what they have in common, so does the other one, for a
corresponding error. -/
theorem compileClass_corresponds_of_failed (c : PartialCoupling) {o o' : Options}
    {source source' : List Char} (sameStrict : o.strictDeclarations = o'.strictDeclarations)
    (choice : o.foldTailReturn = o'.foldTailReturn ∨ o'.foldTailReturn = false)
    (streams : c.streams (.ofSource source) (.ofSource source')) {e : CompileError} {p : Progress}
    (run : Step.wholeClass o (stepBound source) (.ofSource source) = .error (.failed e) p)
    (within : ¬ c.passed p.stream) (heeded : ¬ c.ignored e) :
    ∃ e', (compileClass o' source').result = .error e' ∧ c.errors e e' := by
  have meets := (c.inStep_wholeClass sameStrict choice (stepBound source)
    (stepBound source')).meets (.ofSource source) (.ofSource source') ⟨streams, rfl, rfl⟩
  rw [run] at meets
  generalize right : Step.wholeClass o' (stepBound source') (.ofSource source') = r at meets
  cases meets with
  | failed errors =>
      rw [compileClass_of_failed right]
      exact ⟨_, rfl, errors⟩
  | rightDefect => exact absurd right (Step.wholeClass_ne_defect o' source' _ _)
  | behind left => exact absurd left (not_or.mpr ⟨within, heeded⟩)

end Jack
