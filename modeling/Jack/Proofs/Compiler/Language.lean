import Jack.Compiler
import Jack.Proofs.Compiler.ClassSuccess
import Jack.Proofs.Compiler.ClassTree
import Jack.Proofs.Grammar.Unambiguous

namespace Jack

/-!
# The language of the compiler

Which sources compile, and into what.  A source compiles exactly if it is written by the tree of an
acceptable class (`compileClass_eq_ok_iff`).  The grammar is unambiguous, so there is only one such
tree, and the listing is its code, although compilation never builds the tree.
-/

/-! ## The tree of a source -/

/-- The lexemes of a source are determined by it. -/
theorem Lexes.unique {source : List Char} {lexemes lexemes' : List Lexeme}
    (lexes : Lexes source lexemes) (lexes' : Lexes source lexemes') : lexemes = lexemes' := by
  rcases lexes with ⟨tokens, items, rfl⟩
  rcases lexes' with ⟨tokens', items', rfl⟩
  rw [items] at items'
  rw [(List.map_inj_right fun t t' same => Except.ok.inj same).mp items']

/-- At most one tree writes a source. -/
theorem Lexes.tree_unique {source : List Char} {c c' : ClassTree} (lexes : Lexes source c.lexemes)
    (lexes' : Lexes source c'.lexemes) : c' = c :=
  ClassTree.lexemes_injective (lexes'.unique lexes)

/-! ## Success of the compiler -/

namespace Step

/-- A step that is not refused and has no defect succeeds. -/
theorem Succeeds.exists_ok {α : Type} {x : Step α} {p : Progress} {post : α → Progress → Prop}
    (succeeds : x.Succeeds p post) (bounded : ∀ d q, x p ≠ .error (.defect d) q) :
    ∃ a q, x p = .ok a q ∧ post a q := by
  unfold Succeeds at succeeds
  cases result : x p with
  | ok a q =>
      rw [result] at succeeds
      exact ⟨a, q, rfl, succeeds⟩
  | error stop q =>
      cases stop with
      | failed e =>
          rw [result] at succeeds
          exact succeeds.elim
      | defect d => exact absurd result (bounded d q)

end Step

/-- A listing is the result of a run that has emitted it. -/
theorem compileClass_eq_ok_iff_run {options : Options} {source : List Char} {listing : Listing} :
    (compileClass options source).result = .ok listing ↔
      ∃ u p, Step.wholeClass options (stepBound source) (Progress.ofSource source) = .ok u p ∧
        p.code = listing := by
  constructor
  · intro compiled
    cases run : Step.wholeClass options (stepBound source) (Progress.ofSource source) with
    | ok u p =>
        rw [compileClass_of_ok run] at compiled
        exact ⟨u, p, rfl, Except.ok.inj compiled⟩
    | error stop p =>
        cases stop with
        | failed e =>
            rw [compileClass_of_failed run] at compiled
            cases compiled
        | defect d => exact absurd run (Step.wholeClass_ne_defect options source d p)
  · rintro ⟨u, p, run, rfl⟩
    rw [compileClass_of_ok run]

/-- Evaluation of the run tells the listing. -/
theorem compileClass_of_emitted (options : Options) (source : List Char) {commands : List Command}
    (emitted : (Step.wholeClass options (stepBound source)).emitted? (.ofSource source) =
      some commands) :
    (compileClass options source).result = .ok commands.toArray := by
  rcases Step.emitted?_eq_some.mp emitted with ⟨u, p, run, rfl⟩
  exact compileClass_eq_ok_iff_run.mpr ⟨u, p, run, Array.toArray_toList.symm⟩

/-- An error is the result of a run that fails for it. -/
theorem compileClass_eq_error_iff_run {options : Options} {source : List Char}
    {e : CompileError} :
    (compileClass options source).result = .error e ↔
      ∃ p, Step.wholeClass options (stepBound source) (Progress.ofSource source) =
        .error (.failed e) p := by
  constructor
  · intro failed
    cases run : Step.wholeClass options (stepBound source) (Progress.ofSource source) with
    | ok u p =>
        rw [compileClass_of_ok run] at failed
        cases failed
    | error stop p =>
        cases stop with
        | failed e' =>
            rw [compileClass_of_failed run] at failed
            cases failed
            exact ⟨p, rfl⟩
        | defect d => exact absurd run (Step.wholeClass_ne_defect options source d p)
  · rintro ⟨p, run⟩
    rw [compileClass_of_failed run]

/-- Evaluation of the run tells the error. -/
theorem compileClass_of_failure (options : Options) (source : List Char) {e : CompileError}
    (failure : (Step.wholeClass options (stepBound source)).failure? (.ofSource source) = some e) :
    (compileClass options source).result = .error e :=
  compileClass_eq_error_iff_run.mpr (Step.failure?_eq_some.mp failure)

/-- A source compiles to a listing if and only if it is written by an acceptable class whose code is
that listing. -/
theorem compileClass_eq_ok_iff {options : Options} {source : List Char} {listing : Listing} :
    (compileClass options source).result = .ok listing ↔
      ∃ c : ClassTree, Lexes source c.lexemes ∧ c.Acceptable options ∧
        listing.toList = c.code options := by
  rw [compileClass_eq_ok_iff_run]
  constructor
  · rintro ⟨u, p, run, rfl⟩
    exact Step.wholeClass_ok run
  · rintro ⟨c, lexes, acceptable, code⟩
    rcases (Step.succeeds_wholeClass c lexes acceptable
        (stepBound source)).exists_ok (Step.wholeClass_ne_defect options source) with
      ⟨u, p, run, -⟩
    rcases Step.wholeClass_ok run with ⟨c', lexes', -, code'⟩
    rw [lexes.tree_unique lexes', ← code] at code'
    exact ⟨u, p, run, Array.toList_inj.mp code'⟩

/-- The compiler accepts exactly its language: the source splits into tokens without a fault, the
tokens are derivable from the grammar, and the class that they write is acceptable. -/
theorem compileWith_isOk_iff (options : Options) (source : String) :
    (∃ text, compileWith options source = .ok text) ↔
      ∃ tokens : List Token, (Lexer.ofSource source.toList).items = tokens.map .ok ∧
        ∃ c : ClassTree, tokens.map Token.lexeme = c.lexemes ∧ c.Acceptable options := by
  have accepted : (∃ text, compileWith options source = .ok text) ↔
      ∃ listing, (compileClass options source.toList).result = .ok listing := by
    unfold compileWith
    cases (compileClass options source.toList).result with
    | ok listing => exact ⟨fun _ => ⟨listing, rfl⟩, fun _ => ⟨listing.text, rfl⟩⟩
    | error e => exact ⟨fun ⟨_, same⟩ => (nomatch same), fun ⟨_, same⟩ => (nomatch same)⟩
  rw [accepted]
  constructor
  · rintro ⟨listing, compiled⟩
    rcases compileClass_eq_ok_iff.mp compiled with ⟨c, ⟨tokens, items, written⟩, acceptable, -⟩
    exact ⟨tokens, items, c, written, acceptable⟩
  · rintro ⟨tokens, items, c, written, acceptable⟩
    exact ⟨(c.code options).toArray,
      compileClass_eq_ok_iff.mpr ⟨c, ⟨tokens, items, written⟩, acceptable, rfl⟩⟩

end Jack
