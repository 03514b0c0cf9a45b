import Jack.Proofs.Termination.Passing
import Jack.Proofs.Termination.Routine

namespace Jack

/-!
# What the functions of the compiler pass before they call

Two families of functions to be called may differ.  As long as they do the same where they are
called, the functions of the compiler do the same with both (`Callees.Agree.next`).  A call comes
behind a token that has been passed since the caller started, or it goes to a function of a lower
level; so no function comes back to itself without having passed a token.
-/

namespace Routine

/-- As long as a function has passed no token, it calls only functions of a lower level. -/
def level : Routine → Nat
  | arguments => 4
  | argumentsBehind => 3
  | expression => 2
  | term => 1
  | statements => 2
  | statement => 1
  | _ => 0

/-- No chain of calls without a token is longer than five functions. -/
theorem level_le (x : Routine) : x.level ≤ 4 := by
  cases x <;> decide

/-- So many tokens are passed at least. -/
def least : Routine → Nat
  | operators | arguments | statements | classVariables | localVariables | subroutines => 0
  | _ => 1

/-- What holds where the function is called: the functions that pass their first word without a look
at it have been chosen by that word. -/
def Ready : Routine → Progress → Prop
  | statement, p | ifStatement, p | whileStatement, p => p.stream.Shows (· ≠ .endOfFile)
  | _, _ => True

end Routine

namespace Callees

open Step Routine

variable {callees callees' : Callees} {start : Progress} {highest : Nat}

/-- The functions of two families do the same where a function that has started there can call them:
behind a token, or on a lower level. -/
def Agree (callees callees' : Callees) (start : Progress) (highest : Nat) : Prop :=
  ∀ (y : Routine) (parameters : y.Parameters) (q : Progress), y.Ready q →
    (start.Advances 1 q ∨ start.Advances 0 q ∧ y.level < highest) →
      Alike q q y.least (callees y parameters) (callees' y parameters)

/-- A call behind a token. -/
theorem Agree.behind (agree : Agree callees callees' start highest) (y : Routine)
    (parameters : y.Parameters) {q : Progress} {n : Nat} (passed : start.Advances (n + 1) q)
    (ready : y.Ready q) :
    Alike start q (n + 1) (callees y parameters) (callees' y parameters) :=
  (Alike.trans passed (agree y parameters q ready (.inl (passed.mono (by omega))))).mono (by omega)

/-- A call on a lower level. -/
theorem Agree.below (agree : Agree callees callees' start highest) (y : Routine)
    (parameters : y.Parameters) {q : Progress} (passed : start.Advances 0 q) (ready : y.Ready q)
    (lower : y.level < highest) :
    Alike start q y.least (callees y parameters) (callees' y parameters) :=
  (Alike.trans passed (agree y parameters q ready (.inr ⟨passed, lower⟩))).mono (by omega)

/-! ## Expressions -/

/-- The term is called on a lower level, and the operators behind a token. -/
theorem Agree.expression (agree : Agree callees callees' start 2) (className : String) :
    Alike start start 1 (callees.expression className) (callees'.expression className) := by
  refine (agree.below .term className (.refl start) trivial (by decide)).bind fun _ q passed => ?_
  exact agree.behind .operators className passed trivial

/-- All calls come behind a token. -/
theorem Agree.operators (agree : Agree callees callees' start 0) (className : String) :
    Alike start start 0 (callees.operators className) (callees'.operators className) := by
  refine Alike.peek_bind (.refl start) fun t current => ?_
  split
  · rename_i operator
    have more : t.kind ≠ .endOfFile := by
      intro last
      rw [last] at operator
      cases operator
    refine (alike_skip (.refl start) current more).bind fun _ q passed => ?_
    refine (agree.behind .term className passed trivial).bind fun _ q passed => ?_
    refine ((still_binaryOperation t).alike passed).bind fun _ q passed => ?_
    exact (agree.behind .operators className passed trivial).mono (by omega)
  · exact (still_pure _).alike (.refl start)

/-- Elements and calls are called on a lower level, since the name in front has only been looked at.
-/
theorem Agree.term (agree : Agree callees callees' start 1) (className : String) :
    Alike start start 1 (callees.term className) (callees'.term className) := by
  refine Alike.peek_bind (.refl start) fun t current => ?_
  by_cases last : t.kind = .endOfFile
  · rw [last]
    exact alike_unexpected _ _ (.refl start)
  have skipping := alike_skip (.refl start) current last
  cases t.kind.termKind? with
  | none => exact alike_unexpected _ _ (.refl start)
  | some kind =>
      cases kind with
      | integer => exact skipping.bind fun _ q passed => (still_integerConstant t).alike passed
      | string => exact skipping.bind fun _ q passed => (still_stringConstant t).alike passed
      | constant k => exact skipping.bind fun _ q passed => (still_emit _).alike passed
      | unary o =>
          refine skipping.bind fun _ q passed => ?_
          refine (agree.behind .term className passed trivial).bind fun _ q passed => ?_
          exact (still_emit _).alike passed
      | parenthesis =>
          refine skipping.bind fun _ q passed => ?_
          refine (agree.behind .expression className passed trivial).bind fun _ q passed => ?_
          exact (alike_symbol passed).mono (by omega)
      | name =>
          refine (still_peekNext.alike (.refl start)).bind fun following q passed => ?_
          split
          · exact agree.below .element className passed trivial (by decide)
          · exact agree.below .call className passed trivial (by decide)
          · exact agree.below .call className passed trivial (by decide)
          · refine (alike_consume passed (by simp)).bind fun name q passed => ?_
            refine ((still_resolve name).alike passed).bind fun s q passed => ?_
            exact (still_emit _).alike passed

theorem Agree.element (agree : Agree callees callees' start 0) (className : String) :
    Alike start start 1 (callees.element className) (callees'.element className) := by
  refine (alike_consume (.refl start) (by simp)).bind fun name q passed => ?_
  refine ((still_resolve name).alike passed).bind fun array q passed => ?_
  refine (alike_symbol passed).bind fun _ q passed => ?_
  refine ((still_emit _).alike passed).bind fun _ q passed => ?_
  refine (agree.behind .expression className passed trivial).bind fun _ q passed => ?_
  refine (alike_symbol passed).bind fun _ q passed => ?_
  exact ((still_emit _).alike passed).mono (by omega)

theorem Agree.call (agree : Agree callees callees' start 0) (className : String) :
    Alike start start 1 (callees.call className) (callees'.call className) := by
  refine (alike_callee className (.refl start)).bind fun target q passed => ?_
  refine (alike_symbol passed).bind fun _ q passed => ?_
  refine (agree.behind .arguments className passed trivial).bind fun listed q passed => ?_
  refine (alike_consume passed (by simp)).bind fun close q passed => ?_
  dsimp only
  split
  · exact alike_unexpected _ _ passed
  · exact ((still_emit _).alike passed).mono (by omega)

/-- The loop over arguments is called on a lower level. -/
theorem Agree.arguments (agree : Agree callees callees' start 4) (className : String) :
    Alike start start 0 (callees.arguments className) (callees'.arguments className) := by
  refine Alike.peek_bind (.refl start) fun t _ => ?_
  split
  · exact (still_pure _).alike (.refl start)
  · exact (agree.below .argumentsBehind (className, 0) (.refl start) trivial (by decide)).mono
      (by omega)

/-- The expression is called on a lower level, and the next round behind a token. -/
theorem Agree.argumentsBehind (agree : Agree callees callees' start 3) (className : String)
    (count : Nat) :
    Alike start start 1 (callees.argumentsBehind className count)
      (callees'.argumentsBehind className count) := by
  refine Alike.peek_bind (.refl start) fun first _ => ?_
  split
  · exact alike_unexpected _ _ (.refl start)
  · refine (agree.below .expression className (.refl start) trivial (by decide)).bind
      fun _ q passed => ?_
    refine Alike.accept_bind passed (by simp) (fun q passed => ?_) ?_
    · exact (agree.behind .argumentsBehind (className, count + 1) passed trivial).mono (by omega)
    · exact (still_pure _).alike passed

/-! ## Statements -/

theorem Agree.letStatement (agree : Agree callees callees' start 1) (f : Frame)
    (ready : start.stream.Shows (· ≠ .endOfFile)) :
    Alike start start 1 (callees.letStatement f) (callees'.letStatement f) := by
  refine (alike_skip_of_shows (.refl start) ready).bind fun _ q passed => ?_
  refine (alike_consume passed (by simp)).bind fun name q passed => ?_
  refine ((still_resolve name).alike passed).bind fun target q passed => ?_
  refine Alike.accept_bind passed (by simp) (fun q passed => ?_) ?_
  · refine ((still_emit _).alike passed).bind fun _ q passed => ?_
    refine (agree.behind .expression f.className passed trivial).bind fun _ q passed => ?_
    refine (alike_symbol passed).bind fun _ q passed => ?_
    refine ((still_emit _).alike passed).bind fun _ q passed => ?_
    refine (alike_symbol passed).bind fun _ q passed => ?_
    refine (agree.behind .expression f.className passed trivial).bind fun _ q passed => ?_
    refine (alike_symbol passed).bind fun _ q passed => ?_
    exact ((still_emit _).alike passed).mono (by omega)
  · refine (alike_symbol passed).bind fun _ q passed => ?_
    refine (agree.behind .expression f.className passed trivial).bind fun _ q passed => ?_
    refine (alike_symbol passed).bind fun _ q passed => ?_
    exact ((still_emit _).alike passed).mono (by omega)

theorem Agree.doStatement (agree : Agree callees callees' start 1) (f : Frame)
    (ready : start.stream.Shows (· ≠ .endOfFile)) :
    Alike start start 1 (callees.doStatement f) (callees'.doStatement f) := by
  refine (alike_skip_of_shows (.refl start) ready).bind fun _ q passed => ?_
  refine (agree.behind .call f.className passed trivial).bind fun _ q passed => ?_
  refine (alike_symbol passed).bind fun _ q passed => ?_
  exact ((still_emit _).alike passed).mono (by omega)

theorem Agree.returnStatement (agree : Agree callees callees' start 1) (f : Frame) (nested : Bool)
    (ready : start.stream.Shows (· ≠ .endOfFile)) :
    Alike start start 1 (callees.returnStatement f nested)
      (callees'.returnStatement f nested) := by
  refine (alike_skip_of_shows (.refl start) ready).bind fun _ q passed => ?_
  have value : Alike start q 1 (callees.returnValue f) (callees'.returnValue f) := by
    refine Alike.peek_bind (passed.mono (by omega)) fun t _ => ?_
    split
    · exact (still_pure _).alike passed
    · exact agree.behind .expression f.className passed trivial
  refine value.bind fun _ q passed => ?_
  refine (alike_symbol passed).bind fun _ q passed => ?_
  refine ((still_needsJump f nested).alike passed).bind fun jumps q passed => ?_
  split
  · exact (((still_emit _).bind fun _ => still_pure _).alike passed).mono (by omega)
  · exact ((still_pure _).alike passed).mono (by omega)

/-- The statement is called on a lower level, and the next round behind a token. -/
theorem Agree.statements (agree : Agree callees callees' start 2) (f : Frame)
    (nested jumps : Bool) :
    Alike start start 0 (callees.statements f nested jumps)
      (callees'.statements f nested jumps) := by
  refine Alike.peek_bind (.refl start) fun t current => ?_
  cases word : t.kind.statementKind? with
  | none => exact (still_pure _).alike (.refl start)
  | some kind =>
      have more := TokenKind.ne_endOfFile_of_statementKind? word
      refine (agree.below .statement (f, nested, kind) (.refl start)
        ⟨t, current, decide_eq_true more⟩ (by decide)).bind fun jumpsHere q passed => ?_
      exact (agree.behind .statements (f, nested, jumps || jumpsHere) passed trivial).mono
        (by omega)

/-- Branches and loops are called on a lower level.  The other forms are written out, and all their
calls come behind a token. -/
theorem Agree.statement (agree : Agree callees callees' start 1) (f : Frame) (nested : Bool)
    (kind : StatementKind) (ready : start.stream.Shows (· ≠ .endOfFile)) :
    Alike start start 1 (callees.statement f nested kind) (callees'.statement f nested kind) := by
  cases kind with
  | «let» =>
      exact (agree.letStatement f ready).bind fun _ q passed => (still_pure _).alike passed
  | «do» =>
      exact (agree.doStatement f ready).bind fun _ q passed => (still_pure _).alike passed
  | «return» => exact agree.returnStatement f nested ready
  | «if» => exact agree.below .ifStatement f (.refl start) ready (by decide)
  | «while» => exact agree.below .whileStatement f (.refl start) ready (by decide)

/-- The statements are called behind the brace. -/
theorem Agree.block (agree : Agree callees callees' start 0) (f : Frame) :
    Alike start start 1 (callees.block f) (callees'.block f) := by
  refine (alike_symbol (.refl start)).bind fun _ q passed => ?_
  refine (agree.behind .statements (f, true, false) passed trivial).bind fun jumps q passed => ?_
  refine (alike_symbol passed).bind fun _ q passed => ?_
  exact ((still_pure _).alike passed).mono (by omega)

/-- All calls come behind a token. -/
theorem Agree.ifStatement (agree : Agree callees callees' start 0) (f : Frame)
    (ready : start.stream.Shows (· ≠ .endOfFile)) :
    Alike start start 1 (callees.ifStatement f) (callees'.ifStatement f) := by
  refine (alike_skip_of_shows (.refl start) ready).bind fun _ q passed => ?_
  refine (alike_symbol passed).bind fun _ q passed => ?_
  refine (agree.behind .expression f.className passed trivial).bind fun _ q passed => ?_
  refine (alike_symbol passed).bind fun _ q passed => ?_
  refine (still_freshLabel.alike passed).bind fun id q passed => ?_
  refine ((still_emit _).alike passed).bind fun _ q passed => ?_
  refine (agree.behind .block f passed trivial).bind fun jumpsThen q passed => ?_
  refine Alike.accept_bind passed (by simp) (fun q passed => ?_) ?_
  · refine ((still_emit _).alike passed).bind fun _ q passed => ?_
    refine (agree.behind .block f passed trivial).bind fun jumpsElse q passed => ?_
    exact (((still_emit _).bind fun _ => still_pure _).alike passed).mono (by omega)
  · exact (((still_emit _).bind fun _ => still_pure _).alike passed).mono (by omega)

theorem Agree.whileStatement (agree : Agree callees callees' start 0) (f : Frame)
    (ready : start.stream.Shows (· ≠ .endOfFile)) :
    Alike start start 1 (callees.whileStatement f) (callees'.whileStatement f) := by
  refine (alike_skip_of_shows (.refl start) ready).bind fun _ q passed => ?_
  refine (still_freshLabel.alike passed).bind fun id q passed => ?_
  refine ((still_emit _).alike passed).bind fun _ q passed => ?_
  refine (alike_symbol passed).bind fun _ q passed => ?_
  refine (agree.behind .expression f.className passed trivial).bind fun _ q passed => ?_
  refine (alike_symbol passed).bind fun _ q passed => ?_
  refine ((still_emit _).alike passed).bind fun _ q passed => ?_
  refine (agree.behind .block f passed trivial).bind fun jumps q passed => ?_
  exact (((still_emit _).bind fun _ => still_pure _).alike passed).mono (by omega)

/-! ## Declarations -/

/-- The next round is called behind a name. -/
theorem Agree.names (agree : Agree callees callees' start 0) (options : Options) (type : String)
    (kind : SymbolKind) :
    Alike start start 1 (callees.names options type kind) (callees'.names options type kind) := by
  refine (alike_consume (.refl start) (by simp)).bind fun name q passed => ?_
  refine ((still_declare options name type kind).alike passed).bind fun _ q passed => ?_
  refine Alike.accept_bind passed (by simp) (fun q passed => ?_) ?_
  · exact (agree.behind .names (options, type, kind) passed trivial).mono (by omega)
  · exact (still_pure _).alike passed

/-- A declaration comes behind the word that starts it. -/
theorem Agree.declaration (agree : Agree callees callees' start 0) (options : Options)
    (kind : SymbolKind) {q : Progress} (passed : start.Advances 1 q) :
    Alike start q 1 (callees.declaration options kind) (callees'.declaration options kind) := by
  refine (alike_typeName passed).bind fun type q passed => ?_
  refine (agree.behind .names (options, type, kind) passed trivial).bind fun _ q passed => ?_
  exact (alike_symbol passed).mono (by omega)

theorem Agree.classVariables (agree : Agree callees callees' start 0) (options : Options) :
    Alike start start 0 (callees.classVariables options) (callees'.classVariables options) := by
  refine Alike.peek_bind (.refl start) fun t current => ?_
  split
  · rename_i word
    refine (alike_skip (.refl start) current (by simp [word])).bind fun _ q passed => ?_
    refine (agree.declaration options .static passed).bind fun _ q passed => ?_
    exact (agree.behind .classVariables options passed trivial).mono (by omega)
  · rename_i word
    refine (alike_skip (.refl start) current (by simp [word])).bind fun _ q passed => ?_
    refine (agree.declaration options .field passed).bind fun _ q passed => ?_
    exact (agree.behind .classVariables options passed trivial).mono (by omega)
  · exact (still_pure _).alike (.refl start)

theorem Agree.localVariables (agree : Agree callees callees' start 0) (options : Options) :
    Alike start start 0 (callees.localVariables options) (callees'.localVariables options) := by
  refine Alike.peek_bind (.refl start) fun t current => ?_
  split
  · rename_i word
    refine (alike_skip (.refl start) current (by simp [word])).bind fun _ q passed => ?_
    refine (agree.declaration options .«local» passed).bind fun _ q passed => ?_
    exact (agree.behind .localVariables options passed trivial).mono (by omega)
  · exact (still_pure _).alike (.refl start)

theorem Agree.parametersBehind (agree : Agree callees callees' start 0) (options : Options) :
    Alike start start 1 (callees.parametersBehind options)
      (callees'.parametersBehind options) := by
  refine (alike_typeName (.refl start)).bind fun type q passed => ?_
  refine (alike_consume passed (by simp)).bind fun name q passed => ?_
  refine ((still_declare options name type .argument).alike passed).bind fun _ q passed => ?_
  refine Alike.accept_bind passed (by simp) (fun q passed => ?_) ?_
  · exact (agree.behind .parametersBehind options passed trivial).mono (by omega)
  · exact ((still_pure _).alike passed).mono (by omega)

/-! ## Subroutines -/

/-- A body comes behind the word that starts its subroutine. -/
theorem Agree.body (agree : Agree callees callees' start 0) (options : Options)
    (className : String) (kind : SubroutineKind) (name : String) (isVoid : Bool) {q : Progress}
    (passed : start.Advances 1 q) :
    Alike start q 1 (callees.body options className kind name isVoid)
      (callees'.body options className kind name isVoid) := by
  refine (alike_symbol passed).bind fun _ q passed => ?_
  refine (agree.behind .localVariables options passed trivial).bind fun _ q passed => ?_
  refine ((still_count _).alike passed).bind fun locals q passed => ?_
  refine ((still_count _).alike passed).bind fun fields q passed => ?_
  refine ((still_emit _).alike passed).bind fun _ q passed => ?_
  refine (still_freshLabel.alike passed).bind fun id q passed => ?_
  refine (agree.behind .statements (_, false, false) passed trivial).bind fun jumps q passed => ?_
  refine (alike_symbol passed).bind fun _ q passed => ?_
  refine ((still_emit _).alike passed).bind fun _ q passed => ?_
  exact ((still_record _).alike passed).mono (by omega)

/-- The next round is called behind a subroutine. -/
theorem Agree.subroutines (agree : Agree callees callees' start 0) (options : Options)
    (className : String) :
    Alike start start 0 (callees.subroutines options className)
      (callees'.subroutines options className) := by
  refine Alike.peek_bind (.refl start) fun t current => ?_
  cases word : t.kind.subroutineKind? with
  | none => exact (still_pure _).alike (.refl start)
  | some kind =>
      have more := TokenKind.ne_endOfFile_of_subroutineKind? word
      have one : Alike start start 1 (callees.subroutine options className kind)
          (callees'.subroutine options className kind) := by
        refine (alike_skip (.refl start) current more).bind fun _ q passed => ?_
        refine (alike_resultType passed).bind fun isVoid q passed => ?_
        refine (alike_consume passed (by simp)).bind fun name q passed => ?_
        refine ((still_record _).alike passed).bind fun _ q passed => ?_
        refine (still_startSubroutine.alike passed).bind fun _ q passed => ?_
        refine ((still_receiver kind className).alike passed).bind fun _ q passed => ?_
        refine (alike_symbol passed).bind fun _ q passed => ?_
        have listed : Alike start q 1 (callees.parameters options)
            (callees'.parameters options) := by
          refine Alike.peek_bind (passed.mono (by omega)) fun t _ => ?_
          split
          · exact (agree.behind .parametersBehind options passed trivial).mono (by omega)
          · exact ((still_pure _).alike passed).mono (by omega)
        refine listed.bind fun _ q passed => ?_
        refine (alike_symbol passed).bind fun _ q passed => ?_
        exact agree.body options className kind _ isVoid (passed.mono (by omega))
      refine one.bind fun _ q passed => ?_
      exact (agree.behind .subroutines (options, className) passed trivial).mono (by omega)

/-! ## All functions -/

/-- If the functions that are called do the same, so do those that call them. -/
theorem Agree.next (x : Routine) (parameters : x.Parameters) (ready : x.Ready start)
    (agree : Agree callees callees' start x.level) :
    Alike start start x.least (callees.next x parameters) (callees'.next x parameters) := by
  cases x with
  | expression => exact agree.expression parameters
  | operators => exact agree.operators parameters
  | term => exact agree.term parameters
  | element => exact agree.element parameters
  | call => exact agree.call parameters
  | arguments => exact agree.arguments parameters
  | argumentsBehind => exact agree.argumentsBehind parameters.1 parameters.2
  | statements => exact agree.statements parameters.1 parameters.2.1 parameters.2.2
  | statement => exact agree.statement parameters.1 parameters.2.1 parameters.2.2 ready
  | block => exact agree.block parameters
  | ifStatement => exact agree.ifStatement parameters ready
  | whileStatement => exact agree.whileStatement parameters ready
  | names => exact agree.names parameters.1 parameters.2.1 parameters.2.2
  | classVariables => exact agree.classVariables parameters
  | localVariables => exact agree.localVariables parameters
  | parametersBehind => exact agree.parametersBehind parameters
  | subroutines => exact agree.subroutines parameters.1 parameters.2

/-- A class without its end. -/
theorem Agree.openClass (agree : Agree callees callees' start 0) (options : Options) :
    Alike start start 4 (callees.openClass options) (callees'.openClass options) := by
  refine (alike_consume (.refl start) (by simp)).bind fun _ q passed => ?_
  refine (alike_consume passed (by simp)).bind fun name q passed => ?_
  refine (alike_symbol passed).bind fun _ q passed => ?_
  refine (agree.behind .classVariables options passed trivial).bind fun _ q passed => ?_
  refine (agree.behind .subroutines (options, name.text) passed trivial).bind
    fun _ q passed => ?_
  refine (alike_symbol passed).bind fun _ q passed => ?_
  exact (still_pure _).alike passed

end Callees

end Jack
