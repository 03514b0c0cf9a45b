import Jack.Compiler.Class

namespace Jack

/-!
# Redeclarations and steps without them

A compilation records a name that is declared again in its scope as an event.  Expressions and
statements declare nothing, so compiling them records no redeclaration (`Step.Silent`).
-/

/-- A name that is declared again in its scope. -/
structure Redeclaration where
  name : String
  place : Location
  /-- The symbol that is replaced. -/
  previous : Symbol
deriving DecidableEq

namespace Redeclaration

/-- The word for a kind of symbols in a warning. -/
def kindWord : SymbolKind → String
  | .static => "Static"
  | .field => "Field"
  | .argument => "Argument"
  | .«local» => "Local"

/-- The warning about a redeclaration: the name and where it stands, and the kind, the type and the
index of the symbol that it replaces. -/
def warning (r : Redeclaration) : Record where
  level := .warn
  message :=
    s!"'{r.name}' redeclared " ++
    s!"at offset {r.place.offset} (line {r.place.line}, column {r.place.column})" ++
    s!", replacing {kindWord r.previous.kind} {r.previous.type} {r.previous.index.toNat}"

end Redeclaration

namespace Event

/-- What an event tells of a name that was declared again. -/
def redeclaration? : Event → Option Redeclaration
  | redeclared name place previous => some ⟨name, place, previous⟩
  | _ => none

/-- The event is logged as the warning for the redeclaration. -/
theorem record_redeclared (name : String) (place : Location) (previous : Symbol) :
    (redeclared name place previous).record =
      Redeclaration.warning ⟨name, place, previous⟩ := by
  have word : previous.kind.name = Redeclaration.kindWord previous.kind := by
    cases previous.kind <;> rfl
  simp only [record, Redeclaration.warning, word, Location.text, String.append_assoc, toString]

/-- Redeclarations are the only warnings. -/
theorem guard_record (e : Event) :
    Option.guard (·.level = .warn) e.record = e.redeclaration?.map Redeclaration.warning := by
  cases e with
  | redeclared name place previous =>
      rw [record_redeclared]
      rfl
  | _ => rfl

end Event

/-- The redeclarations among events, in their order. -/
def redeclarations (events : Array Event) : List Redeclaration :=
  events.toList.filterMap Event.redeclaration?

/-- The warnings in the log of a compilation, in their order. -/
def warnings (events : Array Event) : List Record :=
  (events.map Event.record).toList.filter (·.level = .warn)

/-- The log warns of the redeclarations, and of nothing else. -/
theorem warnings_eq (events : Array Event) :
    warnings events = (redeclarations events).map Redeclaration.warning := by
  rw [warnings, redeclarations, Array.toList_map, List.map_filterMap, ← List.filterMap_eq_filter,
    List.filterMap_map]
  exact congrArg (List.filterMap · events.toList) (funext Event.guard_record)

/-- A new event may tell of one more redeclaration, behind the others. -/
theorem redeclarations_push (events : Array Event) (e : Event) :
    redeclarations (events.push e) = redeclarations events ++ e.redeclaration?.toList := by
  rw [redeclarations, Array.toList_push, List.filterMap_append, redeclarations]
  cases named : e.redeclaration? <;> simp only [List.filterMap, named, Option.toList]

namespace Step

variable {α β : Type}

/-- The step records no redeclaration, whether it succeeds or fails. -/
def Silent (x : Step α) : Prop :=
  ∀ p, redeclarations (reached (x p)).events = redeclarations p.events

/-- Silent steps one behind the other are silent. -/
theorem Silent.bind {x : Step α} {f : α → Step β} (first : x.Silent)
    (second : ∀ a, (f a).Silent) : (x >>= f).Silent := by
  intro p
  have start := first p
  simp only [Bind.bind, EStateM.bind]
  cases run : x p with
  | error stop q =>
      rw [run] at start
      exact start
  | ok a q =>
      rw [run] at start
      exact (second a q).trans start

/-! ## Elementary steps -/

theorem silent_pure (a : α) : (pure a : Step α).Silent := fun _ => rfl

theorem silent_exhausted : (exhausted : Step α).Silent := fun _ => rfl

theorem silent_unexpected (expected : String) (t : Token) :
    (unexpected expected t : Step α).Silent := fun _ => rfl

theorem silent_skip : skip.Silent := fun _ => rfl

theorem silent_emit (commands : List Command) : (emit commands).Silent := fun _ => rfl

theorem silent_freshLabel : freshLabel.Silent := fun _ => rfl

theorem silent_codeSize : codeSize.Silent := fun _ => rfl

theorem silent_symbol? (name : String) : (symbol? name).Silent := fun _ => rfl

theorem silent_count (kind : SymbolKind) : (count kind).Silent := fun _ => rfl

theorem silent_startSubroutine : startSubroutine.Silent := fun _ => rfl

theorem silent_peek : peek.Silent := by
  intro p
  unfold peek
  cases p.stream.peek <;> rfl

theorem silent_peekNext : peekNext.Silent := by
  intro p
  unfold peekNext
  cases p.stream.peekNext <;> rfl

theorem silent_accept (kind : TokenKind) : (accept kind).Silent := by
  intro p
  unfold accept
  cases p.stream.accept kind <;> rfl

theorem silent_consume (kind : TokenKind) : (consume kind).Silent := by
  intro p
  unfold consume
  cases p.stream.consume kind <;> rfl

theorem silent_symbol (s : Punctuation) : (symbol s).Silent :=
  (silent_consume _).bind fun _ => silent_pure _

theorem silent_resolve (name : Token) : (resolve name).Silent := by
  intro p
  rw [resolve_eq]
  cases p.symbols.lookup name.text <;> rfl

/-- It is not defining a name that records its redeclaration, but the step behind it. -/
theorem silent_define (name type : String) (kind : SymbolKind) :
    (define name type kind).Silent := by
  intro p
  unfold define
  cases p.symbols.define name type kind <;> rfl

theorem Silent.locate {x : Step α} (silent : x.Silent) (place : Location) :
    (locate place x).Silent := by
  intro p
  rw [← silent p, Step.locate]
  split
  · rename_i run
    rw [run]
    rfl
  · rfl

/-- Events of other kinds are silent. -/
theorem silent_record {e : Event} (other : e.redeclaration? = none) : (record e).Silent := by
  intro p
  rw [record, reached, redeclarations_push, other]
  exact List.append_nil _

/-! ## Expressions and statements -/

theorem silent_stringConstant (t : Token) : (stringConstant t).Silent := by
  unfold stringConstant
  split
  · exact silent_unexpected _ t
  · split
    · exact silent_unexpected _ t
    · exact silent_emit _

theorem silent_integerConstant (t : Token) : (integerConstant t).Silent := by
  unfold integerConstant
  split
  · exact silent_emit _
  · exact silent_unexpected _ t

theorem silent_callee (className : String) : (callee className).Silent := by
  rw [callee_eq]
  refine (silent_consume _).bind fun first => ?_
  refine (silent_accept _).bind fun dotted => ?_
  cases dotted with
  | true =>
      refine (silent_consume _).bind fun member => ?_
      refine (silent_symbol? _).bind fun object => ?_
      cases object with
      | none => exact silent_pure _
      | some object => exact (silent_emit _).bind fun _ => silent_pure _
  | false => exact (silent_emit _).bind fun _ => silent_pure _

/-- The functions on expressions record no redeclaration under a given bound. -/
structure SilentExpressions (className : String) (bound : Nat) : Prop where
  expression : (expression className bound).Silent
  operators : (operators className bound).Silent
  term : (term className bound).Silent
  element : (element className bound).Silent
  call : (call className bound).Silent
  arguments : (arguments className bound).Silent
  argumentsBehind : ∀ count, (argumentsBehind className bound count).Silent

/-- An exhausted bound is silent. -/
theorem silentExpressions_zero (className : String) : SilentExpressions className 0 where
  expression := by rw [Step.expression]; exact silent_exhausted
  operators := by rw [Step.operators]; exact silent_exhausted
  term := by rw [Step.term]; exact silent_exhausted
  element := by rw [Step.element]; exact silent_exhausted
  call := by rw [Step.call]; exact silent_exhausted
  arguments := by rw [Step.arguments]; exact silent_exhausted
  argumentsBehind count := by rw [Step.argumentsBehind]; exact silent_exhausted

/-- The functions for expressions are silent within a bound if they are so within the bound before
it. -/
theorem SilentExpressions.succ {className : String} {bound : Nat}
    (below : SilentExpressions className bound) : SilentExpressions className (bound + 1) where
  expression := by
    rw [Step.expression]
    exact below.term.bind fun _ => below.operators
  operators := by
    rw [operators_eq]
    refine silent_peek.bind fun t => ?_
    cases t.kind.binaryOperator? with
    | none => exact silent_pure _
    | some o =>
        refine silent_skip.bind fun _ => ?_
        refine below.term.bind fun _ => ?_
        exact (silent_emit _).bind fun _ => below.operators
  term := by
    rw [Step.term]
    refine silent_peek.bind fun t => ?_
    cases t.kind.termKind? with
    | none => exact silent_unexpected _ t
    | some form =>
        cases form with
        | integer => exact silent_skip.bind fun _ => silent_integerConstant t
        | string => exact silent_skip.bind fun _ => silent_stringConstant t
        | constant k => exact silent_skip.bind fun _ => silent_emit _
        | unary o => exact silent_skip.bind fun _ => below.term.bind fun _ => silent_emit _
        | parenthesis =>
            exact silent_skip.bind fun _ => below.expression.bind fun _ => silent_symbol _
        | name =>
            refine silent_peekNext.bind fun u => ?_
            split
            · exact below.element
            · exact below.call
            · exact below.call
            · refine (silent_consume _).bind fun name => ?_
              exact (silent_resolve _).bind fun _ => silent_emit _
  element := by
    rw [Step.element]
    refine (silent_consume _).bind fun name => ?_
    refine (silent_resolve _).bind fun array => ?_
    refine (silent_symbol _).bind fun _ => ?_
    refine (silent_emit _).bind fun _ => ?_
    refine below.expression.bind fun _ => ?_
    exact (silent_symbol _).bind fun _ => silent_emit _
  call := by
    rw [Step.call]
    refine (silent_callee className).bind fun target => ?_
    refine (silent_symbol _).bind fun _ => ?_
    refine below.arguments.bind fun listed => ?_
    refine (silent_consume _).bind fun close => ?_
    dsimp only
    split
    · exact silent_unexpected _ close
    · exact silent_emit _
  arguments := by
    rw [Step.arguments]
    refine silent_peek.bind fun t => ?_
    split
    · exact silent_pure _
    · exact below.argumentsBehind 0
  argumentsBehind count := by
    rw [Step.argumentsBehind]
    refine silent_peek.bind fun first => ?_
    split
    · exact silent_unexpected _ first
    · refine below.expression.bind fun _ => ?_
      refine (silent_accept _).bind fun more => ?_
      cases more with
      | true => exact below.argumentsBehind (count + 1)
      | false => exact silent_pure _

/-- Expressions are silent within every bound. -/
theorem silentExpressions (className : String) (bound : Nat) :
    SilentExpressions className bound := by
  induction bound with
  | zero => exact silentExpressions_zero className
  | succ bound below => exact below.succ

theorem silent_letStatement (f : Frame) (bound : Nat) : (letStatement f bound).Silent := by
  have value := (silentExpressions f.className bound).expression
  refine silent_skip.bind fun _ => ?_
  refine (silent_consume _).bind fun name => ?_
  refine (silent_resolve _).bind fun target => ?_
  refine (silent_accept _).bind fun indexed => ?_
  cases indexed with
  | true =>
      refine (silent_emit _).bind fun _ => ?_
      refine value.bind fun _ => ?_
      refine (silent_symbol _).bind fun _ => ?_
      refine (silent_emit _).bind fun _ => ?_
      refine (silent_symbol _).bind fun _ => ?_
      refine value.bind fun _ => ?_
      exact (silent_symbol _).bind fun _ => silent_emit _
  | false =>
      refine (silent_symbol _).bind fun _ => ?_
      refine value.bind fun _ => ?_
      exact (silent_symbol _).bind fun _ => silent_emit _

theorem silent_doStatement (f : Frame) (bound : Nat) : (doStatement f bound).Silent := by
  refine silent_skip.bind fun _ => ?_
  refine (silentExpressions f.className bound).call.bind fun _ => ?_
  exact (silent_symbol _).bind fun _ => silent_emit _

theorem silent_returnStatement (f : Frame) (bound : Nat) (nested : Bool) :
    (returnStatement f bound nested).Silent := by
  have value : (returnValue f bound).Silent := by
    refine silent_peek.bind fun t => ?_
    split
    · exact silent_pure _
    · exact (silentExpressions f.className bound).expression
  have looks : (needsJump f nested).Silent := by
    unfold needsJump
    split
    · exact silent_peek.bind fun _ => silent_pure _
    · exact silent_pure _
  refine silent_skip.bind fun _ => ?_
  refine value.bind fun _ => ?_
  refine (silent_symbol _).bind fun _ => ?_
  refine looks.bind fun jumps => ?_
  cases jumps with
  | true => exact (silent_emit _).bind fun _ => silent_pure _
  | false => exact silent_pure _

/-- The functions on statements record no redeclaration under a given bound. -/
structure SilentStatements (f : Frame) (bound : Nat) : Prop where
  statements : ∀ nested jumps, (statements f bound nested jumps).Silent
  statement : ∀ nested kind, (statement f bound nested kind).Silent
  block : (block f bound).Silent
  ifStatement : (ifStatement f bound).Silent
  whileStatement : (whileStatement f bound).Silent

theorem silentStatements_zero (f : Frame) : SilentStatements f 0 where
  statements nested jumps := by rw [Step.statements]; exact silent_exhausted
  statement nested kind := by rw [Step.statement]; exact silent_exhausted
  block := by rw [Step.block]; exact silent_exhausted
  ifStatement := by rw [Step.ifStatement]; exact silent_exhausted
  whileStatement := by rw [Step.whileStatement]; exact silent_exhausted

/-- The functions for statements are silent within a bound if they are so within the bound before
it. -/
theorem SilentStatements.succ {f : Frame} {bound : Nat} (below : SilentStatements f bound) :
    SilentStatements f (bound + 1) where
  statements nested jumps := by
    rw [Step.statements]
    refine silent_peek.bind fun t => ?_
    cases t.kind.statementKind? with
    | none => exact silent_pure _
    | some kind => exact (below.statement nested kind).bind fun _ => below.statements nested _
  statement nested kind := by
    cases kind <;> rw [Step.statement]
    case «let» => exact (silent_letStatement f bound).bind fun _ => silent_pure _
    case «do» => exact (silent_doStatement f bound).bind fun _ => silent_pure _
    case «return» => exact silent_returnStatement f bound nested
    case «if» => exact below.ifStatement
    case «while» => exact below.whileStatement
  block := by
    rw [Step.block]
    refine (silent_symbol _).bind fun _ => ?_
    refine (below.statements true false).bind fun jumps => ?_
    exact (silent_symbol _).bind fun _ => silent_pure _
  ifStatement := by
    rw [Step.ifStatement]
    refine silent_skip.bind fun _ => ?_
    refine (silent_symbol _).bind fun _ => ?_
    refine (silentExpressions f.className bound).expression.bind fun _ => ?_
    refine (silent_symbol _).bind fun _ => ?_
    refine silent_freshLabel.bind fun id => ?_
    refine (silent_emit _).bind fun _ => ?_
    refine below.block.bind fun jumpsThen => ?_
    refine (silent_accept _).bind fun two => ?_
    cases two with
    | true =>
        refine (silent_emit _).bind fun _ => ?_
        refine below.block.bind fun jumpsElse => ?_
        exact (silent_emit _).bind fun _ => silent_pure _
    | false => exact (silent_emit _).bind fun _ => silent_pure _
  whileStatement := by
    rw [Step.whileStatement]
    refine silent_skip.bind fun _ => ?_
    refine silent_freshLabel.bind fun id => ?_
    refine (silent_emit _).bind fun _ => ?_
    refine (silent_symbol _).bind fun _ => ?_
    refine (silentExpressions f.className bound).expression.bind fun _ => ?_
    refine (silent_symbol _).bind fun _ => ?_
    refine (silent_emit _).bind fun _ => ?_
    refine below.block.bind fun jumps => ?_
    exact (silent_emit _).bind fun _ => silent_pure _

/-- Statements are silent within every bound. -/
theorem silentStatements (f : Frame) (bound : Nat) : SilentStatements f bound := by
  induction bound with
  | zero => exact silentStatements_zero f
  | succ bound below => exact below.succ

/-! ## Parts of classes -/

theorem silent_typeName : typeName.Silent := by
  refine silent_peek.bind fun t => ?_
  split
  · exact silent_skip.bind fun _ => silent_pure _
  · exact silent_unexpected _ t

theorem silent_resultType : resultType.Silent := by
  refine (silent_accept _).bind fun isVoid => ?_
  cases isVoid with
  | true => exact silent_pure _
  | false => exact silent_typeName.bind fun _ => silent_pure _

/-- The object of a method is declared in an empty scope, and it is defined without a record. -/
theorem silent_receiver (kind : SubroutineKind) (className : String) :
    (receiver kind className).Silent := by
  cases kind with
  | method => exact (silent_define _ _ _).bind fun _ => silent_pure _
  | constructor => exact silent_pure _
  | function => exact silent_pure _

end Step

end Jack
