import Jack.Proofs.Termination.Routine

namespace Jack

/-!
# Relations of steps

The functions of the compiler are made of a few simple steps (`Step.Simple`), one behind the other,
and of calls.  A relation of steps that every simple step has to itself, and that is kept when steps
are done one behind the other, therefore goes from the functions that are called to those that call
them (`StepRelation.Between.next`), and to the whole class.
-/

namespace Step

/-- The steps of which the functions of the compiler are made. -/
inductive Simple : {α : Type} → Step α → Prop
  | pure {α : Type} (a : α) : Simple (pure a)
  | fail {α : Type} (e : CompileError) : Simple (fail e : Step α)
  | unknownWord {α : Type} (e : WordError) : Simple (unknownWord e : Step α)
  | unexpected {α : Type} (expected : String) (t : Token) : Simple (unexpected expected t : Step α)
  | peek : Simple peek
  | peekNext : Simple peekNext
  | skip : Simple skip
  | accept (kind : TokenKind) : Simple (accept kind)
  | consume (kind : TokenKind) : Simple (consume kind)
  | emit (commands : List Command) : Simple (emit commands)
  | record (e : Event) : Simple (record e)
  | freshLabel : Simple freshLabel
  | codeSize : Simple codeSize
  | count (kind : SymbolKind) : Simple (count kind)
  | has (name : String) : Simple (has name)
  | lookup (name : String) : Simple (lookup name)
  | resolve (name : Token) : Simple (resolve name)
  | startSubroutine : Simple startSubroutine
  | define (name type : String) (kind : SymbolKind) : Simple (define name type kind)
  | declareAt (place : Location) (name type : String) (kind : SymbolKind) :
    Simple (locate place (Step.define name type kind))

end Step

/-- A relation of steps that is not lost in sequences of simple steps. -/
structure StepRelation where
  Holds : {α : Type} → Step α → Step α → Prop
  simple : ∀ {α : Type} {x : Step α}, x.Simple → Holds x x
  bind : ∀ {α β : Type} {x y : Step α} {f g : α → Step β}, Holds x y →
    (∀ a, Holds (f a) (g a)) → Holds (x >>= f) (y >>= g)

namespace StepRelation

open Step

variable (r : StepRelation)

/-! ## Steps without calls -/

theorem symbol (s : Punctuation) : r.Holds (symbol s) (symbol s) :=
  r.bind (r.simple (.consume _)) fun _ => r.simple (.pure ())

/-- Both branches are simple steps, and so nothing need be known about the token. -/
theorem binaryOperation (t : Token) : r.Holds (binaryOperation t) (binaryOperation t) := by
  unfold Step.binaryOperation
  split
  · exact r.simple (.emit _)
  · exact r.simple (.unknownWord _)

theorem integerConstant (t : Token) : r.Holds (integerConstant t) (integerConstant t) := by
  unfold Step.integerConstant
  split
  · exact r.simple (.emit _)
  · exact r.simple (.unexpected _ t)

theorem stringConstant (t : Token) : r.Holds (stringConstant t) (stringConstant t) := by
  unfold Step.stringConstant
  split
  · exact r.simple (.unexpected _ t)
  · split
    · exact r.simple (.unexpected _ t)
    · exact r.simple (.emit _)

theorem pushVariable (s : Symbol) : r.Holds (pushVariable s) (pushVariable s) :=
  r.simple (.emit _)

/-- What is called is found out by simple steps alone. -/
theorem callee (className : String) : r.Holds (callee className) (callee className) := by
  refine r.bind (r.simple (.consume _)) fun first => ?_
  refine r.bind (r.simple (.accept _)) fun dotted => ?_
  split
  · refine r.bind (r.simple (.consume _)) fun member => ?_
    refine r.bind (r.simple (.has _)) fun declared => ?_
    split
    · refine r.bind (r.simple (.resolve _)) fun object => ?_
      refine r.bind (r.simple (.lookup _)) fun symbol => ?_
      exact r.bind (r.pushVariable object) fun _ => r.simple (.pure _)
    · exact r.simple (.pure _)
  · exact r.bind (r.simple (.emit _)) fun _ => r.simple (.pure _)

theorem needsJump (f : Frame) (nested : Bool) :
    r.Holds (needsJump f nested) (needsJump f nested) := by
  unfold Step.needsJump
  split
  · exact r.bind (r.simple .peek) fun _ => r.simple (.pure _)
  · exact r.simple (.pure _)

theorem typeName : r.Holds typeName typeName := by
  refine r.bind (r.simple .peek) fun t => ?_
  split
  · exact r.bind (r.simple .skip) fun _ => r.simple (.pure _)
  · exact r.simple (.unexpected _ t)

theorem resultType : r.Holds resultType resultType := by
  refine r.bind (r.simple (.accept _)) fun isVoid => ?_
  split
  · exact r.simple (.pure _)
  · exact r.bind r.typeName fun _ => r.simple (.pure _)

theorem declare (options : Options) (name : Token) (type : String) (kind : SymbolKind) :
    r.Holds (declare options name type kind) (declare options name type kind) := by
  refine r.bind (r.simple (.declareAt ..)) fun previous => ?_
  cases previous with
  | none => exact r.simple (.pure ())
  | some previous =>
      dsimp only
      split
      · exact r.simple (.fail _)
      · exact r.simple (.record _)

theorem receiver (kind : SubroutineKind) (className : String) :
    r.Holds (receiver kind className) (receiver kind className) := by
  cases kind with
  | method => exact r.bind (r.simple (.define ..)) fun _ => r.simple (.pure ())
  | _ => exact r.simple (.pure ())

/-! ## Functions with calls -/

/-- The relation holds between the functions of two families. -/
def Between (callees callees' : Callees) : Prop :=
  ∀ (x : Routine) (parameters : x.Parameters),
    r.Holds (callees x parameters) (callees' x parameters)

variable {r} {callees callees' : Callees}

namespace Between

variable (between : r.Between callees callees')

include between

/-- The functions for expressions keep a relation that the functions they call have. -/
theorem expression (className : String) :
    r.Holds (callees.expression className) (callees'.expression className) :=
  r.bind (between .term className) fun _ => between .operators className

/-- A loop keeps the relation if its next iteration does. -/
theorem operators (className : String) :
    r.Holds (callees.operators className) (callees'.operators className) := by
  refine r.bind (r.simple .peek) fun operator => ?_
  split
  · refine r.bind (r.simple .skip) fun _ => ?_
    refine r.bind (between .term className) fun _ => ?_
    exact r.bind (r.binaryOperation operator) fun _ => between .operators className
  · exact r.simple (.pure ())

theorem term (className : String) :
    r.Holds (callees.term className) (callees'.term className) := by
  refine r.bind (r.simple .peek) fun t => ?_
  cases t.kind.termKind? with
  | none => exact r.simple (.unexpected _ t)
  | some kind =>
      cases kind with
      | integer => exact r.bind (r.simple .skip) fun _ => r.integerConstant t
      | string => exact r.bind (r.simple .skip) fun _ => r.stringConstant t
      | constant k => exact r.bind (r.simple .skip) fun _ => r.simple (.emit _)
      | unary o =>
          refine r.bind (r.simple .skip) fun _ => ?_
          exact r.bind (between .term className) fun _ => r.simple (.emit _)
      | parenthesis =>
          refine r.bind (r.simple .skip) fun _ => ?_
          exact r.bind (between .expression className) fun _ => r.symbol _
      | name =>
          refine r.bind (r.simple .peekNext) fun following => ?_
          split
          · exact between .element className
          · exact between .call className
          · exact between .call className
          · refine r.bind (r.simple (.consume _)) fun name => ?_
            exact r.bind (r.simple (.resolve name)) fun s => r.pushVariable s

theorem element (className : String) :
    r.Holds (callees.element className) (callees'.element className) := by
  refine r.bind (r.simple (.consume _)) fun name => ?_
  refine r.bind (r.simple (.resolve name)) fun array => ?_
  refine r.bind (r.symbol _) fun _ => ?_
  refine r.bind (r.pushVariable array) fun _ => ?_
  refine r.bind (between .expression className) fun _ => ?_
  exact r.bind (r.symbol _) fun _ => r.simple (.emit _)

theorem call (className : String) :
    r.Holds (callees.call className) (callees'.call className) := by
  refine r.bind (r.callee className) fun target => ?_
  refine r.bind (r.symbol _) fun _ => ?_
  refine r.bind (between .arguments className) fun listed => ?_
  refine r.bind (r.simple (.consume _)) fun close => ?_
  dsimp only
  split
  · exact r.simple (.unexpected _ close)
  · exact r.simple (.emit _)

theorem arguments (className : String) :
    r.Holds (callees.arguments className) (callees'.arguments className) := by
  refine r.bind (r.simple .peek) fun t => ?_
  split
  · exact r.simple (.pure _)
  · exact between .argumentsBehind (className, 0)

theorem argumentsBehind (className : String) (count : Nat) :
    r.Holds (callees.argumentsBehind className count)
      (callees'.argumentsBehind className count) := by
  refine r.bind (r.simple .peek) fun first => ?_
  split
  · exact r.simple (.unexpected _ first)
  · refine r.bind (between .expression className) fun _ => ?_
    refine r.bind (r.simple (.accept _)) fun more => ?_
    split
    · exact between .argumentsBehind (className, count + 1)
    · exact r.simple (.pure _)

theorem letStatement (f : Frame) : r.Holds (callees.letStatement f) (callees'.letStatement f) := by
  refine r.bind (r.simple .skip) fun _ => ?_
  refine r.bind (r.simple (.consume _)) fun name => ?_
  refine r.bind (r.simple (.resolve name)) fun target => ?_
  refine r.bind (r.simple (.accept _)) fun isElement => ?_
  split
  · refine r.bind (r.pushVariable target) fun _ => ?_
    refine r.bind (between .expression f.className) fun _ => ?_
    refine r.bind (r.symbol _) fun _ => ?_
    refine r.bind (r.simple (.emit _)) fun _ => ?_
    refine r.bind (r.symbol _) fun _ => ?_
    refine r.bind (between .expression f.className) fun _ => ?_
    exact r.bind (r.symbol _) fun _ => r.simple (.emit _)
  · refine r.bind (r.symbol _) fun _ => ?_
    refine r.bind (between .expression f.className) fun _ => ?_
    exact r.bind (r.symbol _) fun _ => r.simple (.emit _)

theorem doStatement (f : Frame) : r.Holds (callees.doStatement f) (callees'.doStatement f) := by
  refine r.bind (r.simple .skip) fun _ => ?_
  refine r.bind (between .call f.className) fun _ => ?_
  exact r.bind (r.symbol _) fun _ => r.simple (.emit _)

theorem returnStatement (f : Frame) (nested : Bool) :
    r.Holds (callees.returnStatement f nested) (callees'.returnStatement f nested) := by
  have value : r.Holds (callees.returnValue f) (callees'.returnValue f) := by
    refine r.bind (r.simple .peek) fun t => ?_
    split
    · exact r.simple (.pure _)
    · exact between .expression f.className
  refine r.bind (r.simple .skip) fun _ => ?_
  refine r.bind value fun _ => ?_
  refine r.bind (r.symbol _) fun _ => ?_
  refine r.bind (r.needsJump f nested) fun jumps => ?_
  split
  · exact r.bind (r.simple (.emit _)) fun _ => r.simple (.pure _)
  · exact r.simple (.pure _)

/-- The functions for statements keep a relation that the functions they call have. -/
theorem statements (f : Frame) (nested jumps : Bool) :
    r.Holds (callees.statements f nested jumps) (callees'.statements f nested jumps) := by
  refine r.bind (r.simple .peek) fun t => ?_
  cases t.kind.statementKind? with
  | none => exact r.simple (.pure _)
  | some kind =>
      exact r.bind (between .statement (f, nested, kind)) fun jumpsHere =>
        between .statements (f, nested, jumps || jumpsHere)

theorem statement (f : Frame) (nested : Bool) (kind : StatementKind) :
    r.Holds (callees.statement f nested kind) (callees'.statement f nested kind) := by
  cases kind with
  | «let» => exact r.bind (between.letStatement f) fun _ => r.simple (.pure _)
  | «do» => exact r.bind (between.doStatement f) fun _ => r.simple (.pure _)
  | «return» => exact between.returnStatement f nested
  | «if» => exact between .ifStatement f
  | «while» => exact between .whileStatement f

theorem block (f : Frame) : r.Holds (callees.block f) (callees'.block f) := by
  refine r.bind (r.symbol _) fun _ => ?_
  refine r.bind (between .statements (f, true, false)) fun jumps => ?_
  exact r.bind (r.symbol _) fun _ => r.simple (.pure _)

theorem ifStatement (f : Frame) : r.Holds (callees.ifStatement f) (callees'.ifStatement f) := by
  refine r.bind (r.simple .skip) fun _ => ?_
  refine r.bind (r.symbol _) fun _ => ?_
  refine r.bind (between .expression f.className) fun _ => ?_
  refine r.bind (r.symbol _) fun _ => ?_
  refine r.bind (r.simple .freshLabel) fun id => ?_
  refine r.bind (r.simple (.emit _)) fun _ => ?_
  refine r.bind (between .block f) fun jumpsThen => ?_
  refine r.bind (r.simple (.accept _)) fun hasElse => ?_
  split
  · refine r.bind (r.simple (.emit _)) fun _ => ?_
    refine r.bind (between .block f) fun jumpsElse => ?_
    exact r.bind (r.simple (.emit _)) fun _ => r.simple (.pure _)
  · exact r.bind (r.simple (.emit _)) fun _ => r.simple (.pure _)

theorem whileStatement (f : Frame) :
    r.Holds (callees.whileStatement f) (callees'.whileStatement f) := by
  refine r.bind (r.simple .skip) fun _ => ?_
  refine r.bind (r.simple .freshLabel) fun id => ?_
  refine r.bind (r.simple (.emit _)) fun _ => ?_
  refine r.bind (r.symbol _) fun _ => ?_
  refine r.bind (between .expression f.className) fun _ => ?_
  refine r.bind (r.symbol _) fun _ => ?_
  refine r.bind (r.simple (.emit _)) fun _ => ?_
  refine r.bind (between .block f) fun jumps => ?_
  exact r.bind (r.simple (.emit _)) fun _ => r.simple (.pure _)

/-- The functions for declarations keep a relation that the functions they call have. -/
theorem names (options : Options) (type : String) (kind : SymbolKind) :
    r.Holds (callees.names options type kind) (callees'.names options type kind) := by
  refine r.bind (r.simple (.consume _)) fun name => ?_
  refine r.bind (r.declare options name type kind) fun _ => ?_
  refine r.bind (r.simple (.accept _)) fun more => ?_
  split
  · exact between .names (options, type, kind)
  · exact r.simple (.pure _)

theorem declaration (options : Options) (kind : SymbolKind) :
    r.Holds (callees.declaration options kind) (callees'.declaration options kind) := by
  refine r.bind r.typeName fun type => ?_
  exact r.bind (between .names (options, type, kind)) fun _ => r.symbol _

theorem classVariables (options : Options) :
    r.Holds (callees.classVariables options) (callees'.classVariables options) := by
  refine r.bind (r.simple .peek) fun t => ?_
  split
  · refine r.bind (r.simple .skip) fun _ => ?_
    exact r.bind (between.declaration options .static) fun _ => between .classVariables options
  · refine r.bind (r.simple .skip) fun _ => ?_
    exact r.bind (between.declaration options .field) fun _ => between .classVariables options
  · exact r.simple (.pure _)

theorem localVariables (options : Options) :
    r.Holds (callees.localVariables options) (callees'.localVariables options) := by
  refine r.bind (r.simple .peek) fun t => ?_
  split
  · refine r.bind (r.simple .skip) fun _ => ?_
    exact r.bind (between.declaration options .«local») fun _ => between .localVariables options
  · exact r.simple (.pure _)

theorem parametersBehind (options : Options) :
    r.Holds (callees.parametersBehind options) (callees'.parametersBehind options) := by
  refine r.bind r.typeName fun type => ?_
  refine r.bind (r.simple (.consume _)) fun name => ?_
  refine r.bind (r.declare options name type .argument) fun _ => ?_
  refine r.bind (r.simple (.accept _)) fun more => ?_
  split
  · exact between .parametersBehind options
  · exact r.simple (.pure _)

theorem parameters (options : Options) :
    r.Holds (callees.parameters options) (callees'.parameters options) := by
  refine r.bind (r.simple .peek) fun t => ?_
  split
  · exact between .parametersBehind options
  · exact r.simple (.pure _)

/-- The two numbers in the command of the function are counted by simple steps. -/
theorem body (options : Options) (className : String) (kind : SubroutineKind) (name : String)
    (isVoid : Bool) :
    r.Holds (callees.body options className kind name isVoid)
      (callees'.body options className kind name isVoid) := by
  refine r.bind (r.symbol _) fun _ => ?_
  refine r.bind (between .localVariables options) fun _ => ?_
  refine r.bind (r.simple (.count _)) fun locals => ?_
  refine r.bind (r.simple (.count _)) fun fields => ?_
  refine r.bind (r.simple (.emit _)) fun _ => ?_
  refine r.bind (r.simple .freshLabel) fun id => ?_
  refine r.bind (between .statements (_, false, false)) fun jumps => ?_
  refine r.bind (r.symbol _) fun _ => ?_
  exact r.bind (r.simple (.emit _)) fun _ => r.simple (.record _)

theorem subroutine (options : Options) (className : String) (kind : SubroutineKind) :
    r.Holds (callees.subroutine options className kind)
      (callees'.subroutine options className kind) := by
  refine r.bind (r.simple .skip) fun _ => ?_
  refine r.bind r.resultType fun isVoid => ?_
  refine r.bind (r.simple (.consume _)) fun name => ?_
  refine r.bind (r.simple (.record _)) fun _ => ?_
  refine r.bind (r.simple .startSubroutine) fun _ => ?_
  refine r.bind (r.receiver kind className) fun _ => ?_
  refine r.bind (r.symbol _) fun _ => ?_
  refine r.bind (between.parameters options) fun _ => ?_
  refine r.bind (r.symbol _) fun _ => ?_
  exact between.body options className kind _ isVoid

theorem subroutines (options : Options) (className : String) :
    r.Holds (callees.subroutines options className) (callees'.subroutines options className) := by
  refine r.bind (r.simple .peek) fun t => ?_
  cases t.kind.subroutineKind? with
  | none => exact r.simple (.pure _)
  | some kind =>
      exact r.bind (between.subroutine options className kind) fun _ =>
        between .subroutines (options, className)

/-- The relation goes from the functions that are called to those that call them. -/
theorem next : r.Between callees.next callees'.next := by
  intro x parameters
  cases x with
  | expression => exact between.expression parameters
  | operators => exact between.operators parameters
  | term => exact between.term parameters
  | element => exact between.element parameters
  | call => exact between.call parameters
  | arguments => exact between.arguments parameters
  | argumentsBehind => exact between.argumentsBehind parameters.1 parameters.2
  | statements => exact between.statements parameters.1 parameters.2.1 parameters.2.2
  | statement => exact between.statement parameters.1 parameters.2.1 parameters.2.2
  | block => exact between.block parameters
  | ifStatement => exact between.ifStatement parameters
  | whileStatement => exact between.whileStatement parameters
  | names => exact between.names parameters.1 parameters.2.1 parameters.2.2
  | classVariables => exact between.classVariables parameters
  | localVariables => exact between.localVariables parameters
  | parametersBehind => exact between.parametersBehind parameters
  | subroutines => exact between.subroutines parameters.1 parameters.2

/-- The function for a class keeps a relation that the functions it calls have.  This is where
relations of loops and calls become relations of compilations. -/
theorem wholeClass (options : Options) :
    r.Holds (callees.wholeClass options) (callees'.wholeClass options) := by
  have openClass : r.Holds (callees.openClass options) (callees'.openClass options) := by
    refine r.bind (r.simple (.consume _)) fun _ => ?_
    refine r.bind (r.simple (.consume _)) fun name => ?_
    refine r.bind (r.symbol _) fun _ => ?_
    refine r.bind (between .classVariables options) fun _ => ?_
    refine r.bind (between .subroutines (options, name.text)) fun _ => ?_
    exact r.bind (r.symbol _) fun _ => r.simple (.pure _)
  refine r.bind openClass fun name => ?_
  refine r.bind (r.simple (.consume _)) fun _ => ?_
  exact r.bind (r.simple .codeSize) fun size => r.simple (.record _)

end Between

end StepRelation

end Jack
