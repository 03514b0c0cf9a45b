import Jack.Compiler.Class

namespace Jack

/-!
# The functions of the compiler and their calls

Here every function of the compiler that takes part in a loop or in a cycle of calls is written
once more, with the functions that it calls left open (`Callees.next`).  A loop calls itself for its
next iteration.  With the functions of the compiler put in, the open functions are those of the
compiler again (`Callees.ofBound_succ`, `Callees.wholeClass_ofBound`), and with other functions put
in one can see what is called, and when.
-/

/-- The functions of the compiler that call themselves or each other. -/
inductive Routine
  | expression | operators | term | element | call | arguments | argumentsBehind
  | statements | statement | block | ifStatement | whileStatement
  | names | classVariables | localVariables | parametersBehind
  | subroutines
deriving DecidableEq

namespace Routine

/-- What a function is given besides its bound. -/
abbrev Parameters : Routine → Type
  | argumentsBehind => String × Nat
  | statements => Frame × Bool × Bool
  | statement => Frame × Bool × StatementKind
  | block => Frame
  | ifStatement => Frame
  | whileStatement => Frame
  | names => Options × String × SymbolKind
  | classVariables => Options
  | localVariables => Options
  | parametersBehind => Options
  | subroutines => Options × String
  | _ => String

/-- What a function yields. -/
abbrev Result : Routine → Type
  | arguments => Nat
  | argumentsBehind => Nat
  | statements => Bool
  | statement => Bool
  | block => Bool
  | ifStatement => Bool
  | whileStatement => Bool
  | _ => Unit

end Routine

/-- Functions to be called. -/
abbrev Callees := (x : Routine) → x.Parameters → Step x.Result

/-- The functions of the compiler, with their bound. -/
def Callees.ofBound (bound : Nat) : Callees
  | .expression, className => Step.expression className bound
  | .operators, className => Step.operators className bound
  | .term, className => Step.term className bound
  | .element, className => Step.element className bound
  | .call, className => Step.call className bound
  | .arguments, className => Step.arguments className bound
  | .argumentsBehind, (className, count) => Step.argumentsBehind className bound count
  | .statements, (f, nested, jumps) => Step.statements f bound nested jumps
  | .statement, (f, nested, kind) => Step.statement f bound nested kind
  | .block, f => Step.block f bound
  | .ifStatement, f => Step.ifStatement f bound
  | .whileStatement, f => Step.whileStatement f bound
  | .names, (options, type, kind) => Step.names options type kind bound
  | .classVariables, options => Step.classVariables options bound
  | .localVariables, options => Step.localVariables options bound
  | .parametersBehind, options => Step.parametersBehind options bound
  | .subroutines, (options, className) => Step.subroutines options className bound

namespace Callees

open Step

variable (callees : Callees)

/-! ## Expressions -/

/-- A term and the operators behind it.  This and what follows is the text of the compiler, with
calls through `callees`. -/
def expression (className : String) : Step Unit := do
  callees .term className
  callees .operators className

/-- One round of the loop over operators. -/
def operators (className : String) : Step Unit := do
  let operator ← peek
  if operator.kind.isBinaryOperator then
    skip
    callees .term className
    binaryOperation operator
    callees .operators className

/-- A term, told by its first token. -/
def term (className : String) : Step Unit := do
  let t ← peek
  match t.kind.termKind? with
  | some .integer =>
    skip
    integerConstant t
  | some .string =>
    skip
    stringConstant t
  | some (.constant k) =>
    skip
    emit (Code.constant k)
  | some (.unary o) =>
    skip
    callees .term className
    emit [Code.unary o]
  | some .parenthesis =>
    skip
    callees .expression className
    symbol .rightParen
  | some .name =>
    match (← peekNext).kind with
    | .symbol .leftBracket => callees .element className
    | .symbol .leftParen => callees .call className
    | .symbol .dot => callees .call className
    | _ =>
      let name ← consume .identifier
      pushVariable (← resolve name)
  | none => unexpected "term" t

/-- An array element. -/
def element (className : String) : Step Unit := do
  let name ← consume .identifier
  let array ← resolve name
  symbol .leftBracket
  pushVariable array
  callees .expression className
  symbol .rightBracket
  emit (.arithmetic .add :: Code.loadElement)

/-- A call. -/
def call (className : String) : Step Unit := do
  let target ← callee className
  symbol .leftParen
  let listed ← callees .arguments className
  let close ← consume (.symbol .rightParen)
  let total := listed + target.implicit
  if total > maxArguments then unexpected tooManyArguments close
  else emit [.call target.name (UInt16.ofNat total)]

/-- The arguments of a call, of which there may be none. -/
def arguments (className : String) : Step Nat := do
  if (← peek).kind = .symbol .rightParen then return 0
  else callees .argumentsBehind (className, 0)

/-- One round of the loop over arguments. -/
def argumentsBehind (className : String) (count : Nat) : Step Nat := do
  let first ← peek
  if count ≥ maxArguments then unexpected tooManyArguments first
  else
    callees .expression className
    if ← accept (.symbol .comma) then callees .argumentsBehind (className, count + 1)
    else return count + 1

/-! ## Statements -/

/-- An assignment.  Only functions that can come back to themselves are called through `callees`,
and this one cannot without another. -/
def letStatement (f : Frame) : Step Unit := do
  skip
  let name ← consume .identifier
  let target ← resolve name
  if ← accept (.symbol .leftBracket) then
    pushVariable target
    callees .expression f.className
    symbol .rightBracket
    emit [.arithmetic .add]
    symbol .equal
    callees .expression f.className
    symbol .semicolon
    emit Code.storeElement
  else
    symbol .equal
    callees .expression f.className
    symbol .semicolon
    popVariable target

/-- A call whose result is dropped. -/
def doStatement (f : Frame) : Step Unit := do
  skip
  callees .call f.className
  symbol .semicolon
  emit [.pop .temp Code.scratch]

/-- The value of a `return` statement, if there is one. -/
def returnValue (f : Frame) : Step Unit := do
  if (← peek).kind = .symbol .semicolon then return ()
  else callees .expression f.className

/-- A `return` statement. -/
def returnStatement (f : Frame) (nested : Bool) : Step Bool := do
  skip
  callees.returnValue f
  symbol .semicolon
  if ← needsJump f nested then
    emit [.goto f.endLabel]
    return true
  else return false

/-- One round of the loop over statements. -/
def statements (f : Frame) (nested jumps : Bool) : Step Bool := do
  match (← peek).kind.statementKind? with
  | none => return jumps
  | some kind =>
    let jumpsHere ← callees .statement (f, nested, kind)
    callees .statements (f, nested, jumps || jumpsHere)

/-- A statement of a given form. -/
def statement (f : Frame) (nested : Bool) (kind : StatementKind) : Step Bool :=
  match kind with
  | .«let» => do
    callees.letStatement f
    return false
  | .«do» => do
    callees.doStatement f
    return false
  | .«return» => callees.returnStatement f nested
  | .«if» => callees .ifStatement f
  | .«while» => callees .whileStatement f

/-- Statements between braces. -/
def block (f : Frame) : Step Bool := do
  symbol .leftBrace
  let jumps ← callees .statements (f, true, false)
  symbol .rightBrace
  return jumps

/-- A branch. -/
def ifStatement (f : Frame) : Step Bool := do
  skip
  symbol .leftParen
  callees .expression f.className
  symbol .rightParen
  let id ← freshLabel
  emit [.arithmetic .not, .ifGoto (Code.ifFalseLabel id)]
  let jumpsThen ← callees .block f
  if ← accept (.keyword .«else») then
    emit [.goto (Code.ifEndLabel id), .label (Code.ifFalseLabel id)]
    let jumpsElse ← callees .block f
    emit [.label (Code.ifEndLabel id)]
    return jumpsThen || jumpsElse
  else
    emit [.label (Code.ifFalseLabel id)]
    return jumpsThen

/-- A loop of the source. -/
def whileStatement (f : Frame) : Step Bool := do
  skip
  let id ← freshLabel
  emit [.label (Code.whileLabel id)]
  symbol .leftParen
  callees .expression f.className
  symbol .rightParen
  emit [.arithmetic .not, .ifGoto (Code.whileEndLabel id)]
  let jumps ← callees .block f
  emit [.goto (Code.whileLabel id), .label (Code.whileEndLabel id)]
  return jumps

/-! ## Declarations -/

/-- One round of the loop over the names of a declaration. -/
def names (options : Options) (type : String) (kind : SymbolKind) : Step Unit := do
  let name ← consume .identifier
  declare options name type kind
  if ← accept (.symbol .comma) then callees .names (options, type, kind)

/-- A type and names. -/
def declaration (options : Options) (kind : SymbolKind) : Step Unit := do
  let type ← typeName
  callees .names (options, type, kind)
  symbol .semicolon

/-- One round of the loop over the declarations of a class. -/
def classVariables (options : Options) : Step Unit := do
  match (← peek).kind with
  | .keyword .static =>
    skip
    callees.declaration options .static
    callees .classVariables options
  | .keyword .field =>
    skip
    callees.declaration options .field
    callees .classVariables options
  | _ => return ()

/-- One round of the loop over the declarations of a body. -/
def localVariables (options : Options) : Step Unit := do
  if (← peek).kind = .keyword .var then
    skip
    callees.declaration options .«local»
    callees .localVariables options

/-- One round of the loop over parameters. -/
def parametersBehind (options : Options) : Step Unit := do
  let type ← typeName
  let name ← consume .identifier
  declare options name type .argument
  if ← accept (.symbol .comma) then callees .parametersBehind options

/-- The parameters of a subroutine, of which there may be none. -/
def parameters (options : Options) : Step Unit := do
  if (← peek).kind ≠ .symbol .rightParen then callees .parametersBehind options

/-! ## Subroutines -/

/-- The body of a subroutine. -/
def body (options : Options) (className : String) (kind : SubroutineKind) (name : String)
    (isVoid : Bool) : Step Unit := do
  symbol .leftBrace
  callees .localVariables options
  let locals ← count .«local»
  let fields ← count .field
  emit (.function name locals :: Code.prologue kind fields)
  let endLabel := Code.endLabel (← freshLabel)
  let f : Frame := ⟨className, endLabel, options.foldTailReturn⟩
  let jumps ← callees .statements (f, false, false)
  symbol .rightBrace
  let labelled := jumps || !options.foldTailReturn
  emit (Code.epilogue (if labelled then some endLabel else none) isVoid)
  record (.subroutineCompiled name locals)

/-- A subroutine of a given kind. -/
def subroutine (options : Options) (className : String) (kind : SubroutineKind) : Step Unit := do
  skip
  let isVoid ← resultType
  let name ← consume .identifier
  let fullName := Code.qualified className name.text
  record (.subroutineStarted kind fullName)
  startSubroutine
  receiver kind className
  symbol .leftParen
  callees.parameters options
  symbol .rightParen
  callees.body options className kind fullName isVoid

/-- One round of the loop over subroutines. -/
def subroutines (options : Options) (className : String) : Step Unit := do
  match (← peek).kind.subroutineKind? with
  | none => return ()
  | some kind =>
    callees.subroutine options className kind
    callees .subroutines (options, className)

/-- A class without its end, which yields the name. -/
def openClass (options : Options) : Step Token := do
  let _ ← consume (.keyword .«class»)
  let name ← consume .identifier
  symbol .leftBrace
  callees .classVariables options
  callees .subroutines (options, name.text)
  symbol .rightBrace
  return name

/-- A class and the end of file. -/
def wholeClass (options : Options) : Step Unit := do
  let name ← callees.openClass options
  let _ ← consume .endOfFile
  record (.classCompiled name.text (← codeSize))

/-- The functions of the compiler, which call the given ones. -/
def next : Callees
  | .expression, className => callees.expression className
  | .operators, className => callees.operators className
  | .term, className => callees.term className
  | .element, className => callees.element className
  | .call, className => callees.call className
  | .arguments, className => callees.arguments className
  | .argumentsBehind, (className, count) => callees.argumentsBehind className count
  | .statements, (f, nested, jumps) => callees.statements f nested jumps
  | .statement, (f, nested, kind) => callees.statement f nested kind
  | .block, f => callees.block f
  | .ifStatement, f => callees.ifStatement f
  | .whileStatement, f => callees.whileStatement f
  | .names, (options, type, kind) => callees.names options type kind
  | .classVariables, options => callees.classVariables options
  | .localVariables, options => callees.localVariables options
  | .parametersBehind, options => callees.parametersBehind options
  | .subroutines, (options, className) => callees.subroutines options className

/-- Without a bound, the functions of the compiler stop. -/
theorem ofBound_zero (x : Routine) (parameters : x.Parameters) :
    ofBound 0 x parameters = Step.exhausted := by
  cases x <;> rfl

/-- Every call spends one step of the bound. -/
theorem ofBound_succ (bound : Nat) : ofBound (bound + 1) = (ofBound bound).next := by
  funext x parameters
  cases x <;> rfl

/-- With the functions of the compiler put in, the class is compiled as the compiler does it. -/
theorem wholeClass_ofBound (options : Options) (bound : Nat) :
    (ofBound bound).wholeClass options = Step.wholeClass options bound := by
  simp only [wholeClass, openClass, bind_assoc, pure_bind]
  rfl

end Callees

end Jack
