import Jack.Compiler.Statement

namespace Jack

/-!
# Compiling classes

A class declares its variables, then its subroutines.  All local variables of a subroutine are
declared in front of its first statement, so their number is known when its code starts.
-/

namespace Step

/-- Read the name of a type. -/
def typeName : Step String := do
  let t ← peek
  if t.kind.isType then
    skip
    return t.text
  else unexpected "type" t

/-- Declare names of one type and kind, separated by commas. -/
def names (options : Options) (type : String) (kind : SymbolKind) : Nat → Step Unit
  | 0 => exhausted
  | bound + 1 => do
    let name ← consume .identifier
    declare options name type kind
    if ← accept (.symbol .comma) then names options type kind bound

/-- Declare variables of one kind behind the word that tells it. -/
def declaration (options : Options) (kind : SymbolKind) (bound : Nat) : Step Unit := do
  let type ← typeName
  names options type kind bound
  symbol .semicolon

/-- Declare the variables of a class. -/
def classVariables (options : Options) : Nat → Step Unit
  | 0 => exhausted
  | bound + 1 => do
    match (← peek).kind with
    | .keyword .static =>
      skip
      declaration options .static bound
      classVariables options bound
    | .keyword .field =>
      skip
      declaration options .field bound
      classVariables options bound
    | _ => return ()

/-- Declare the local variables of a subroutine. -/
def localVariables (options : Options) : Nat → Step Unit
  | 0 => exhausted
  | bound + 1 => do
    if (← peek).kind = .keyword .var then
      skip
      declaration options .«local» bound
      localVariables options bound

/-- Declare one parameter and those behind it. -/
def parametersBehind (options : Options) : Nat → Step Unit
  | 0 => exhausted
  | bound + 1 => do
    let type ← typeName
    let name ← consume .identifier
    declare options name type .argument
    if ← accept (.symbol .comma) then parametersBehind options bound

/-- Declare the parameters in front of a closing parenthesis. -/
def parameters (options : Options) (bound : Nat) : Step Unit := do
  if (← peek).kind ≠ .symbol .rightParen then parametersBehind options bound

/-- Read the type of a result, and tell whether there is no result. -/
def resultType : Step Bool := do
  if ← accept (.keyword .void) then return true
  else
    let _ ← typeName
    return false

/-- Compile the body of a subroutine. -/
def body (options : Options) (className : String) (kind : SubroutineKind) (name : String)
    (isVoid : Bool) (bound : Nat) : Step Unit := do
  symbol .leftBrace
  localVariables options bound
  let locals ← count .«local»
  let fields ← count .field
  emit (.function name locals :: Code.prologue kind fields)
  let endLabel := Code.endLabel (← freshLabel)
  let jumps ← statements ⟨className, endLabel, options.foldTailReturn⟩ bound false false
  symbol .rightBrace
  let labelled := jumps || !options.foldTailReturn
  emit (Code.epilogue (if labelled then some endLabel else none) isVoid)
  record (.subroutineCompiled name locals)

/-- Declare the object of a method as its first argument. -/
def receiver (kind : SubroutineKind) (className : String) : Step Unit :=
  match kind with
  | .method => do
    let _ ← define Code.receiver className .argument
  | _ => return ()

/-- Compile the subroutine whose first word is the current token. -/
def subroutine (options : Options) (className : String) (kind : SubroutineKind) (bound : Nat) :
    Step Unit := do
  skip
  let isVoid ← resultType
  let name ← consume .identifier
  let fullName := Code.qualified className name.text
  record (.subroutineStarted kind fullName)
  startSubroutine
  receiver kind className
  symbol .leftParen
  parameters options bound
  symbol .rightParen
  body options className kind fullName isVoid bound

/-- Compile subroutines as long as there are any. -/
def subroutines (options : Options) (className : String) : Nat → Step Unit
  | 0 => exhausted
  | bound + 1 => do
    match (← peek).kind.subroutineKind? with
    | none => return ()
    | some kind =>
      subroutine options className kind bound
      subroutines options className bound

/-- Compile a source, which must hold one class and nothing else. -/
def wholeClass (options : Options) (bound : Nat) : Step Unit := do
  let _ ← consume (.keyword .«class»)
  let name ← consume .identifier
  symbol .leftBrace
  classVariables options bound
  subroutines options name.text bound
  symbol .rightBrace
  let _ ← consume .endOfFile
  record (.classCompiled name.text (← codeSize))

end Step

end Jack
