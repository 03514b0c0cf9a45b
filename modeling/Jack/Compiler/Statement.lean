import Jack.Compiler.Expression

namespace Jack

/-!
# Compiling statements

Conditions and loops jump over blocks to labels with numbers of their own.  A `return` leaves its
value on the stack and jumps to the end of the subroutine, where the one `return` command stands;
the jump is left out if the end is the next command anyway and the options allow it.
-/

/-- What the statements of a subroutine have to know about it. -/
structure Frame where
  className : String
  /-- The label behind the statements. -/
  endLabel : String
  /-- A `return` in front of the end needs no jump. -/
  foldTailReturn : Bool

namespace Step

/-- Compile a `let` statement: the address of an array element is computed before the value and
waits below it on the stack. -/
def letStatement (f : Frame) (bound : Nat) : Step Unit := do
  skip
  let name ← consume .identifier
  let target ← resolve name
  if ← accept (.symbol .leftBracket) then
    pushVariable target
    expression f.className bound
    symbol .rightBracket
    emit [.arithmetic .add]
    symbol .equal
    expression f.className bound
    symbol .semicolon
    emit Code.storeElement
  else
    symbol .equal
    expression f.className bound
    symbol .semicolon
    popVariable target

/-- Compile a `do` statement: a call whose result is dropped. -/
def doStatement (f : Frame) (bound : Nat) : Step Unit := do
  skip
  call f.className bound
  symbol .semicolon
  emit [.pop .temp Code.scratch]

/-- Push the value of a `return` statement, if it has one. -/
def returnValue (f : Frame) (bound : Nat) : Step Unit := do
  if (← peek).kind = .symbol .semicolon then return ()
  else expression f.className bound

/-- Tell whether a `return` statement that ends in front of the current token has to jump. -/
def needsJump (f : Frame) (nested : Bool) : Step Bool := do
  if f.foldTailReturn && !nested then
    let behind ← peek
    return behind.kind ≠ .symbol .rightBrace
  else return true

/-- Compile a `return` statement, and tell whether it jumps. -/
def returnStatement (f : Frame) (bound : Nat) (nested : Bool) : Step Bool := do
  skip
  returnValue f bound
  symbol .semicolon
  if ← needsJump f nested then
    emit [.goto f.endLabel]
    return true
  else return false

mutual

/-- Compile statements as long as there are any, and tell whether one of them, or of those before,
as `jumps` says, jumps to the end of the subroutine. -/
def statements (f : Frame) : Nat → Bool → Bool → Step Bool
  | 0, _, _ => exhausted
  | bound + 1, nested, jumps => do
    match (← peek).kind.statementKind? with
    | none => return jumps
    | some kind =>
      let jumpsHere ← statement f bound nested kind
      statements f bound nested (jumps || jumpsHere)

/-- Compile the statement whose first word is the current token, and tell whether it jumps to the
end of the subroutine. -/
def statement (f : Frame) : Nat → Bool → StatementKind → Step Bool
  | 0, _, _ => exhausted
  | bound + 1, nested, kind =>
    match kind with
    | .«let» => do
      letStatement f bound
      return false
    | .«do» => do
      doStatement f bound
      return false
    | .«return» => returnStatement f bound nested
    | .«if» => ifStatement f bound
    | .«while» => whileStatement f bound

/-- Compile a block: statements in braces. -/
def block (f : Frame) : Nat → Step Bool
  | 0 => exhausted
  | bound + 1 => do
    symbol .leftBrace
    let jumps ← statements f bound true false
    symbol .rightBrace
    return jumps

/-- Compile an `if` statement. -/
def ifStatement (f : Frame) : Nat → Step Bool
  | 0 => exhausted
  | bound + 1 => do
    skip
    symbol .leftParen
    expression f.className bound
    symbol .rightParen
    let id ← freshLabel
    emit [.arithmetic .not, .ifGoto (Code.ifFalseLabel id)]
    let jumpsThen ← block f bound
    if ← accept (.keyword .«else») then
      emit [.goto (Code.ifEndLabel id), .label (Code.ifFalseLabel id)]
      let jumpsElse ← block f bound
      emit [.label (Code.ifEndLabel id)]
      return jumpsThen || jumpsElse
    else
      emit [.label (Code.ifFalseLabel id)]
      return jumpsThen

/-- Compile a `while` statement. -/
def whileStatement (f : Frame) : Nat → Step Bool
  | 0 => exhausted
  | bound + 1 => do
    skip
    let id ← freshLabel
    emit [.label (Code.whileLabel id)]
    symbol .leftParen
    expression f.className bound
    symbol .rightParen
    emit [.arithmetic .not, .ifGoto (Code.whileEndLabel id)]
    let jumps ← block f bound
    emit [.goto (Code.whileLabel id), .label (Code.whileEndLabel id)]
    return jumps

end

end Step

end Jack
