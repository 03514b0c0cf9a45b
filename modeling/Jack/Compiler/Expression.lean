import Jack.Compiler.Progress
import Jack.Machine.Code

namespace Jack

/-!
# Compiling expressions

An expression becomes code that pushes its value.  Operators have no precedence: a chain of
operators is worked off from left to right.  One token tells which form a term has, except that a
name needs a second one: a bracket behind it makes it an array element, a parenthesis or a dot a
call.

Each function takes a bound on the number of steps that lie behind it, and every call spends one;
the length of the source is such a bound, because no cycle of calls passes fewer than one token.
-/

namespace Step

/-- The largest number of arguments of a call. -/
def maxArguments : Nat := 65535

/-- What is expected where a call has more arguments than a count of words can tell. -/
def tooManyArguments : String := "at most 65535 arguments"

/-- Emit a string constant, if the machine can hold its length and its characters. -/
def stringConstant (t : Token) : Step Unit :=
  if t.content.length > maxInt then unexpected "shorter string constant" t
  else if t.content.any (·.toNat > maxInt) then
    unexpected "character with code up to 32767" t
  else emit (Code.string t.content)

/-- Emit an integer constant, if its text spells a word. -/
def integerConstant (t : Token) : Step Unit :=
  match Token.word? t.text.toList with
  | some value => emit [.push .constant value]
  | none => unexpected "integer constant" t

/-- Emit the command for the operator between two terms. -/
def binaryOperation (t : Token) : Step Unit :=
  match t.kind.binaryOperator? with
  | some o => emit [Code.binary o]
  | none => unknownWord (.operation t.kind.name)

/-- Push the value of a variable. -/
def pushVariable (s : Symbol) : Step Unit := emit [.push s.kind.segment s.index]

/-- Store the topmost word in a variable. -/
def popVariable (s : Symbol) : Step Unit := emit [.pop s.kind.segment s.index]

/-- Whom a call addresses: the routine, and the number of arguments in front of the listed ones. -/
structure Callee where
  name : String
  implicit : Nat

/-- Read the name of a call and push the object that it addresses.  A name alone addresses a method
of the current object; in front of a dot, a variable is the object of a method of its class, and any
other name is a class. -/
def callee (className : String) : Step Callee := do
  let first ← consume .identifier
  if ← accept (.symbol .dot) then
    let member ← consume .identifier
    if ← has first.text then
      let object ← resolve first
      let type := (← lookup first.text).type
      pushVariable object
      return ⟨Code.qualified type member.text, 1⟩
    else return ⟨Code.qualified first.text member.text, 0⟩
  else
    emit [.push .pointer Code.thisPointer]
    return ⟨Code.qualified className first.text, 1⟩

mutual

/-- Push the value of the expression at the current token. -/
def expression (className : String) : Nat → Step Unit
  | 0 => exhausted
  | bound + 1 => do
    term className bound
    operators className bound

/-- Continue an expression behind a term, as long as operators follow. -/
def operators (className : String) : Nat → Step Unit
  | 0 => exhausted
  | bound + 1 => do
    let operator ← peek
    if operator.kind.isBinaryOperator then
      skip
      term className bound
      binaryOperation operator
      operators className bound

/-- Push the value of the term at the current token. -/
def term (className : String) : Nat → Step Unit
  | 0 => exhausted
  | bound + 1 => do
    let t ← peek
    match t.kind.termKind? with
    | some .integer =>
      skip
      integerConstant t
    | some .string =>
      skip
      stringConstant t
    | some (.constant k) =>
      skip
      emit (Code.constant k)
    | some (.unary o) =>
      skip
      term className bound
      emit [Code.unary o]
    | some .parenthesis =>
      skip
      expression className bound
      symbol .rightParen
    | some .name =>
      match (← peekNext).kind with
      | .symbol .leftBracket => element className bound
      | .symbol .leftParen => call className bound
      | .symbol .dot => call className bound
      | _ =>
        let name ← consume .identifier
        pushVariable (← resolve name)
    | none => unexpected "term" t

/-- Push an element of the array at the current token. -/
def element (className : String) : Nat → Step Unit
  | 0 => exhausted
  | bound + 1 => do
    let name ← consume .identifier
    let array ← resolve name
    symbol .leftBracket
    pushVariable array
    expression className bound
    symbol .rightBracket
    emit (.arithmetic .add :: Code.loadElement)

/-- Push the result of the call at the current token. -/
def call (className : String) : Nat → Step Unit
  | 0 => exhausted
  | bound + 1 => do
    let target ← callee className
    symbol .leftParen
    let listed ← arguments className bound
    let close ← consume (.symbol .rightParen)
    let total := listed + target.implicit
    if total > maxArguments then unexpected tooManyArguments close
    else emit [.call target.name (UInt16.ofNat total)]

/-- Push the arguments in front of a closing parenthesis, and yield their number. -/
def arguments (className : String) : Nat → Step Nat
  | 0 => exhausted
  | bound + 1 => do
    if (← peek).kind = .symbol .rightParen then return 0
    else argumentsBehind className bound 0

/-- Push one argument and those behind it, after `count` others, and yield the number of all. -/
def argumentsBehind (className : String) : Nat → Nat → Step Nat
  | 0, _ => exhausted
  | bound + 1, count => do
    let first ← peek
    if count ≥ maxArguments then unexpected tooManyArguments first
    else
      expression className bound
      if ← accept (.symbol .comma) then argumentsBehind className bound (count + 1)
      else return count + 1

end

/-! ## Tests that are made twice

An operator is recognised before its second operand and again behind it, and the name of an object
is looked up again after it has been found.  The second time nothing can fail.
-/

/-- The symbol that a name stands for, if it is declared. -/
def symbol? (name : String) : Step (Option Symbol) := fun p => .ok (p.symbols.get? name) p

/-- What is called, told with one look at the symbol table.  The step itself looks the first name up
three times, and all of them give the same symbol. -/
theorem callee_eq (className : String) :
    callee className = (do
      let first ← consume .identifier
      if ← accept (.symbol .dot) then
        let member ← consume .identifier
        match ← symbol? first.text with
        | some object =>
          pushVariable object
          return ⟨Code.qualified object.type member.text, 1⟩
        | none => return ⟨Code.qualified first.text member.text, 0⟩
      else
        emit [.push .pointer Code.thisPointer]
        return ⟨Code.qualified className first.text, 1⟩) := by
  have object (first member : Token) :
      (do
        if ← has first.text then
          let object ← resolve first
          let type := (← lookup first.text).type
          pushVariable object
          return ⟨Code.qualified type member.text, 1⟩
        else return ⟨Code.qualified first.text member.text, 0⟩ : Step Callee) = do
      match ← symbol? first.text with
      | some object =>
        pushVariable object
        return ⟨Code.qualified object.type member.text, 1⟩
      | none => return ⟨Code.qualified first.text member.text, 0⟩ := by
    funext p
    simp only [Bind.bind, EStateM.bind, has, symbol?, SymbolTable.contains]
    cases found : p.symbols.get? first.text with
    | none => rfl
    | some s =>
      simp only [Option.isSome_some, if_true, EStateM.bind, resolve_eq, lookup,
        SymbolTable.lookup, found]
  unfold callee
  simp only [object]

/-- For a token that is a binary operator, the other branch is not taken. -/
theorem binaryOperation_of_some {t : Token} {o : BinaryOperator}
    (operator : t.kind.binaryOperator? = some o) : binaryOperation t = emit [Code.binary o] := by
  rw [binaryOperation, operator]

/-- One iteration of the operators behind a term, with the operator known once and for all. -/
theorem operators_eq (className : String) (bound : Nat) :
    operators className (bound + 1) = (do
      let t ← peek
      match t.kind.binaryOperator? with
      | none => return ()
      | some o =>
        skip
        term className bound
        emit [Code.binary o]
        operators className bound) := by
  rw [operators]
  congr 1
  funext t
  rw [TokenKind.isBinaryOperator_eq]
  cases operator : t.kind.binaryOperator? with
  | none => rfl
  | some o =>
    rw [Option.isSome_some, if_pos rfl, binaryOperation_of_some operator]

end Step

end Jack
