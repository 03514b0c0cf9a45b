import Jack.Proofs.Machine.State
import Jack.Proofs.Names.Acceptance

namespace Jack

/-!
# Evaluating expressions

The value of an expression, told from its tree and without a machine.  Operands are evaluated from
left to right, and a chain of operators is worked off from left to right, without precedence.  Calls
are the only effects: they see the memory that the evaluation in front of them has left, and what
comes behind them sees the memory that they leave.
-/

/-- What evaluation has to know besides the memory.  The routines are not looked into: a call is
whatever they make of its arguments and of the memory. -/
structure Environment (World : Type) where
  names : Names
  className : String
  routines : Routines World
  /-- The current object. -/
  this : Word

/-- An evaluation reads the memory, and its calls may change it. -/
abbrev Evaluation (World : Type) := StateM (Memory World)

/-- The word at an address.  Every address has a word, so an array has no bounds. -/
def wordAt {World : Type} (address : Word) : Evaluation World Word := do
  return (← get).heap address

namespace Environment

variable {World : Type} (env : Environment World)

/-- The value of a variable.  Fields are words of the current object, one behind the other from its
address on, and addresses wrap around.  It is not claimed that the object has that many words, or
that a variable has been given a value before. -/
def value (s : Symbol) : Evaluation World Word := do
  let memory ← get
  match s.kind with
  | .static => return memory.statics s.index
  | .field => return memory.heap (env.this + s.index)
  | .argument => return memory.arguments s.index
  | .«local» => return memory.locals s.index

/-- The value of the variable that a name stands for.  Acceptable expressions use no others. -/
def variableValue (name : String) : Evaluation World Word :=
  match env.names name with
  | some s => env.value s
  | none => return 0

/-- Call a routine by its name, which may be one that nobody defines. -/
def call (name : String) (arguments : List Word) : Evaluation World Word :=
  env.routines name arguments

/-- The value of an operator between two words.  Sums and differences wrap around, comparison is
between signed numbers, and multiplication and division are calls, of which no value is claimed. -/
def combine (o : BinaryOperator) (left right : Word) : Evaluation World Word :=
  match o with
  | .add => return left + right
  | .subtract => return left - right
  | .multiply => env.call "Math.multiply" [left, right]
  | .divide => env.call "Math.divide" [left, right]
  | .and => return left &&& right
  | .or => return left ||| right
  | .less => return truth (left.toInt16 < right.toInt16)
  | .greater => return truth (left.toInt16 > right.toInt16)
  | .equal => return truth (left = right)

/-- Append characters to a string object, one after the other.  Each goes to the object that the
routine has returned for the one in front of it. -/
def appendCharacters (object : Word) : List Char → Evaluation World Word
  | [] => return object
  | c :: rest => do
    appendCharacters (← env.call "String.appendChar" [object, UInt16.ofNat c.toNat]) rest

/-- Make a string object and append the characters of a constant. -/
def string (characters : List Char) : Evaluation World Word := do
  env.appendCharacters (← env.call "String.new" [UInt16.ofNat characters.length]) characters

/-- The value of a constant with a name. -/
def constant : KeywordConstant → Word
  | .true => -1
  | .false => 0
  | .null => 0
  | .this => env.this

/-- The implicit arguments of a call.  A name alone addresses a method of the current object; in
front of a dot, a variable is the object of a method, and any other name is a class. -/
def receivers : CallTarget → Evaluation World (List Word)
  | .own _ => return [env.this]
  | .qualified object _ =>
    match env.names object with
    | some s => do return [← env.value s]
    | none => return []

/-- The routine that a call addresses. -/
def routine : CallTarget → String
  | .own name => env.className ++ "." ++ name
  | .qualified object member =>
    match env.names object with
    | some s => s.type ++ "." ++ member
    | none => object ++ "." ++ member

end Environment

mutual

/-- The value of an expression: that of its first term, to which the operators are applied. -/
def Expression.evaluate {World : Type} (env : Environment World) :
    Expression → Evaluation World Word
  | .chain first rest => do
    rest.evaluate env (← first.evaluate env)

/-- The value of a chain whose value so far is known. -/
def Operators.evaluate {World : Type} (env : Environment World) :
    Operators → Word → Evaluation World Word
  | .nil, left => return left
  | .cons o operand rest, left => do
    let right ← operand.evaluate env
    rest.evaluate env (← env.combine o left right)

/-- The value of a term.  An array element is the word at the sum of the array and the index; the
array is read before the index is evaluated. -/
def Term.evaluate {World : Type} (env : Environment World) : Term → Evaluation World Word
  | .integer digits => return UInt16.ofNat (Token.decimal digits.toList)
  | .string text => env.string (charactersBetweenQuotes text)
  | .constant k => return env.constant k
  | .unary .negate operand => do return -(← operand.evaluate env)
  | .unary .complement operand => do return ~~~(← operand.evaluate env)
  | .parenthesis inner => inner.evaluate env
  | .plain name => env.variableValue name
  | .element array index => do
    let base ← env.variableValue array
    let offset ← index.evaluate env
    wordAt (base + offset)
  | .call c => c.evaluate env

/-- The value of a call.  The object is read before the arguments are evaluated, also where an
argument changes the variable that holds it. -/
def Call.evaluate {World : Type} (env : Environment World) : Call → Evaluation World Word
  | .invoke target listed => do
    let implicit ← env.receivers target
    let values ← listed.evaluate env
    env.call (env.routine target) (implicit ++ values)

/-- The values of arguments, the first one first. -/
def Arguments.evaluate {World : Type} (env : Environment World) :
    Arguments → Evaluation World (List Word)
  | .nil => return []
  | .cons first rest => do
    let value ← first.evaluate env
    let values ← rest.evaluate env
    return value :: values

end

end Jack
