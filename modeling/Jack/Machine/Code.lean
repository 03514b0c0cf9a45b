import Jack.Language.Operator
import Jack.Machine.Command

namespace Jack

/-!
# Code for the pieces of the language

The command sequences that depend on one operator, constant or form alone, with the names of the
operating system routines they call and the memory places they use.
-/

namespace Code

/-- Place of the pointer to the current object. -/
def thisPointer : UInt16 := 0

/-- Place of the pointer to the current array element. -/
def thatPointer : UInt16 := 1

/-- The temporary place that commands use between themselves. -/
def scratch : UInt16 := 0

/-- The name of the object on which a method is called, its first argument. -/
def receiver : String := "this"

/-- The routine that stands for the operator `*`; the machine has no command for it. -/
def multiplyRoutine : String := "Math.multiply"

/-- The routine that stands for the operator `/`; the machine has no command for it. -/
def divideRoutine : String := "Math.divide"

/-- The routine that a constructor calls for the memory of its object. -/
def allocateRoutine : String := "Memory.alloc"

/-- The routine that makes an empty string with room for a number of characters. -/
def newStringRoutine : String := "String.new"

/-- The routine that appends a character to a string and leaves the string behind. -/
def appendCharacterRoutine : String := "String.appendChar"

/-- Replace the two topmost words by their combination. -/
def binary : BinaryOperator → Command
  | .add => .arithmetic .add
  | .subtract => .arithmetic .sub
  | .multiply => .call multiplyRoutine 2
  | .divide => .call divideRoutine 2
  | .and => .arithmetic .and
  | .or => .arithmetic .or
  | .less => .arithmetic .lt
  | .greater => .arithmetic .gt
  | .equal => .arithmetic .eq

/-- Replace the topmost word. -/
def unary : UnaryOperator → Command
  | .negate => .arithmetic .neg
  | .complement => .arithmetic .not

/-- Push a constant that has a name.  Truth is the word of ones. -/
def constant : KeywordConstant → List Command
  | .true => [.push .constant 1, .arithmetic .neg]
  | .false => [.push .constant 0]
  | .null => [.push .constant 0]
  | .this => [.push .pointer thisPointer]

/-- Make a string object and fill it with characters. -/
def string (characters : List Char) : List Command :=
  .push .constant (UInt16.ofNat characters.length) :: .call newStringRoutine 1 ::
    characters.flatMap fun c =>
      [.push .constant (UInt16.ofNat c.toNat), .call appendCharacterRoutine 2]

/-- Replace the address on the stack by the word it points to. -/
def loadElement : List Command :=
  [.pop .pointer thatPointer, .push .that 0]

/-- Take a value and below it an address from the stack, and store the value there. -/
def storeElement : List Command :=
  [.pop .temp scratch, .pop .pointer thatPointer, .push .temp scratch, .pop .that 0]

/-- What a subroutine does before its statements: a constructor makes the object, with a word for
each field, and a method takes it from its first argument. -/
def prologue (kind : SubroutineKind) (fields : UInt16) : List Command :=
  match kind with
  | .constructor =>
    [.push .constant fields, .call allocateRoutine 1, .pop .pointer thisPointer]
  | .method => [.push .argument 0, .pop .pointer thisPointer]
  | .function => []

/-- What a subroutine does behind its statements: it stands at its end label, if it has one, and
returns, with a value of its own if it has no result. -/
def epilogue (endLabel : Option String) (isVoid : Bool) : List Command :=
  (match endLabel with
    | some name => [.label name]
    | none => []) ++
    (if isVoid then [.push .constant 0] else []) ++ [.«return»]

/-- The label behind the statements of a subroutine. -/
def endLabel (id : Nat) : String := s!"RETURN{id}"

/-- The label behind the first block of an `if` statement. -/
def ifFalseLabel (id : Nat) : String := s!"IF_FALSE{id}"

/-- The label at the end of an `if` statement.  It is set only if there is an `else`. -/
def ifEndLabel (id : Nat) : String := s!"IF_END{id}"

/-- The label in front of the condition of a loop. -/
def whileLabel (id : Nat) : String := s!"WHILE_EXP{id}"

/-- The label behind a loop. -/
def whileEndLabel (id : Nat) : String := s!"WHILE_END{id}"

/-- The name of a subroutine outside of its class. -/
def qualified (className name : String) : String := className ++ "." ++ name

end Code

end Jack
