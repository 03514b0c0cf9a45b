import Jack.Compiler.Statement
import Jack.Proofs.Names.Acceptance

namespace Jack

/-!
# The code of a syntax tree

The translation of a tree, form by form and apart from reading it.  It needs to know what names
stand for, and the label numbers that are given away in front of a form; how many numbers the form
itself takes is told by `labels`.

The commands for operators, constants and array elements are written out here once more.  The tables
of the compiler come in at the end of the first part only, where they are shown to be the same.
-/

/-- Push what a name stands for.  A name that stands for nothing has no commands; it does not occur
in acceptable trees, and nothing is claimed about the code of others. -/
def pushName (names : Names) (name : String) : List Command :=
  match names name with
  | some s => [.push s.kind.segment s.index]
  | none => []

/-- Store the topmost word in what a name stands for, under the same condition. -/
def popName (names : Names) (name : String) : List Command :=
  match names name with
  | some s => [.pop s.kind.segment s.index]
  | none => []

/-! ## Operators, constants and array elements -/

/-- The command for an operator between two terms.  The machine multiplies and divides by calls. -/
def BinaryOperator.command : BinaryOperator → Command
  | add => .arithmetic .add
  | subtract => .arithmetic .sub
  | multiply => .call "Math.multiply" 2
  | divide => .call "Math.divide" 2
  | and => .arithmetic .and
  | or => .arithmetic .or
  | less => .arithmetic .lt
  | greater => .arithmetic .gt
  | equal => .arithmetic .eq

/-- The command for an operator in front of a term. -/
def UnaryOperator.command : UnaryOperator → Command
  | negate => .arithmetic .neg
  | complement => .arithmetic .not

/-- The commands for a constant that has a name.  Truth is the negative of one, and the current
object stands in the first pointer. -/
def KeywordConstant.commands : KeywordConstant → List Command
  | true => [.push .constant 1, .arithmetic .neg]
  | false => [.push .constant 0]
  | null => [.push .constant 0]
  | this => [.push .pointer 0]

/-- The commands for a text: make a string for so many characters, and append them in order. -/
def stringCommands (text : List Char) : List Command :=
  [.push .constant (UInt16.ofNat text.length), .call "String.new" 1] ++
    text.flatMap fun c =>
      [.push .constant (UInt16.ofNat c.toNat), .call "String.appendChar" 2]

/-- The commands that replace an address by the word that it points to. -/
def loadCommands : List Command := [.pop .pointer 1, .push .that 0]

/-- The commands that store the topmost word at the address below it.  The word waits in a temporary
place while the pointer is set. -/
def storeCommands : List Command :=
  [.pop .temp 0, .pop .pointer 1, .push .temp 0, .pop .that 0]

namespace Code

/-! These are the commands that the compiler emits. -/

/-- The compiler emits the command of the table for each binary operator. -/
theorem binary_eq (o : BinaryOperator) : binary o = o.command := by
  cases o <;> rfl

/-- The compiler emits the command of the table for each unary operator. -/
theorem unary_eq (o : UnaryOperator) : unary o = o.command := by
  cases o <;> rfl

/-- The compiler emits the commands of the table for each constant word. -/
theorem constant_eq (k : KeywordConstant) : constant k = k.commands := by
  cases k <;> rfl

/-- The compiler emits the commands that are written out here for a string. -/
theorem string_eq (text : List Char) : string text = stringCommands text := rfl

/-- The compiler emits the commands that are written out here for reading an element. -/
theorem loadElement_eq : loadElement = loadCommands := rfl

/-- The compiler emits the commands that are written out here for storing an element. -/
theorem storeElement_eq : storeElement = storeCommands := rfl

end Code

/-! ## Expressions -/

/-- Push the object that a call addresses, if it addresses one. -/
def CallTarget.receiver (names : Names) : CallTarget → List Command
  | own _ => [.push .pointer 0]
  | qualified object _ => pushName names object

/-- The routine that a call addresses: a method of the class itself, of the class of the object, or
a routine of the class that stands in front of the dot. -/
def CallTarget.routine (names : Names) (className : String) : CallTarget → String
  | own name => className ++ "." ++ name
  | qualified object member =>
    match names object with
    | some s => s.type ++ "." ++ member
    | none => object ++ "." ++ member

mutual

/-- The code of an expression, which leaves one word more on the stack.  That it does so, and which
word this is, is not part of the translation: it is shown of a machine that runs the commands. -/
def Expression.code (names : Names) (className : String) : Expression → List Command
  | .chain first rest => first.code names className ++ rest.code names className

/-- Combine the topmost word with each operand in turn.  The operator comes behind its operand, so
a chain is worked off from left to right. -/
def Operators.code (names : Names) (className : String) : Operators → List Command
  | .nil => []
  | .cons o operand rest =>
    operand.code names className ++ o.command :: rest.code names className

/-- The code of a term.  Digits are taken for their value in a word of sixteen bits; a source with
larger numbers has no tokens for them and no tree, so nothing is cut off. -/
def Term.code (names : Names) (className : String) : Term → List Command
  | .integer digits => [.push .constant (UInt16.ofNat (Token.decimal digits.toList))]
  | .string text => stringCommands (charactersBetweenQuotes text)
  | .constant k => k.commands
  | .unary o operand => operand.code names className ++ [o.command]
  | .parenthesis inner => inner.code names className
  | .plain name => pushName names name
  | .element array index =>
    pushName names array ++ index.code names className ++ .arithmetic .add :: loadCommands
  | .call c => c.code names className

/-- The code of a call: the object, if there is one, the listed arguments, and the call with the
number of all of them.  The number is cut to a word, which loses nothing of an acceptable call. -/
def Call.code (names : Names) (className : String) : Call → List Command
  | .invoke target listed =>
    target.receiver names ++ listed.code names className ++
      [.call (target.routine names className)
        (UInt16.ofNat (listed.length + target.implicit names))]

/-- The code of arguments, the first one first. -/
def Arguments.code (names : Names) (className : String) : Arguments → List Command
  | .nil => []
  | .cons first rest => first.code names className ++ rest.code names className

end

/-! ## Statements -/

mutual

/-- The number of label numbers that a statement takes: one for every branch and every loop.  Both
labels of a branch, and of a loop, have the same number. -/
def Statement.labels : Statement → Nat
  | .letVariable _ _ => 0
  | .letElement _ _ _ => 0
  | .ifThen _ thenBlock => thenBlock.labels + 1
  | .ifElse _ thenBlock elseBlock => thenBlock.labels + elseBlock.labels + 1
  | .whileLoop _ block => block.labels + 1
  | .doCall _ => 0
  | .returnValue _ => 0

/-- The label numbers of statements together. -/
def Statements.labels : Statements → Nat
  | .nil => 0
  | .cons first rest => first.labels + rest.labels

end

/-- There are no statements. -/
def Statements.isEmpty : Statements → Bool
  | .nil => true
  | .cons _ _ => false

mutual

/-- The code of a statement behind `n` label numbers.  At the `tail` of a subroutine a `return`
falls through to the end instead of jumping there.

The shapes are those of the compiled code, command by command: a condition is complemented before
it is tested, the false branch comes behind the true one, and a loop tests in front of its block.
Nothing is claimed here about what the commands do, nor about the frame: its label for the end need
not differ from the other labels, which is shown where a whole class is put together. -/
def Statement.code (names : Names) (f : Frame) (tail : Bool) (n : Nat) : Statement → List Command
  | .letVariable target value => value.code names f.className ++ popName names target
  | .letElement array index value =>
    pushName names array ++ index.code names f.className ++ .arithmetic .add ::
      value.code names f.className ++ storeCommands
  | .ifThen condition thenBlock =>
    condition.code names f.className ++
      [.arithmetic .not, .ifGoto (Code.ifFalseLabel n)] ++
      thenBlock.code names f false (n + 1) ++
      [.label (Code.ifFalseLabel n)]
  | .ifElse condition thenBlock elseBlock =>
    condition.code names f.className ++
      [.arithmetic .not, .ifGoto (Code.ifFalseLabel n)] ++
      thenBlock.code names f false (n + 1) ++
      [.goto (Code.ifEndLabel n), .label (Code.ifFalseLabel n)] ++
      elseBlock.code names f false (n + 1 + thenBlock.labels) ++
      [.label (Code.ifEndLabel n)]
  | .whileLoop condition block =>
    .label (Code.whileLabel n) :: condition.code names f.className ++
      [.arithmetic .not, .ifGoto (Code.whileEndLabel n)] ++
      block.code names f false (n + 1) ++
      [.goto (Code.whileLabel n), .label (Code.whileEndLabel n)]
  | .doCall c => c.code names f.className ++ [.pop .temp 0]
  | .returnValue value =>
    (match value with
      | some e => e.code names f.className
      | none => []) ++ if tail then [] else [.goto f.endLabel]

/-- The code of statements, of which the last may be at the `tail` of the subroutine.  Each of them
takes its label numbers behind those of the statements in front of it. -/
def Statements.code (names : Names) (f : Frame) (tail : Bool) (n : Nat) :
    Statements → List Command
  | .nil => []
  | .cons first rest =>
    first.code names f (tail && rest.isEmpty) n ++ rest.code names f tail (n + first.labels)

end

mutual

/-- The statement has a `return` that jumps to the end of the subroutine.  Inside of a branch or a
loop every `return` jumps, also if nothing comes behind it. -/
def Statement.jumps (tail : Bool) : Statement → Bool
  | .letVariable _ _ => false
  | .letElement _ _ _ => false
  | .ifThen _ thenBlock => thenBlock.jumps false
  | .ifElse _ thenBlock elseBlock => thenBlock.jumps false || elseBlock.jumps false
  | .whileLoop _ block => block.jumps false
  | .doCall _ => false
  | .returnValue _ => !tail

/-- One of the statements has such a `return`. -/
def Statements.jumps (tail : Bool) : Statements → Bool
  | .nil => false
  | .cons first rest => first.jumps (tail && rest.isEmpty) || rest.jumps tail

end

/-! ## Subroutines and classes -/

/-- The number of label numbers that a subroutine takes, one of them for its end. -/
def Subroutine.labels (s : Subroutine) : Nat := s.statements.labels + 1

/-- The frame of a subroutine that starts behind `n` label numbers. -/
def ClassTree.frame (c : ClassTree) (options : Options) (n : Nat) : Frame :=
  ⟨c.name, Code.endLabel n, options.foldTailReturn⟩

/-- The code of a subroutine of a class behind `n` label numbers.  The label for its end has the
first of its own numbers, and it stands in the code only if a `return` jumps there or tail returns
are not folded.  The numbers of local variables and of fields are cut to words; no kind has more
than 65535 of them in an acceptable class. -/
def Subroutine.code (options : Options) (c : ClassTree) (n : Nat) (s : Subroutine) :
    List Command :=
  let locals := UInt16.ofNat (countKind .«local» (s.declarations c.name))
  let fields := UInt16.ofNat (countKind .field c.declarations)
  let labelled := s.statements.jumps options.foldTailReturn || !options.foldTailReturn
  .function (Code.qualified c.name s.name) locals :: Code.prologue s.kind fields ++
    s.statements.code (c.namesIn s) (c.frame options n) options.foldTailReturn (n + 1) ++
    Code.epilogue (if labelled then some (Code.endLabel n) else none) s.isVoid

/-- The code of subroutines one behind the other.  Label numbers go on from one to the next. -/
def subroutinesCode (options : Options) (c : ClassTree) (n : Nat) :
    List Subroutine → List Command
  | [] => []
  | s :: rest => s.code options c n ++ subroutinesCode options c (n + s.labels) rest

/-- The code of a class, told from its tree.  It is defined for every tree, but only the code of
acceptable trees is that of a compilation. -/
def ClassTree.code (options : Options) (c : ClassTree) : List Command :=
  subroutinesCode options c 0 c.subroutines

end Jack
