namespace Jack

/-!
# Commands of the stack machine

The target of compilation is a machine with a stack of sixteen-bit words and eight memory segments.
A command is written as one line of words separated by single spaces.
-/

/-- A word that names no part of the machine. -/
inductive WordError
  | segment (word : String)
  | operation (word : String)
deriving DecidableEq

namespace WordError

/-- The error in words. -/
def message : WordError → String
  | segment word => "unrecognized segment: " ++ word
  | operation word => "unrecognized arithmetic command: " ++ word

end WordError

/-- A memory segment that `push` and `pop` address. -/
inductive Segment
  | constant | argument | «local» | static | this | that | pointer | temp
deriving DecidableEq

namespace Segment

/-- The word for a segment. -/
def text : Segment → String
  | constant => "constant"
  | argument => "argument"
  | «local» => "local"
  | static => "static"
  | this => "this"
  | that => "that"
  | pointer => "pointer"
  | temp => "temp"

/-- The segment with a given word.  The table is its own, and undoes `text`. -/
def ofText? : String → Option Segment
  | "constant" => some constant
  | "argument" => some argument
  | "local" => some «local»
  | "static" => some static
  | "this" => some this
  | "that" => some that
  | "pointer" => some pointer
  | "temp" => some temp
  | _ => none

/-- The segment that a word has to name. -/
def ofText (text : String) : Except WordError Segment :=
  match ofText? text with
  | some s => .ok s
  | none => .error (.segment text)

/-- Each word of the table is that of its segment, and no segment is missing. -/
theorem ofText?_eq_some_iff {word : String} {s : Segment} :
    ofText? word = some s ↔ s.text = word := by
  constructor
  · intro found
    unfold ofText? at found
    split at found <;> cases found <;> rfl
  · rintro rfl
    cases s <;> rfl

end Segment

/-- A command that works on the top of the stack alone. -/
inductive Operation
  | add | sub | neg | eq | gt | lt | and | or | not
deriving DecidableEq

namespace Operation

/-- The word for an operation. -/
def text : Operation → String
  | add => "add"
  | sub => "sub"
  | neg => "neg"
  | eq => "eq"
  | gt => "gt"
  | lt => "lt"
  | and => "and"
  | or => "or"
  | not => "not"

/-- The operation with a given word.  The table is its own, and undoes `text`. -/
def ofText? : String → Option Operation
  | "add" => some add
  | "sub" => some sub
  | "neg" => some neg
  | "eq" => some eq
  | "gt" => some gt
  | "lt" => some lt
  | "and" => some and
  | "or" => some or
  | "not" => some not
  | _ => none

/-- The operation that a word has to name. -/
def ofText (text : String) : Except WordError Operation :=
  match ofText? text with
  | some o => .ok o
  | none => .error (.operation text)

/-- Each word of the table is that of its operation, and no operation is missing. -/
theorem ofText?_eq_some_iff {word : String} {o : Operation} :
    ofText? word = some o ↔ o.text = word := by
  constructor
  · intro found
    unfold ofText? at found
    split at found <;> cases found <;> rfl
  · rintro rfl
    cases o <;> rfl

end Operation

/-- One command of the stack machine. -/
inductive Command
  | push (segment : Segment) (index : UInt16)
  | pop (segment : Segment) (index : UInt16)
  | arithmetic (operation : Operation)
  | label (name : String)
  | goto (name : String)
  /-- Take the top of the stack, and jump unless it is zero. -/
  | ifGoto (name : String)
  | call (name : String) (arguments : UInt16)
  | function (name : String) (locals : UInt16)
  | «return»
deriving DecidableEq

namespace Command

/-- The words of a command. -/
def words : Command → List String
  | push segment index => ["push", segment.text, toString index.toNat]
  | pop segment index => ["pop", segment.text, toString index.toNat]
  | arithmetic operation => [operation.text]
  | label name => ["label", name]
  | goto name => ["goto", name]
  | ifGoto name => ["if-goto", name]
  | call name arguments => ["call", name, toString arguments.toNat]
  | function name locals => ["function", name, toString locals.toNat]
  | «return» => ["return"]

/-- The line of a command, without its line feed. -/
def text (c : Command) : String := " ".intercalate c.words

end Command

end Jack
