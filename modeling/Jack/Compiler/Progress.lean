import Jack.Compiler.Report
import Jack.Machine.Listing
import Jack.Symbols.Table

namespace Jack

/-!
# The state of a compilation

Compilation passes once over the tokens of a class.  What it has read, declared, emitted and
recorded so far is its progress; a step of compilation continues a progress, and it keeps the
progress made up to an error, because the events recorded until then are reported with the error.
-/

/-- Choices of the user. -/
structure Options where
  /-- A name that is declared twice in one scope is an error. -/
  strictDeclarations : Bool := false
  /-- A `return` at the end of a subroutine needs no jump. -/
  foldTailReturn : Bool := true
deriving DecidableEq

/-- What a compilation has done so far. -/
structure Progress where
  stream : TokenStream
  symbols : SymbolTable
  /-- Number of label numbers that have been given away in this class. -/
  labels : Nat
  code : Listing
  events : Array Event

namespace Progress

/-- The progress in front of a source. -/
def ofSource (source : List Char) : Progress :=
  ⟨.ofSource source, .empty, 0, #[], #[]⟩

end Progress

/-- What a step complains about if it is used wrongly.  No source leads to a defect. -/
inductive Defect
  /-- The bound on the number of steps was too small. -/
  | exhausted
  /-- There is a fault with a name, and nobody said where the name stands. -/
  | unplaced (e : SymbolError)
  /-- A word is not one of the machine. -/
  | word (e : WordError)
deriving DecidableEq

/-- Why a compilation stops early. -/
inductive Stop
  | failed (e : CompileError)
  | defect (d : Defect)
deriving DecidableEq

/-- A step of compilation. -/
abbrev Step := EStateM Stop Progress

namespace Step

/-- The progress that a step has made when it ends or fails. -/
def reached {α : Type} : EStateM.Result Stop Progress α → Progress
  | .ok _ p => p
  | .error _ p => p

/-- Stop for an error. -/
def fail {α : Type} (e : CompileError) : Step α := fun p => .error (.failed e) p

/-- Stop because the bound on the number of steps is reached. -/
def exhausted {α : Type} : Step α := fun p => .error (.defect .exhausted) p

/-- Stop because a word is not one of the machine. -/
def unknownWord {α : Type} (e : WordError) : Step α := fun p => .error (.defect (.word e)) p

/-- Report a fault with a name at the place where the name stands. -/
def locate {α : Type} (place : Location) (x : Step α) : Step α := fun p =>
  match x p with
  | .error (.defect (.unplaced e)) q => .error (.failed (.symbol e place)) q
  | result => result

/-- A place is given to an error only; what goes well is not changed. -/
theorem locate_eq_ok {α : Type} {x : Step α} {place : Location} {p q : Progress} {a : α} :
    locate place x p = .ok a q ↔ x p = .ok a q := by
  unfold locate
  cases x p with
  | ok b r => rfl
  | error stop r =>
    constructor
    · intro run
      split at run <;> cases run
    · intro run
      cases run

/-- The current token. -/
def peek : Step Token := fun p =>
  match p.stream.peek with
  | .ok t => .ok t p
  | .error e => .error (.failed (.token (.lexical e))) p

/-- The token behind the current one. -/
def peekNext : Step Token := fun p =>
  match p.stream.peekNext with
  | .ok t => .ok t p
  | .error e => .error (.failed (.token (.lexical e))) p

/-- Pass the current token. -/
def skip : Step Unit := fun p => .ok () { p with stream := p.stream.advance }

/-- Pass the current token if it has a given kind, and tell whether it had. -/
def accept (kind : TokenKind) : Step Bool := fun p =>
  match p.stream.accept kind with
  | .ok (found, stream) => .ok found { p with stream := stream }
  | .error e => .error (.failed (.token (.lexical e))) p

/-- Pass the current token, which must have a given kind. -/
def consume (kind : TokenKind) : Step Token := fun p =>
  match p.stream.consume kind with
  | .ok (t, stream) => .ok t { p with stream := stream }
  | .error e => .error (.failed (.token e)) p

/-- Pass a symbol, which must be the current token. -/
def symbol (s : Punctuation) : Step Unit := do
  let _ ← consume (.symbol s)

/-- Stop because a token is not what the grammar expects. -/
def unexpected {α : Type} (expected : String) (t : Token) : Step α := fun p =>
  .error (.failed (.token (p.stream.unexpected expected t))) p

/-- Append commands to the code. -/
def emit (commands : List Command) : Step Unit := fun p =>
  .ok () { p with code := commands.foldl Array.push p.code }

/-- Record an event. -/
def record (e : Event) : Step Unit := fun p =>
  .ok () { p with events := p.events.push e }

/-- A number for labels that was not given away before. -/
def freshLabel : Step Nat := fun p => .ok p.labels { p with labels := p.labels + 1 }

/-- The number of commands that have been emitted. -/
def codeSize : Step Nat := fun p => .ok p.code.size p

/-- Tell whether a name is declared. -/
def has (name : String) : Step Bool := fun p => .ok (p.symbols.contains name) p

/-- The symbol that a name stands for. -/
def lookup (name : String) : Step Symbol := fun p =>
  match p.symbols.lookup name with
  | .ok s => .ok s p
  | .error e => .error (.defect (.unplaced e)) p

/-- The number of declarations of a kind. -/
def count (kind : SymbolKind) : Step UInt16 := fun p => .ok (p.symbols.count kind) p

/-- The symbol that the name in a token stands for. -/
def resolve (name : Token) : Step Symbol := locate name.start (lookup name.text)

/-- A name is looked up in the table, and if it is unknown, the place of the token is given to the
error.  Nothing else is changed. -/
theorem resolve_eq (name : Token) (p : Progress) :
    resolve name p = match p.symbols.lookup name.text with
      | .ok s => .ok s p
      | .error e => .error (.failed (.symbol e name.start)) p := by
  unfold resolve locate lookup
  cases p.symbols.lookup name.text <;> rfl

/-- Give up the names of the subroutine before. -/
def startSubroutine : Step Unit := fun p =>
  .ok () { p with symbols := p.symbols.startSubroutine }

/-- Declare a name, and yield the symbol it replaces. -/
def define (name type : String) (kind : SymbolKind) : Step (Option Symbol) := fun p =>
  match p.symbols.define name type kind with
  | .ok (previous, symbols) => .ok previous { p with symbols := symbols }
  | .error e => .error (.defect (.unplaced e)) p

/-- A name is put into the table, or the place of the token is given to the error.  In the second
case the progress is that from before. -/
theorem locate_define (place : Location) (name type : String) (kind : SymbolKind)
    (p : Progress) :
    locate place (define name type kind) p = match p.symbols.define name type kind with
      | .ok (previous, symbols) => .ok previous { p with symbols := symbols }
      | .error e => .error (.failed (.symbol e place)) p := by
  unfold locate define
  cases p.symbols.define name type kind <;> rfl

/-- Declare the name in a token.  A name that replaces another is an error under strict declarations
and is recorded otherwise. -/
def declare (options : Options) (name : Token) (type : String) (kind : SymbolKind) : Step Unit := do
  match ← locate name.start (define name.text type kind) with
  | none => return ()
  | some previous =>
    if options.strictDeclarations then fail (.redeclared name.text name.start)
    else record (.redeclared name.text name.start previous)

end Step

end Jack
