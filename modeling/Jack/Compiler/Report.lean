import Jack.Language.Operator
import Jack.Log
import Jack.Symbols.Basic
import Jack.Token.Stream

namespace Jack

/-!
# What compilation reports

A class that cannot be compiled is refused with one error, the first that is met.  Besides, events
are recorded in the order in which they happen, also before an error.
-/

/-- Why a class cannot be compiled. -/
inductive CompileError
  /-- The source has a faulty token, or a token that does not fit. -/
  | token (e : TokenError)
  /-- The name at the place is not declared, or cannot be. -/
  | symbol (e : SymbolError) (place : Location)
  /-- The name at the place is declared in its scope before, and that is not allowed. -/
  | redeclared (name : String) (place : Location)
deriving DecidableEq

namespace CompileError

/-- The whole text of the error. -/
def message : CompileError → String
  | token e => e.message
  | symbol e place => e.message ++ " " ++ place.text
  | redeclared name place => s!"symbol '{name}' is already declared in this scope " ++ place.text

end CompileError

/-- Something that happens during compilation. -/
inductive Event
  /-- The name at the place replaces an earlier symbol of its scope. -/
  | redeclared (name : String) (place : Location) (previous : Symbol)
  | subroutineStarted (kind : SubroutineKind) (name : String)
  | subroutineCompiled (name : String) (locals : UInt16)
  | classCompiled (name : String) (commands : Nat)
deriving DecidableEq

namespace Event

/-- The log record of an event. -/
def record : Event → Record
  | redeclared name place previous =>
    ⟨.warn, s!"'{name}' redeclared " ++ place.text ++ ", replacing " ++ previous.kind.name ++ " " ++
      previous.type ++ " " ++ toString previous.index.toNat⟩
  | subroutineStarted kind name => ⟨.trace, s!"compiling {kind.name} {name}"⟩
  | subroutineCompiled name locals => ⟨.debug, s!"compiled {name} with {locals.toNat} locals"⟩
  | classCompiled name commands =>
    ⟨.debug, s!"compiled class {name} into {commands} commands"⟩

end Event

end Jack
