import Jack.Machine.Command

namespace Jack

/-!
# Declared names

Every variable of a class belongs to one of four kinds.  The kind decides how long a name lives and
which memory segment holds its value; within its kind a name is known by its number in the order of
declaration.
-/

/-- The storage class of a declared name. -/
inductive SymbolKind
  /-- Shared by all objects of the class. -/
  | static
  /-- One for each object. -/
  | field
  /-- A parameter of a subroutine. -/
  | argument
  /-- A variable of a subroutine. -/
  | «local»
deriving DecidableEq

namespace SymbolKind

/-- The name of a kind in messages. -/
def name : SymbolKind → String
  | static => "Static"
  | field => "Field"
  | argument => "Argument"
  | «local» => "Local"

/-- Every kind, once. -/
def all : List SymbolKind := [static, field, argument, «local»]

/-- The kind with a given name. -/
def ofName? (name : String) : Option SymbolKind :=
  all.find? (·.name == name)

/-- The memory segment that holds the values of a kind. -/
def segment : SymbolKind → Segment
  | static => .static
  | field => .this
  | argument => .argument
  | «local» => .«local»

/-- Static and field names live for the whole class, the others for one subroutine. -/
def isClassScope : SymbolKind → Bool
  | static | field => true
  | argument | «local» => false

end SymbolKind

/-- A declared name. -/
structure Symbol where
  name : String
  /-- The word for its type: a primitive type or a class. -/
  type : String
  kind : SymbolKind
  /-- Its number within its kind. -/
  index : UInt16
deriving DecidableEq

/-- Why a name cannot be declared or found. -/
inductive SymbolError
  | unresolved (name : String)
  /-- All numbers of one kind are taken. -/
  | tooMany (name : String)
deriving DecidableEq

namespace SymbolError

/-- The name that the error is about. -/
def name : SymbolError → String
  | unresolved name => name
  | tooMany name => name

/-- The error in words. -/
def message : SymbolError → String
  | unresolved name => s!"unresolved symbol '{name}'"
  | tooMany name => s!"too many symbols of one kind, at '{name}'"

end SymbolError

end Jack
