import Std.Data.TreeMap
import Jack.Symbols.Basic

namespace Jack

/-!
# Symbol tables

A table holds the names of one class in two scopes.  Names of the class stay; the names of a
subroutine are given up when the next subroutine starts.  A name is looked for among the names of
the subroutine first.  A name that is declared again in its scope gets a new number and hides the
earlier declaration for good; the number of that declaration is not used again.
-/

/-- The number of declarations of each kind. -/
structure SymbolCounts where
  statics : UInt16
  fields : UInt16
  arguments : UInt16
  locals : UInt16
deriving DecidableEq

namespace SymbolCounts

/-- No declarations. -/
def zero : SymbolCounts := ⟨0, 0, 0, 0⟩

/-- The number of declarations of one kind. -/
def get (c : SymbolCounts) : SymbolKind → UInt16
  | .static => c.statics
  | .field => c.fields
  | .argument => c.arguments
  | .«local» => c.locals

/-- Replace the number of declarations of one kind. -/
def set (c : SymbolCounts) (kind : SymbolKind) (count : UInt16) : SymbolCounts :=
  match kind with
  | .static => { c with statics := count }
  | .field => { c with fields := count }
  | .argument => { c with arguments := count }
  | .«local» => { c with locals := count }

/-- The count of a kind is what it was set to. -/
@[simp] theorem get_set_self (c : SymbolCounts) (kind : SymbolKind) (count : UInt16) :
    (c.set kind count).get kind = count := by
  cases kind <;> rfl

/-- Setting the count of one kind leaves those of the other kinds alone. -/
@[simp] theorem get_set_of_ne (c : SymbolCounts) {kind other : SymbolKind} (count : UInt16)
    (ne : other ≠ kind) : (c.set kind count).get other = c.get other := by
  cases kind <;> cases other <;> first | rfl | exact absurd rfl ne

end SymbolCounts

/-- The names of one scope. -/
abbrev Scope := Std.TreeMap String Symbol

/-- The declared names of a class. -/
structure SymbolTable where
  classScope : Scope
  subroutineScope : Scope
  counts : SymbolCounts

namespace SymbolTable

/-- The table without names. -/
def empty : SymbolTable := ⟨∅, ∅, .zero⟩

/-- The number of names of a kind that have been declared, which is the number of the next one. -/
def count (t : SymbolTable) (kind : SymbolKind) : UInt16 := t.counts.get kind

/-- The largest number of names of one kind. -/
def limit : UInt16 := 65535

/-- Declare a name in the table, and tell which symbol of the same scope it replaces.  The table
comes back in any case.  The number of the name is taken from the count of its kind, which is raised
before the name is entered and is not lowered again. -/
def tryDefine (t : SymbolTable) (name type : String) (kind : SymbolKind) :
    Except SymbolError (Option Symbol) × SymbolTable :=
  let index := t.count kind
  if index = limit then (.error (.tooMany name), t)
  else
    let symbol : Symbol := ⟨name, type, kind, index⟩
    let counted := { t with counts := t.counts.set kind (index + 1) }
    if kind.isClassScope then
      (.ok t.classScope[name]?,
        { counted with classScope := counted.classScope.insert name symbol })
    else
      (.ok t.subroutineScope[name]?,
        { counted with subroutineScope := counted.subroutineScope.insert name symbol })

/-- Declare a name, for those who have no use for the table if that fails. -/
def define (t : SymbolTable) (name type : String) (kind : SymbolKind) :
    Except SymbolError (Option Symbol × SymbolTable) :=
  match t.tryDefine name type kind with
  | (.ok previous, declared) => .ok (previous, declared)
  | (.error e, _) => .error e

/-- A declaration that fails leaves the table as it is. -/
theorem tryDefine_eq (t : SymbolTable) (name type : String) (kind : SymbolKind) :
    t.tryDefine name type kind = match t.define name type kind with
      | .ok (previous, declared) => (.ok previous, declared)
      | .error e => (.error e, t) := by
  unfold define tryDefine
  dsimp only
  split
  · rfl
  · split <;> rfl

/-- Give up the names of the subroutine. -/
def startSubroutine (t : SymbolTable) : SymbolTable :=
  { t with subroutineScope := ∅, counts := (t.counts.set .argument 0).set .«local» 0 }

/-- The symbol that a name stands for. -/
def get? (t : SymbolTable) (name : String) : Option Symbol :=
  t.subroutineScope[name]?.or t.classScope[name]?

/-- A name stands for a symbol. -/
def contains (t : SymbolTable) (name : String) : Bool := (t.get? name).isSome

/-- The symbol that a name must stand for. -/
def lookup (t : SymbolTable) (name : String) : Except SymbolError Symbol :=
  match t.get? name with
  | some symbol => .ok symbol
  | none => .error (.unresolved name)

/-- The kind of a name. -/
def kindOf (t : SymbolTable) (name : String) : Except SymbolError SymbolKind :=
  (t.lookup name).map Symbol.kind

/-- The word for the type of a name. -/
def typeOf (t : SymbolTable) (name : String) : Except SymbolError String :=
  (t.lookup name).map Symbol.type

/-- The number of a name within its kind. -/
def indexOf (t : SymbolTable) (name : String) : Except SymbolError UInt16 :=
  (t.lookup name).map Symbol.index

end SymbolTable

end Jack
