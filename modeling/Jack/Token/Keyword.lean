namespace Jack

/-!
# Reserved words

The words of the Jack language that are never identifiers.  A word is reserved only as a whole:
`classic` and `Class` are identifiers.
-/

/-- A reserved word. -/
inductive Keyword
  | «class» | constructor | function | method | field | static | var
  | int | char | boolean | void
  | true | false | null | this
  | «let» | «do» | «if» | «else» | «while» | «return»
deriving DecidableEq

namespace Keyword

/-- The spelling of a reserved word. -/
def text : Keyword → String
  | «class» => "class"
  | constructor => "constructor"
  | function => "function"
  | method => "method"
  | field => "field"
  | static => "static"
  | var => "var"
  | int => "int"
  | char => "char"
  | boolean => "boolean"
  | void => "void"
  | true => "true"
  | false => "false"
  | null => "null"
  | this => "this"
  | «let» => "let"
  | «do» => "do"
  | «if» => "if"
  | «else» => "else"
  | «while» => "while"
  | «return» => "return"

/-- Every reserved word, once. -/
def all : List Keyword :=
  [«class», constructor, function, method, field, static, var, int, char, boolean, void,
    true, false, null, this, «let», «do», «if», «else», «while», «return»]

/-- The spellings that are reserved, and the words they stand for.  This table is not made from
`text`; that each undoes the other is proved below. -/
def spellings : List (String × Keyword) :=
  [("class", «class»), ("constructor", constructor), ("function", function), ("method", method),
    ("field", field), ("static", static), ("var", var), ("int", int), ("char", char),
    ("boolean", boolean), ("void", void), ("true", true), ("false", false), ("null", null),
    ("this", this), ("let", «let»), ("do", «do»), ("if", «if»), ("else", «else»),
    ("while", «while»), ("return", «return»)]

/-- The reserved word with a given spelling. -/
def ofText? (text : String) : Option Keyword := spellings.lookup text

/-- The types that are built into the language. -/
def isPrimitiveType : Keyword → Bool
  | int | char | boolean => Bool.true
  | _ => Bool.false

/-- Each word is found in the table of words by its text. -/
theorem ofText?_text (k : Keyword) : ofText? k.text = some k := by
  cases k <;> rfl

/-- The table of words gives no other word than the one that is spelled so. -/
theorem text_of_ofText? {s : String} {k : Keyword} (found : ofText? s = some k) : k.text = s := by
  rcases List.lookup_eq_some_iff.mp found with ⟨before, behind, table, -⟩
  have spelled : ∀ spelling ∈ spellings, spelling.2.text = spelling.1 := by decide
  exact spelled (s, k) (by rw [table]; exact List.mem_append_right before List.mem_cons_self)

end Keyword

end Jack
