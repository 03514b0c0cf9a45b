import Jack.Proofs.Grammar.Lexeme

namespace Jack

/-!
# Syntax trees of classes

A tree has one constructor for every form of the grammar, and `lexemes` writes it out as the
sequence of lexemes that it stands for.  A sequence is derivable from the grammar if it is written
by a tree.  Trees say nothing about declarations or limits: a tree may use names that nobody
declares.

Operators have no precedence in the grammar, so an expression is a flat chain of terms.
-/

/-! ## Expressions -/

/-- Whom a call addresses. -/
inductive CallTarget
  /-- A name alone. -/
  | own (name : String)
  /-- `object '.' member` -/
  | qualified (object member : String)

/-- The lexemes of a target, in front of the parenthesis. -/
def CallTarget.lexemes : CallTarget → List Lexeme
  | own name => [.identifier name]
  | qualified object member => [.identifier object, .symbol .dot, .identifier member]

mutual

/-- `term (operator term)*` -/
inductive Expression
  | chain (first : Term) (rest : Operators)

/-- `(operator term)*` -/
inductive Operators
  | nil
  | cons (o : BinaryOperator) (operand : Term) (rest : Operators)

/-- An operand of a chain. -/
inductive Term
  | integer (digits : String)
  | string (text : String)
  | constant (k : KeywordConstant)
  | unary (o : UnaryOperator) (operand : Term)
  | parenthesis (inner : Expression)
  | plain (name : String)
  /-- `array '[' index ']'` -/
  | element (array : String) (index : Expression)
  | call (c : Call)

/-- `target '(' arguments ')'` -/
inductive Call
  | invoke (target : CallTarget) (listed : Arguments)

/-- `(expression (',' expression)*)?` -/
inductive Arguments
  | nil
  | cons (first : Expression) (rest : Arguments)

end

mutual

/-- The lexemes of an expression.  What comes behind it is not part of it, so only the lexeme there
tells that the expression has ended. -/
def Expression.lexemes : Expression → List Lexeme
  | .chain first rest => first.lexemes ++ rest.lexemes

/-- The lexemes of the rest of a chain. -/
def Operators.lexemes : Operators → List Lexeme
  | .nil => []
  | .cons o operand rest => .symbol o.symbol :: (operand.lexemes ++ rest.lexemes)

/-- The lexemes of a term.  Digits and the text of a string constant are taken as they are written;
that they are well-formed is up to the lexer. -/
def Term.lexemes : Term → List Lexeme
  | .integer digits => [.integer digits]
  | .string text => [.string text]
  | .constant k => [.keyword k.word]
  | .unary o operand => .symbol o.symbol :: operand.lexemes
  | .parenthesis inner => .symbol .leftParen :: (inner.lexemes ++ [.symbol .rightParen])
  | .plain name => [.identifier name]
  | .element array index =>
    .identifier array :: .symbol .leftBracket :: (index.lexemes ++ [.symbol .rightBracket])
  | .call c => c.lexemes

/-- The lexemes of a call, up to its closing parenthesis. -/
def Call.lexemes : Call → List Lexeme
  | .invoke target listed =>
    target.lexemes ++ .symbol .leftParen :: (listed.lexemes ++ [.symbol .rightParen])

/-- The lexemes of arguments, between the parentheses. -/
def Arguments.lexemes : Arguments → List Lexeme
  | .nil => []
  | .cons first rest => first.lexemes ++ rest.behind

/-- The arguments behind another one. -/
def Arguments.behind : Arguments → List Lexeme
  | .nil => []
  | .cons first rest => .symbol .comma :: (first.lexemes ++ rest.behind)

end

/-- The number of listed arguments. -/
def Arguments.length : Arguments → Nat
  | .nil => 0
  | .cons _ rest => rest.length + 1

/-! ## Statements -/

mutual

/-- A statement.  The two forms of `let`, and an `if` with and without a second block, are forms of
their own. -/
inductive Statement
  /-- `let target = value ;` -/
  | letVariable (target : String) (value : Expression)
  /-- `let array [ index ] = value ;` -/
  | letElement (array : String) (index value : Expression)
  | ifThen (condition : Expression) (thenBlock : Statements)
  | ifElse (condition : Expression) (thenBlock elseBlock : Statements)
  | whileLoop (condition : Expression) (block : Statements)
  | doCall (c : Call)
  | returnValue (value : Option Expression)

/-- `statement*` -/
inductive Statements
  | nil
  | cons (first : Statement) (rest : Statements)

end

/-- Lexemes in braces. -/
def braced (inner : List Lexeme) : List Lexeme :=
  .symbol .leftBrace :: (inner ++ [.symbol .rightBrace])

theorem braced_append (inner rest : List Lexeme) :
    braced inner ++ rest = .symbol .leftBrace :: (inner ++ .symbol .rightBrace :: rest) := by
  rw [braced, List.cons_append, List.append_assoc, List.singleton_append]

mutual

/-- The lexemes of a statement.  An `if` has the keyword for a second block behind its first one, so
what follows an `if` without one must not begin with this keyword. -/
def Statement.lexemes : Statement → List Lexeme
  | .letVariable target value =>
    .keyword .«let» :: .identifier target :: .symbol .equal ::
      (value.lexemes ++ [.symbol .semicolon])
  | .letElement array index value =>
    .keyword .«let» :: .identifier array :: .symbol .leftBracket ::
      (index.lexemes ++ .symbol .rightBracket :: .symbol .equal ::
        (value.lexemes ++ [.symbol .semicolon]))
  | .ifThen condition thenBlock =>
    .keyword .«if» :: .symbol .leftParen ::
      (condition.lexemes ++ .symbol .rightParen :: braced thenBlock.lexemes)
  | .ifElse condition thenBlock elseBlock =>
    .keyword .«if» :: .symbol .leftParen ::
      (condition.lexemes ++ .symbol .rightParen ::
        (braced thenBlock.lexemes ++ .keyword .«else» :: braced elseBlock.lexemes))
  | .whileLoop condition block =>
    .keyword .«while» :: .symbol .leftParen ::
      (condition.lexemes ++ .symbol .rightParen :: braced block.lexemes)
  | .doCall c => .keyword .«do» :: (c.lexemes ++ [.symbol .semicolon])
  | .returnValue none => [.keyword .«return», .symbol .semicolon]
  | .returnValue (some value) =>
    .keyword .«return» :: (value.lexemes ++ [.symbol .semicolon])

/-- The lexemes of statements one behind the other, without anything between them. -/
def Statements.lexemes : Statements → List Lexeme
  | .nil => []
  | .cons first rest => first.lexemes ++ rest.lexemes

end

/-! ## Declarations -/

/-- The name of a type. -/
inductive TypeName
  | int | char | boolean
  | named (className : String)
deriving DecidableEq

namespace TypeName

/-- A type is a single lexeme: one of three keywords, or an identifier. -/
def lexeme : TypeName → Lexeme
  | int => .keyword .int
  | char => .keyword .char
  | boolean => .keyword .boolean
  | named className => .identifier className

/-- The word for a type, as symbols keep it. -/
def text : TypeName → String
  | int => "int"
  | char => "char"
  | boolean => "boolean"
  | named className => className

end TypeName

/-- `type name (',' name)* ';'` -/
structure VariableGroup where
  type : TypeName
  first : String
  more : List String

/-- A name behind a comma. -/
def nameBehind (name : String) : List Lexeme := [.symbol .comma, .identifier name]

/-- The lexemes of a group behind the keyword for its kind. -/
def VariableGroup.lexemes (g : VariableGroup) : List Lexeme :=
  g.type.lexeme :: .identifier g.first :: (g.more.flatMap nameBehind ++ [.symbol .semicolon])

/-- `('static' | 'field') type name (',' name)* ';'` -/
inductive ClassVariables
  | static (group : VariableGroup)
  | field (group : VariableGroup)

/-- The lexemes of class variables, with the keyword for their kind. -/
def ClassVariables.lexemes : ClassVariables → List Lexeme
  | static group => .keyword .static :: group.lexemes
  | field group => .keyword .field :: group.lexemes

/-- `'var' type name (',' name)* ';'` -/
def VariableGroup.localLexemes (g : VariableGroup) : List Lexeme :=
  .keyword .var :: g.lexemes

/-- `type name` -/
structure Parameter where
  type : TypeName
  name : String

/-- The lexemes of a parameter. -/
def Parameter.lexemes (p : Parameter) : List Lexeme := [p.type.lexeme, .identifier p.name]

/-- A parameter behind a comma. -/
def Parameter.behind (p : Parameter) : List Lexeme := .symbol .comma :: p.lexemes

/-- `(parameter (',' parameter)*)?` -/
def parameterLexemes : List Parameter → List Lexeme
  | [] => []
  | first :: rest => first.lexemes ++ rest.flatMap Parameter.behind

/-- The type of a result; without a type there is no result. -/
def resultLexeme : Option TypeName → Lexeme
  | none => .keyword .void
  | some type => type.lexeme

/-! ## Subroutines and classes -/

/-- `kind result name '(' parameters ')' '{' locals statements '}'` -/
structure Subroutine where
  kind : SubroutineKind
  result : Option TypeName
  name : String
  parameters : List Parameter
  locals : List VariableGroup
  statements : Statements

/-- The subroutine has no result. -/
def Subroutine.isVoid (s : Subroutine) : Bool := s.result.isNone

/-- The lexemes of a subroutine.  All local variables are declared in front of the statements. -/
def Subroutine.lexemes (s : Subroutine) : List Lexeme :=
  .keyword s.kind.word :: resultLexeme s.result :: .identifier s.name :: .symbol .leftParen ::
    (parameterLexemes s.parameters ++ .symbol .rightParen :: .symbol .leftBrace ::
      (s.locals.flatMap VariableGroup.localLexemes ++
        (s.statements.lexemes ++ [.symbol .rightBrace])))

/-- `'class' name '{' members subroutines '}'` -/
structure ClassTree where
  name : String
  members : List ClassVariables
  subroutines : List Subroutine

/-- The lexemes of a whole source, with the end of file behind the class. -/
def ClassTree.lexemes (c : ClassTree) : List Lexeme :=
  .keyword .«class» :: .identifier c.name :: .symbol .leftBrace ::
    (c.members.flatMap ClassVariables.lexemes ++ (c.subroutines.flatMap Subroutine.lexemes ++
      [.symbol .rightBrace, .endOfFile]))

namespace ClassTree

variable {c : ClassTree} {l : Lexeme}

/-- The lexemes of a line of class variables are among those of the class. -/
theorem mem_lexemes_of_mem_members {line : ClassVariables} (member : line ∈ c.members)
    (inLine : l ∈ line.lexemes) : l ∈ c.lexemes := by
  have inMembers := List.mem_flatMap_of_mem member inLine
  simp only [lexemes, List.mem_cons, List.mem_append, inMembers, true_or, or_true]

/-- The lexemes of a subroutine are among those of the class. -/
theorem mem_lexemes_of_mem_subroutines {s : Subroutine} (member : s ∈ c.subroutines)
    (inSubroutine : l ∈ s.lexemes) : l ∈ c.lexemes := by
  have inSubroutines := List.mem_flatMap_of_mem member inSubroutine
  simp only [lexemes, List.mem_cons, List.mem_append, inSubroutines, true_or, or_true]

/-- The lexemes of the statements of a subroutine are among those of the class. -/
theorem mem_lexemes_of_mem_statements {s : Subroutine} (member : s ∈ c.subroutines)
    (inStatements : l ∈ s.statements.lexemes) : l ∈ c.lexemes := by
  refine mem_lexemes_of_mem_subroutines member ?_
  simp only [Subroutine.lexemes, List.mem_cons, List.mem_append, inStatements, true_or, or_true]

end ClassTree

/-- The lexemes in front of the end of file. -/
def ClassTree.ownLexemes (c : ClassTree) : List Lexeme :=
  .keyword .«class» :: .identifier c.name :: .symbol .leftBrace ::
    (c.members.flatMap ClassVariables.lexemes ++ (c.subroutines.flatMap Subroutine.lexemes ++
      [.symbol .rightBrace]))

/-- The end of file is written behind a class. -/
theorem ClassTree.lexemes_eq_ownLexemes (c : ClassTree) :
    c.lexemes = c.ownLexemes ++ [.endOfFile] := by
  simp only [lexemes, ownLexemes, List.cons_append, List.append_assoc, List.nil_append]

end Jack
