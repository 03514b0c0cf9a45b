import Jack.Proofs.Names.Written
import Mathlib.Data.List.Forall2

namespace Jack

/-!
# Renaming variables

A renaming gives new names to the variables of a class: to the names in their declarations, and in
every subroutine to the names that are declared there, wherever they stand for a variable.  These
are the targets of assignments, plain names in terms, arrays in front of an index, and objects in
front of a dot.  Names of classes, types and subroutines stay as they are, also where they are
spelled like a variable.
-/

/-! ## Trees -/

/-- In front of a dot, a name may be a variable. -/
def CallTarget.rename (r : String → String) : CallTarget → CallTarget
  | own name => own name
  | qualified object member => qualified (r object) member

mutual

/-- The expression with new names for what may be variables in it.  What is called keeps its name.
-/
def Expression.rename (r : String → String) : Expression → Expression
  | .chain first rest => .chain (first.rename r) (rest.rename r)

/-- The operators with new names in their terms. -/
def Operators.rename (r : String → String) : Operators → Operators
  | .nil => .nil
  | .cons o operand rest => .cons o (operand.rename r) (rest.rename r)

/-- The term with new names.  Constants stay as they are. -/
def Term.rename (r : String → String) : Term → Term
  | .integer digits => .integer digits
  | .string text => .string text
  | .constant k => .constant k
  | .unary o operand => .unary o (operand.rename r)
  | .parenthesis inner => .parenthesis (inner.rename r)
  | .plain name => .plain (r name)
  | .element array index => .element (r array) (index.rename r)
  | .call c => .call (c.rename r)

/-- The call with new names in its arguments and for its object. -/
def Call.rename (r : String → String) : Call → Call
  | .invoke target listed => .invoke (target.rename r) (listed.rename r)

/-- The arguments with new names. -/
def Arguments.rename (r : String → String) : Arguments → Arguments
  | .nil => .nil
  | .cons first rest => .cons (first.rename r) (rest.rename r)

end

mutual

/-- The statement with new names.  The target of an assignment is a variable, and so is an array. -/
def Statement.rename (r : String → String) : Statement → Statement
  | .letVariable target value => .letVariable (r target) (value.rename r)
  | .letElement array index value => .letElement (r array) (index.rename r) (value.rename r)
  | .ifThen condition thenBlock => .ifThen (condition.rename r) (thenBlock.rename r)
  | .ifElse condition thenBlock elseBlock =>
    .ifElse (condition.rename r) (thenBlock.rename r) (elseBlock.rename r)
  | .whileLoop condition block => .whileLoop (condition.rename r) (block.rename r)
  | .doCall c => .doCall (c.rename r)
  | .returnValue none => .returnValue none
  | .returnValue (some value) => .returnValue (some (value.rename r))

/-- The statements with new names. -/
def Statements.rename (r : String → String) : Statements → Statements
  | .nil => .nil
  | .cons first rest => .cons (first.rename r) (rest.rename r)

end

/-! ## Names in front of a dot -/

/-- The name in front of the dot, which may be that of a class. -/
def CallTarget.objects : CallTarget → List String
  | own _ => []
  | qualified object _ => [object]

mutual

/-- The names that stand in front of a dot. -/
def Expression.objects : Expression → List String
  | .chain first rest => first.objects ++ rest.objects

/-- Such names in the terms behind operators. -/
def Operators.objects : Operators → List String
  | .nil => []
  | .cons _ operand rest => operand.objects ++ rest.objects

/-- Such names in a term. -/
def Term.objects : Term → List String
  | .integer _ => []
  | .string _ => []
  | .constant _ => []
  | .unary _ operand => operand.objects
  | .parenthesis inner => inner.objects
  | .plain _ => []
  | .element _ index => index.objects
  | .call c => c.objects

/-- Such names in a call and in its arguments. -/
def Call.objects : Call → List String
  | .invoke target listed => target.objects ++ listed.objects

/-- Such names in arguments. -/
def Arguments.objects : Arguments → List String
  | .nil => []
  | .cons first rest => first.objects ++ rest.objects

end

mutual

/-- Such names in a statement. -/
def Statement.objects : Statement → List String
  | .letVariable _ value => value.objects
  | .letElement _ index value => index.objects ++ value.objects
  | .ifThen condition thenBlock => condition.objects ++ thenBlock.objects
  | .ifElse condition thenBlock elseBlock =>
    condition.objects ++ thenBlock.objects ++ elseBlock.objects
  | .whileLoop condition block => condition.objects ++ block.objects
  | .doCall c => c.objects
  | .returnValue none => []
  | .returnValue (some value) => value.objects

/-- Such names in statements. -/
def Statements.objects : Statements → List String
  | .nil => []
  | .cons first rest => first.objects ++ rest.objects

end

/-! ## Declarations -/

variable (ρ : String → String)

/-- The group with new names for all of its variables. -/
def VariableGroup.rename (g : VariableGroup) : VariableGroup :=
  ⟨g.type, ρ g.first, g.more.map ρ⟩

/-- The line with new names for its variables. -/
def ClassVariables.rename : ClassVariables → ClassVariables
  | static group => static (group.rename ρ)
  | field group => field (group.rename ρ)

/-- The parameter under a new name. -/
def Parameter.rename (p : Parameter) : Parameter := ⟨p.type, ρ p.name⟩

/-- New names for the variables that the subroutine declares, and `r` for the names in its
statements. -/
def Subroutine.rename (r : String → String) (s : Subroutine) : Subroutine where
  kind := s.kind
  result := s.result
  name := s.name
  parameters := s.parameters.map (Parameter.rename ρ)
  locals := s.locals.map (VariableGroup.rename ρ)
  statements := s.statements.rename r

namespace ClassTree

/-- The variables that are declared for the statements of a subroutine, without the object of a
method, which has no name of its own. -/
def variablesIn (c : ClassTree) (s : Subroutine) : List String :=
  (c.declarations ++ s.ownDeclarations).map Declaration.name

/-- The new name of a name in the statements of a subroutine, if it is a variable there. -/
def renameIn (c : ClassTree) (s : Subroutine) (name : String) : String :=
  if name ∈ c.variablesIn s then ρ name else name

/-- New names for the variables of a class. -/
def rename (c : ClassTree) : ClassTree where
  name := c.name
  members := c.members.map (ClassVariables.rename ρ)
  subroutines := c.subroutines.map fun s => s.rename ρ (c.renameIn ρ s)

end ClassTree

/-! ## Lexemes -/

/-- Nothing but the name of an identifier is changed. -/
inductive Lexeme.Renamed : Lexeme → Lexeme → Prop
  | same (l : Lexeme) : Renamed l l
  | identifier (name : String) : Renamed (.identifier name) (.identifier (ρ name))

/-- Lexemes are changed in their places. -/
abbrev Renamed : List Lexeme → List Lexeme → Prop := List.Forall₂ (Lexeme.Renamed ρ)

namespace Renamed

variable {ρ} {first second first' second' : List Lexeme}

theorem refl (lexemes : List Lexeme) : Renamed ρ lexemes lexemes :=
  List.forall₂_same.mpr fun l _ => Lexeme.Renamed.same l

/-- Lexemes are changed in the front and in the back. -/
theorem append (front : Renamed ρ first first') (behind : Renamed ρ second second') :
    Renamed ρ (first ++ second) (first' ++ second') :=
  List.rel_append front behind

theorem cons (l : Lexeme) (behind : Renamed ρ first first') :
    Renamed ρ (l :: first) (l :: first') :=
  List.Forall₂.cons (Lexeme.Renamed.same l) behind

/-- An identifier in front is changed. -/
theorem identifier (name : String) (behind : Renamed ρ first first') :
    Renamed ρ (.identifier name :: first) (.identifier (ρ name) :: first') :=
  List.Forall₂.cons (Lexeme.Renamed.identifier name) behind

theorem braced (inside : Renamed ρ first first') : Renamed ρ (braced first) (braced first') :=
  cons _ (inside.append (refl _))

/-- Lexemes that are listed for the parts of a form. -/
theorem flatMap_map {α : Type} {f : α → List Lexeme} {change : α → α} {listed : List α}
    (each : ∀ a ∈ listed, Renamed ρ (f a) (f (change a))) :
    Renamed ρ (listed.flatMap f) ((listed.map change).flatMap f) := by
  induction listed with
  | nil => exact .nil
  | cons a more inductionHypothesis =>
      rcases List.forall_mem_cons.mp each with ⟨first, others⟩
      rw [List.map_cons, List.flatMap_cons, List.flatMap_cons]
      exact append first (inductionHypothesis others)

/-- A renaming that changes fewer names. -/
theorem mono {r : String → String} (partly : ∀ name, r name = name ∨ r name = ρ name)
    (renamed : Renamed r first first') : Renamed ρ first first' := by
  refine List.Forall₂.imp (fun l l' changed => ?_) renamed
  cases changed with
  | same l => exact .same l
  | identifier name =>
      rcases partly name with same | changed
      · rw [same]
        exact .same _
      · rw [changed]
        exact .identifier name

end Renamed

section Statements

variable (r : String → String)

theorem CallTarget.lexemes_rename (target : CallTarget) :
    Renamed r target.lexemes (target.rename r).lexemes := by
  cases target with
  | own name => exact .refl _
  | qualified object member => exact .identifier object (.refl _)

mutual

/-- Renaming an expression changes nothing but identifiers, and it changes all of them in place. -/
theorem Expression.lexemes_rename (e : Expression) :
    Renamed r e.lexemes (e.rename r).lexemes := by
  cases e with
  | chain first rest => exact first.lexemes_rename.append rest.lexemes_rename

theorem Operators.lexemes_rename (operators : Operators) :
    Renamed r operators.lexemes (operators.rename r).lexemes := by
  cases operators with
  | nil => exact .nil
  | cons o operand rest =>
      exact .cons _ (operand.lexemes_rename.append rest.lexemes_rename)

/-- Renaming a term changes nothing but identifiers. -/
theorem Term.lexemes_rename (t : Term) : Renamed r t.lexemes (t.rename r).lexemes := by
  cases t with
  | integer digits => exact .refl _
  | string text => exact .refl _
  | constant k => exact .refl _
  | unary o operand => exact .cons _ operand.lexemes_rename
  | parenthesis inner => exact .cons _ (inner.lexemes_rename.append (.refl _))
  | plain name => exact .identifier name (.refl _)
  | element array index =>
      exact .identifier array (.cons _ (index.lexemes_rename.append (.refl _)))
  | call c => exact c.lexemes_rename

theorem Call.lexemes_rename (c : Call) : Renamed r c.lexemes (c.rename r).lexemes := by
  cases c with
  | invoke target listed =>
      exact (target.lexemes_rename r).append
        (.cons _ (listed.lexemes_rename.append (.refl _)))

theorem Arguments.lexemes_rename (listed : Arguments) :
    Renamed r listed.lexemes (listed.rename r).lexemes := by
  cases listed with
  | nil => exact .nil
  | cons first rest => exact first.lexemes_rename.append rest.behind_rename

theorem Arguments.behind_rename (listed : Arguments) :
    Renamed r listed.behind (listed.rename r).behind := by
  cases listed with
  | nil => exact .nil
  | cons first rest => exact .cons _ (first.lexemes_rename.append rest.behind_rename)

end

mutual

/-- Renaming a statement changes nothing but identifiers.  Its words and symbols stay where they
are. -/
theorem Statement.lexemes_rename (s : Statement) :
    Renamed r s.lexemes (s.rename r).lexemes := by
  cases s with
  | letVariable target value =>
      exact .cons _ (.identifier target (.cons _ ((value.lexemes_rename r).append (.refl _))))
  | letElement array index value =>
      exact .cons _ (.identifier array (.cons _ ((index.lexemes_rename r).append
        (.cons _ (.cons _ ((value.lexemes_rename r).append (.refl _)))))))
  | ifThen condition thenBlock =>
      exact .cons _ (.cons _ ((condition.lexemes_rename r).append
        (.cons _ thenBlock.lexemes_rename.braced)))
  | ifElse condition thenBlock elseBlock =>
      exact .cons _ (.cons _ ((condition.lexemes_rename r).append (.cons _
        (thenBlock.lexemes_rename.braced.append (.cons _ elseBlock.lexemes_rename.braced)))))
  | whileLoop condition block =>
      exact .cons _ (.cons _ ((condition.lexemes_rename r).append
        (.cons _ block.lexemes_rename.braced)))
  | doCall c => exact .cons _ ((c.lexemes_rename r).append (.refl _))
  | returnValue value =>
      cases value with
      | none => exact .refl _
      | some e => exact .cons _ ((e.lexemes_rename r).append (.refl _))

theorem Statements.lexemes_rename (statements : Statements) :
    Renamed r statements.lexemes (statements.rename r).lexemes := by
  cases statements with
  | nil => exact .nil
  | cons first rest => exact first.lexemes_rename.append rest.lexemes_rename

end

end Statements

theorem VariableGroup.lexemes_rename (g : VariableGroup) :
    Renamed ρ g.lexemes (g.rename ρ).lexemes := by
  have names : Renamed ρ (g.more.flatMap nameBehind) ((g.more.map ρ).flatMap nameBehind) :=
    .flatMap_map fun name _ => .cons _ (.identifier name .nil)
  exact .cons _ (.identifier g.first (names.append (.refl _)))

theorem ClassVariables.lexemes_rename (line : ClassVariables) :
    Renamed ρ line.lexemes (line.rename ρ).lexemes := by
  cases line with
  | static group => exact .cons _ (group.lexemes_rename ρ)
  | field group => exact .cons _ (group.lexemes_rename ρ)

theorem parameterLexemes_rename (parameters : List Parameter) :
    Renamed ρ (parameterLexemes parameters)
      (parameterLexemes (parameters.map (Parameter.rename ρ))) := by
  have one (p : Parameter) : Renamed ρ p.lexemes (p.rename ρ).lexemes :=
    .cons _ (.identifier p.name .nil)
  cases parameters with
  | nil => exact .nil
  | cons first rest => exact (one first).append (.flatMap_map fun p _ => .cons _ (one p))

/-- Renaming a subroutine changes nothing but identifiers, although some of them are changed as
declarations and others as variables in statements. -/
theorem Subroutine.lexemes_rename {r : String → String}
    (partly : ∀ name, r name = name ∨ r name = ρ name) (s : Subroutine) :
    Renamed ρ s.lexemes (s.rename ρ r).lexemes := by
  have locals : Renamed ρ (s.locals.flatMap VariableGroup.localLexemes)
      ((s.locals.map (VariableGroup.rename ρ)).flatMap VariableGroup.localLexemes) :=
    .flatMap_map fun g _ => .cons _ (g.lexemes_rename ρ)
  exact .cons _ (.cons _ (.cons _ (.cons _ ((parameterLexemes_rename ρ s.parameters).append
    (.cons _ (.cons _ (locals.append (((s.statements.lexemes_rename r).mono partly).append
      (.refl _)))))))))

/-- Renaming a class changes nothing but identifiers.  The end of file is left out here. -/
theorem ClassTree.ownLexemes_rename (c : ClassTree) :
    Renamed ρ c.ownLexemes (c.rename ρ).ownLexemes := by
  have subroutine (s : Subroutine) : Renamed ρ s.lexemes (s.rename ρ (c.renameIn ρ s)).lexemes := by
    refine s.lexemes_rename ρ fun name => ?_
    by_cases isVariable : name ∈ c.variablesIn s
    · exact .inr (if_pos isVariable)
    · exact .inl (if_neg isVariable)
  have members : Renamed ρ (c.members.flatMap ClassVariables.lexemes)
      ((c.members.map (ClassVariables.rename ρ)).flatMap ClassVariables.lexemes) :=
    .flatMap_map fun line _ => line.lexemes_rename ρ
  have subroutines : Renamed ρ (c.subroutines.flatMap Subroutine.lexemes)
      ((c.rename ρ).subroutines.flatMap Subroutine.lexemes) :=
    .flatMap_map fun s _ => subroutine s
  exact .cons _ (.cons _ (.cons _ (members.append (subroutines.append (.refl _)))))

/-- The lexemes of a class keep their places when its variables are renamed. -/
theorem ClassTree.lexemes_rename (c : ClassTree) : Renamed ρ c.lexemes (c.rename ρ).lexemes := by
  rw [c.lexemes_eq_ownLexemes, (c.rename ρ).lexemes_eq_ownLexemes]
  exact (c.ownLexemes_rename ρ).append (.refl _)

end Jack
