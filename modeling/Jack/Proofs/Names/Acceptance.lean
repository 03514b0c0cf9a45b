import Jack.Compiler.Progress
import Jack.Machine.Code
import Jack.Proofs.Grammar.Tree
import Jack.Proofs.Names.Declarations

namespace Jack

/-!
# Acceptable classes

What the grammar leaves open: which declarations a tree makes, in their order, and what a class has
to obey besides the grammar.  Names that are used as variables are declared, no kind has more than
65535 declarations in its scope, string constants fit the machine, calls have at most 65535
arguments, and under strict declarations no name is declared twice in one scope.
-/

/-! ## The declarations of a tree -/

/-- The declarations of a group, in their order. -/
def VariableGroup.declarations (g : VariableGroup) (kind : SymbolKind) : List Declaration :=
  (g.first :: g.more).map fun name => ⟨name, g.type.text, kind⟩

/-- The declarations of class variables, in the kind that their keyword names. -/
def ClassVariables.declarations : ClassVariables → List Declaration
  | static group => group.declarations .static
  | field group => group.declarations .field

/-- The declarations of the class scope. -/
def ClassTree.declarations (c : ClassTree) : List Declaration :=
  c.members.flatMap ClassVariables.declarations

/-- The declaration of a parameter. -/
def Parameter.declaration (p : Parameter) : Declaration := ⟨p.name, p.type.text, .argument⟩

/-- The object of a method is its first argument. -/
def receiverDeclarations (className : String) : SubroutineKind → List Declaration
  | .method => [⟨Code.receiver, className, .argument⟩]
  | _ => []

/-- The declarations of the local variables of a subroutine. -/
def Subroutine.localDeclarations (s : Subroutine) : List Declaration :=
  s.locals.flatMap (VariableGroup.declarations · .«local»)

/-- The declarations of the scope of a subroutine. -/
def Subroutine.declarations (className : String) (s : Subroutine) : List Declaration :=
  receiverDeclarations className s.kind ++ s.parameters.map Parameter.declaration ++
    s.localDeclarations

/-- What names stand for. -/
abbrev Names := String → Option Symbol

/-- What names stand for in the statements of a subroutine of a class.  A declaration of the
subroutine hides one of the class, and a later one of the same scope replaces an earlier one. -/
def ClassTree.namesIn (c : ClassTree) (s : Subroutine) : Names :=
  (Declarations.mk c.declarations (s.declarations c.name)).symbol?

/-! ## Conditions beside the grammar -/

/-- The declarations of one scope can be made.  A repeated name counts each time it is declared; it
is refused only under strict declarations. -/
structure Declarable (options : Options) (declarations : List Declaration) : Prop where
  countable : ∀ kind, countKind kind declarations ≤ 65535
  distinct : options.strictDeclarations = true → (declarations.map Declaration.name).Nodup

theorem declarable_nil (options : Options) : Declarable options [] :=
  ⟨fun _ => Nat.zero_le _, fun _ => List.nodup_nil⟩

/-- If all declarations can be made, so can those in front. -/
theorem Declarable.of_append {options : Options} {declarations more : List Declaration}
    (declarable : Declarable options (declarations ++ more)) : Declarable options declarations where
  countable kind := by
    have all := declarable.countable kind
    rw [countKind_append] at all
    exact Nat.le_trans (Nat.le_add_right _ _) all
  distinct strict := by
    have all := declarable.distinct strict
    rw [List.map_append, List.nodup_append] at all
    exact all.1

/-- One more declaration needs a number of its kind and, under strict declarations, a new name. -/
theorem declarable_append_singleton {options : Options} {declarations : List Declaration}
    {d : Declaration} :
    Declarable options (declarations ++ [d]) ↔
      Declarable options declarations ∧ countKind d.kind declarations ≠ 65535 ∧
        (options.strictDeclarations = true → latest? declarations d.name = none) := by
  have nodup : ((declarations ++ [d]).map Declaration.name).Nodup ↔
      (declarations.map Declaration.name).Nodup ∧ latest? declarations d.name = none := by
    rw [latest?_eq_none_iff, List.map_append, List.map_singleton, List.nodup_append]
    constructor
    · rintro ⟨before, -, apart⟩
      exact ⟨before, fun member => apart d.name member d.name (List.mem_singleton.mpr rfl) rfl⟩
    · rintro ⟨before, new⟩
      refine ⟨before, List.pairwise_singleton _ _, fun name member other isLast same => new ?_⟩
      rwa [← List.mem_singleton.mp isLast, ← same]
  constructor
  · intro declarable
    have full := declarable.countable d.kind
    rw [countKind_append, countKind_singleton, if_pos rfl] at full
    exact ⟨declarable.of_append, Nat.ne_of_lt full,
      fun strict => (nodup.mp (declarable.distinct strict)).2⟩
  · rintro ⟨declarable, room, new⟩
    refine ⟨fun kind => ?_, fun strict => nodup.mpr ⟨declarable.distinct strict, new strict⟩⟩
    have before := declarable.countable kind
    rw [countKind_append, countKind_singleton]
    by_cases same : d.kind = kind
    · rw [if_pos same]
      rw [same] at room
      exact Nat.lt_of_le_of_ne before room
    · rw [if_neg same]
      exact before

/-- The number of arguments of a call that are not listed.  A name alone addresses a method of the
current object; in front of a dot, a variable is the object of a method, and any other name is a
class. -/
def CallTarget.implicit (names : Names) : CallTarget → Nat
  | own _ => 1
  | qualified object _ => if (names object).isSome then 1 else 0

/-- A string constant that the machine can hold.  This is about its characters alone; nothing is
claimed about room for the string at run time. -/
def FitsMachine (characters : List Char) : Prop :=
  characters.length ≤ maxInt ∧ ∀ c ∈ characters, c.toNat ≤ maxInt

mutual

/-- The names that an expression uses as variables are declared, and its constants and calls keep to
the limits.  Nothing else is asked of it: types do not matter, a called routine need not exist, and
a name in front of a dot need not be declared. -/
def Expression.Acceptable (names : Names) : Expression → Prop
  | .chain first rest => first.Acceptable names ∧ rest.Acceptable names

/-- All operands are acceptable. -/
def Operators.Acceptable (names : Names) : Operators → Prop
  | .nil => True
  | .cons _ operand rest => operand.Acceptable names ∧ rest.Acceptable names

/-- The term is acceptable.  Integer constants are held to their limit by the lexer. -/
def Term.Acceptable (names : Names) : Term → Prop
  | .integer _ => True
  | .string text => FitsMachine (charactersBetweenQuotes text)
  | .constant _ => True
  | .unary _ operand => operand.Acceptable names
  | .parenthesis inner => inner.Acceptable names
  | .plain name => (names name).isSome = true
  | .element array index => (names array).isSome = true ∧ index.Acceptable names
  | .call c => c.Acceptable names

/-- The call has no more than 65535 arguments, the object included, and they are acceptable. -/
def Call.Acceptable (names : Names) : Call → Prop
  | .invoke target listed =>
    listed.length + target.implicit names ≤ 65535 ∧ listed.Acceptable names

/-- All arguments are acceptable. -/
def Arguments.Acceptable (names : Names) : Arguments → Prop
  | .nil => True
  | .cons first rest => first.Acceptable names ∧ rest.Acceptable names

end

mutual

/-- The expressions of a statement are acceptable, and its target is declared.  It does not matter
whether a `return` has a value where the subroutine has a result. -/
def Statement.Acceptable (names : Names) : Statement → Prop
  | .letVariable target value => (names target).isSome = true ∧ value.Acceptable names
  | .letElement array index value =>
    (names array).isSome = true ∧ index.Acceptable names ∧ value.Acceptable names
  | .ifThen condition thenBlock => condition.Acceptable names ∧ thenBlock.Acceptable names
  | .ifElse condition thenBlock elseBlock =>
    condition.Acceptable names ∧ thenBlock.Acceptable names ∧ elseBlock.Acceptable names
  | .whileLoop condition block => condition.Acceptable names ∧ block.Acceptable names
  | .doCall c => c.Acceptable names
  | .returnValue none => True
  | .returnValue (some value) => value.Acceptable names

/-- All statements are acceptable. -/
def Statements.Acceptable (names : Names) : Statements → Prop
  | .nil => True
  | .cons first rest => first.Acceptable names ∧ rest.Acceptable names

end

/-- A subroutine of a class whose declarations can be made and whose statements are acceptable. -/
def Subroutine.Acceptable (options : Options) (c : ClassTree) (s : Subroutine) : Prop :=
  Declarable options (s.declarations c.name) ∧ s.statements.Acceptable (c.namesIn s)

/-- A class that obeys all conditions beside the grammar. -/
def ClassTree.Acceptable (options : Options) (c : ClassTree) : Prop :=
  Declarable options c.declarations ∧ ∀ s ∈ c.subroutines, s.Acceptable options c

end Jack
