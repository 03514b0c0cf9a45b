import Jack.Proofs.Renaming.Names
import Jack.Proofs.Translation.Code

namespace Jack

/-!
# The code of a renamed class

The code of a tree addresses a variable by its kind and its number, and a method by the type of its
object.  A renaming that leaves these as they are does not change the code, as long as a name in
front of a dot that is no variable does not become one.
-/

/-- The new name of a variable stands for the same, apart from the name. -/
def KeepsVariables (r : String → String) (names names' : Names) : Prop :=
  ∀ (name : String) (v : Symbol), names name = some v →
    ∃ name', names' (r name) = some (v.named name')

/-- Whatever is no variable keeps its name, and does not become a variable. -/
def KeepsClass (r : String → String) (names names' : Names) (object : String) : Prop :=
  names object = none → r object = object ∧ names' object = none

variable {r : String → String} {names names' : Names} {className : String}

namespace KeepsVariables

variable {name : String}

/-- What was a variable is a variable under its new name. -/
theorem isSome (follows : KeepsVariables r names names') (isVariable : (names name).isSome = true) :
    (names' (r name)).isSome = true := by
  rcases Option.isSome_iff_exists.mp isVariable with ⟨v, found⟩
  rcases follows name v found with ⟨name', found'⟩
  rw [found', Option.isSome_some]

/-- A variable is read from the same place under its new name. -/
theorem pushName_eq (follows : KeepsVariables r names names')
    (isVariable : (names name).isSome = true) :
    pushName names' (r name) = pushName names name := by
  rcases Option.isSome_iff_exists.mp isVariable with ⟨v, found⟩
  rcases follows name v found with ⟨name', found'⟩
  simp only [pushName, found, found', Symbol.named]

/-- A variable is stored at the same place under its new name. -/
theorem popName_eq (follows : KeepsVariables r names names')
    (isVariable : (names name).isSome = true) :
    popName names' (r name) = popName names name := by
  rcases Option.isSome_iff_exists.mp isVariable with ⟨v, found⟩
  rcases follows name v found with ⟨name', found'⟩
  simp only [popName, found, found', Symbol.named]

end KeepsVariables

/-! ## Expressions -/

/-- A call addresses the same routine, with the same object. -/
theorem CallTarget.meaning_rename (follows : KeepsVariables r names names') (className : String)
    (target : CallTarget)
    (classes : ∀ object ∈ target.objects, KeepsClass r names names' object) :
    (target.rename r).receiver names' = target.receiver names ∧
      (target.rename r).routine names' className = target.routine names className ∧
      (target.rename r).implicit names' = target.implicit names := by
  cases target with
  | own name => exact ⟨rfl, rfl, rfl⟩
  | qualified object member =>
      cases found : names object with
      | some v =>
          rcases follows object v found with ⟨name', found'⟩
          simp only [rename, receiver, routine, implicit, pushName, found, found', Symbol.named,
            Option.isSome_some, and_self]
      | none =>
          rcases classes object (List.mem_singleton_self object) found with ⟨kept, stillNone⟩
          simp only [rename, receiver, routine, implicit, pushName, kept, found, stillNone,
            Option.isSome_none, and_self]

/-- There are as many arguments as before. -/
theorem Arguments.length_rename (r : String → String) :
    ∀ listed : Arguments, (listed.rename r).length = listed.length
  | .nil => rfl
  | .cons _ rest => congrArg (· + 1) (rest.length_rename r)

mutual

/-- An acceptable expression has the same code with new names.  Names in front of a dot that are no
variables must not become variables. -/
theorem Expression.code_rename (follows : KeepsVariables r names names') (e : Expression)
    (acceptable : e.Acceptable names)
    (classes : ∀ object ∈ e.objects, KeepsClass r names names' object) :
    (e.rename r).code names' className = e.code names className := by
  cases e with
  | chain first rest =>
      simp only [Expression.objects, List.forall_mem_append] at classes
      simp only [Expression.rename, Expression.code,
        first.code_rename follows acceptable.1 classes.1,
        rest.code_rename follows acceptable.2 classes.2]

/-- The same of the operators behind a term. -/
theorem Operators.code_rename (follows : KeepsVariables r names names') (operators : Operators)
    (acceptable : operators.Acceptable names)
    (classes : ∀ object ∈ operators.objects, KeepsClass r names names' object) :
    (operators.rename r).code names' className = operators.code names className := by
  cases operators with
  | nil => rfl
  | cons o operand rest =>
      simp only [Operators.objects, List.forall_mem_append] at classes
      simp only [Operators.rename, Operators.code,
        operand.code_rename follows acceptable.1 classes.1,
        rest.code_rename follows acceptable.2 classes.2]

/-- The same of a term. -/
theorem Term.code_rename (follows : KeepsVariables r names names') (t : Term)
    (acceptable : t.Acceptable names)
    (classes : ∀ object ∈ t.objects, KeepsClass r names names' object) :
    (t.rename r).code names' className = t.code names className := by
  cases t with
  | integer digits => rfl
  | string text => rfl
  | constant k => rfl
  | unary o operand =>
      simp only [Term.rename, Term.code, operand.code_rename follows acceptable classes]
  | parenthesis inner =>
      simp only [Term.rename, Term.code, inner.code_rename follows acceptable classes]
  | plain name => exact follows.pushName_eq acceptable
  | element array index =>
      simp only [Term.rename, Term.code, follows.pushName_eq acceptable.1,
        index.code_rename follows acceptable.2 classes]
  | call c => exact c.code_rename follows acceptable classes

/-- The same of a call.  The number of arguments is the same, since an object stays an object and a
class stays a class. -/
theorem Call.code_rename (follows : KeepsVariables r names names') (c : Call)
    (acceptable : c.Acceptable names)
    (classes : ∀ object ∈ c.objects, KeepsClass r names names' object) :
    (c.rename r).code names' className = c.code names className := by
  cases c with
  | invoke target listed =>
      simp only [Call.objects, List.forall_mem_append] at classes
      rcases target.meaning_rename follows className classes.1 with
        ⟨receiver, routine, implicit⟩
      simp only [Call.rename, Call.code, receiver, routine, implicit, listed.length_rename,
        listed.code_rename follows acceptable.2 classes.2]

/-- The same of arguments. -/
theorem Arguments.code_rename (follows : KeepsVariables r names names') (listed : Arguments)
    (acceptable : listed.Acceptable names)
    (classes : ∀ object ∈ listed.objects, KeepsClass r names names' object) :
    (listed.rename r).code names' className = listed.code names className := by
  cases listed with
  | nil => rfl
  | cons first rest =>
      simp only [Arguments.objects, List.forall_mem_append] at classes
      simp only [Arguments.rename, Arguments.code,
        first.code_rename follows acceptable.1 classes.1,
        rest.code_rename follows acceptable.2 classes.2]

end

mutual

/-- An acceptable expression is acceptable with new names. -/
theorem Expression.acceptable_rename (follows : KeepsVariables r names names') (e : Expression)
    (acceptable : e.Acceptable names)
    (classes : ∀ object ∈ e.objects, KeepsClass r names names' object) :
    (e.rename r).Acceptable names' := by
  cases e with
  | chain first rest =>
      simp only [Expression.objects, List.forall_mem_append] at classes
      exact ⟨first.acceptable_rename follows acceptable.1 classes.1,
        rest.acceptable_rename follows acceptable.2 classes.2⟩

/-- The same of the operators behind a term. -/
theorem Operators.acceptable_rename (follows : KeepsVariables r names names')
    (operators : Operators) (acceptable : operators.Acceptable names)
    (classes : ∀ object ∈ operators.objects, KeepsClass r names names' object) :
    (operators.rename r).Acceptable names' := by
  cases operators with
  | nil => exact trivial
  | cons o operand rest =>
      simp only [Operators.objects, List.forall_mem_append] at classes
      exact ⟨operand.acceptable_rename follows acceptable.1 classes.1,
        rest.acceptable_rename follows acceptable.2 classes.2⟩

/-- The same of a term. -/
theorem Term.acceptable_rename (follows : KeepsVariables r names names') (t : Term)
    (acceptable : t.Acceptable names)
    (classes : ∀ object ∈ t.objects, KeepsClass r names names' object) :
    (t.rename r).Acceptable names' := by
  cases t with
  | integer digits => exact trivial
  | string text => exact acceptable
  | constant k => exact trivial
  | unary o operand => exact operand.acceptable_rename follows acceptable classes
  | parenthesis inner => exact inner.acceptable_rename follows acceptable classes
  | plain name => exact follows.isSome acceptable
  | element array index =>
      exact ⟨follows.isSome acceptable.1, index.acceptable_rename follows acceptable.2 classes⟩
  | call c => exact c.acceptable_rename follows acceptable classes

/-- The same of a call, whose arguments are as many as before. -/
theorem Call.acceptable_rename (follows : KeepsVariables r names names') (c : Call)
    (acceptable : c.Acceptable names)
    (classes : ∀ object ∈ c.objects, KeepsClass r names names' object) :
    (c.rename r).Acceptable names' := by
  cases c with
  | invoke target listed =>
      simp only [Call.objects, List.forall_mem_append] at classes
      have implicit := (target.meaning_rename follows "" classes.1).2.2
      simp only [Call.rename, Call.Acceptable, implicit, listed.length_rename]
      exact ⟨acceptable.1, listed.acceptable_rename follows acceptable.2 classes.2⟩

/-- The same of arguments. -/
theorem Arguments.acceptable_rename (follows : KeepsVariables r names names') (listed : Arguments)
    (acceptable : listed.Acceptable names)
    (classes : ∀ object ∈ listed.objects, KeepsClass r names names' object) :
    (listed.rename r).Acceptable names' := by
  cases listed with
  | nil => exact trivial
  | cons first rest =>
      simp only [Arguments.objects, List.forall_mem_append] at classes
      exact ⟨first.acceptable_rename follows acceptable.1 classes.1,
        rest.acceptable_rename follows acceptable.2 classes.2⟩

end

/-! ## Statements -/

mutual

/-- Labels have nothing to do with names. -/
theorem Statement.labels_rename (r : String → String) (s : Statement) :
    (s.rename r).labels = s.labels := by
  cases s with
  | returnValue value => cases value <;> rfl
  | ifThen condition thenBlock =>
      simp only [Statement.rename, Statement.labels, thenBlock.labels_rename r]
  | ifElse condition thenBlock elseBlock =>
      simp only [Statement.rename, Statement.labels, thenBlock.labels_rename r,
        elseBlock.labels_rename r]
  | whileLoop condition block =>
      simp only [Statement.rename, Statement.labels, block.labels_rename r]
  | _ => rfl

theorem Statements.labels_rename (r : String → String) (statements : Statements) :
    (statements.rename r).labels = statements.labels := by
  cases statements with
  | nil => rfl
  | cons first rest =>
      simp only [Statements.rename, Statements.labels, first.labels_rename r,
        rest.labels_rename r]

end

theorem Statements.isEmpty_rename (r : String → String) (statements : Statements) :
    (statements.rename r).isEmpty = statements.isEmpty := by
  cases statements <;> rfl

mutual

/-- Whether a statement jumps has nothing to do with names. -/
theorem Statement.jumps_rename (r : String → String) (s : Statement) (tail : Bool) :
    (s.rename r).jumps tail = s.jumps tail := by
  cases s with
  | returnValue value => cases value <;> rfl
  | ifThen condition thenBlock =>
      simp only [Statement.rename, Statement.jumps, thenBlock.jumps_rename r]
  | ifElse condition thenBlock elseBlock =>
      simp only [Statement.rename, Statement.jumps, thenBlock.jumps_rename r,
        elseBlock.jumps_rename r]
  | whileLoop condition block =>
      simp only [Statement.rename, Statement.jumps, block.jumps_rename r]
  | _ => rfl

theorem Statements.jumps_rename (r : String → String) (statements : Statements) (tail : Bool) :
    (statements.rename r).jumps tail = statements.jumps tail := by
  cases statements with
  | nil => rfl
  | cons first rest =>
      simp only [Statements.rename, Statements.jumps, first.jumps_rename r,
        rest.jumps_rename r, rest.isEmpty_rename r]

end

variable {f : Frame}

mutual

/-- An acceptable statement has the same code with new names. -/
theorem Statement.code_rename (follows : KeepsVariables r names names') (s : Statement)
    (tail : Bool) (n : Nat) (acceptable : s.Acceptable names)
    (classes : ∀ object ∈ s.objects, KeepsClass r names names' object) :
    (s.rename r).code names' f tail n = s.code names f tail n := by
  cases s with
  | letVariable target value =>
      simp only [Statement.rename, Statement.code, follows.popName_eq acceptable.1,
        value.code_rename follows acceptable.2 classes]
  | letElement array index value =>
      simp only [Statement.objects, List.forall_mem_append] at classes
      simp only [Statement.rename, Statement.code, follows.pushName_eq acceptable.1,
        index.code_rename follows acceptable.2.1 classes.1,
        value.code_rename follows acceptable.2.2 classes.2]
  | ifThen condition thenBlock =>
      simp only [Statement.objects, List.forall_mem_append] at classes
      simp only [Statement.rename, Statement.code,
        condition.code_rename follows acceptable.1 classes.1,
        thenBlock.code_rename follows _ _ acceptable.2 classes.2]
  | ifElse condition thenBlock elseBlock =>
      simp only [Statement.objects, List.forall_mem_append] at classes
      simp only [Statement.rename, Statement.code, thenBlock.labels_rename r,
        condition.code_rename follows acceptable.1 classes.1.1,
        thenBlock.code_rename follows _ _ acceptable.2.1 classes.1.2,
        elseBlock.code_rename follows _ _ acceptable.2.2 classes.2]
  | whileLoop condition block =>
      simp only [Statement.objects, List.forall_mem_append] at classes
      simp only [Statement.rename, Statement.code,
        condition.code_rename follows acceptable.1 classes.1,
        block.code_rename follows _ _ acceptable.2 classes.2]
  | doCall c =>
      simp only [Statement.rename, Statement.code, c.code_rename follows acceptable classes]
  | returnValue value =>
      cases value with
      | none => rfl
      | some e =>
          simp only [Statement.rename, Statement.code, e.code_rename follows acceptable classes]

/-- The code of renamed statements is the same. -/
theorem Statements.code_rename (follows : KeepsVariables r names names') (statements : Statements)
    (tail : Bool) (n : Nat) (acceptable : statements.Acceptable names)
    (classes : ∀ object ∈ statements.objects, KeepsClass r names names' object) :
    (statements.rename r).code names' f tail n = statements.code names f tail n := by
  cases statements with
  | nil => rfl
  | cons first rest =>
      simp only [Statements.objects, List.forall_mem_append] at classes
      simp only [Statements.rename, Statements.code, first.labels_rename r, rest.isEmpty_rename r,
        first.code_rename follows _ _ acceptable.1 classes.1,
        rest.code_rename follows _ _ acceptable.2 classes.2]

end

mutual

/-- An acceptable statement is acceptable with new names. -/
theorem Statement.acceptable_rename (follows : KeepsVariables r names names') (s : Statement)
    (acceptable : s.Acceptable names)
    (classes : ∀ object ∈ s.objects, KeepsClass r names names' object) :
    (s.rename r).Acceptable names' := by
  cases s with
  | letVariable target value =>
      exact ⟨follows.isSome acceptable.1, value.acceptable_rename follows acceptable.2 classes⟩
  | letElement array index value =>
      simp only [Statement.objects, List.forall_mem_append] at classes
      exact ⟨follows.isSome acceptable.1,
        index.acceptable_rename follows acceptable.2.1 classes.1,
        value.acceptable_rename follows acceptable.2.2 classes.2⟩
  | ifThen condition thenBlock =>
      simp only [Statement.objects, List.forall_mem_append] at classes
      exact ⟨condition.acceptable_rename follows acceptable.1 classes.1,
        thenBlock.acceptable_rename follows acceptable.2 classes.2⟩
  | ifElse condition thenBlock elseBlock =>
      simp only [Statement.objects, List.forall_mem_append] at classes
      exact ⟨condition.acceptable_rename follows acceptable.1 classes.1.1,
        thenBlock.acceptable_rename follows acceptable.2.1 classes.1.2,
        elseBlock.acceptable_rename follows acceptable.2.2 classes.2⟩
  | whileLoop condition block =>
      simp only [Statement.objects, List.forall_mem_append] at classes
      exact ⟨condition.acceptable_rename follows acceptable.1 classes.1,
        block.acceptable_rename follows acceptable.2 classes.2⟩
  | doCall c => exact c.acceptable_rename follows acceptable classes
  | returnValue value =>
      cases value with
      | none => exact trivial
      | some e => exact e.acceptable_rename follows acceptable classes

/-- The same of statements. -/
theorem Statements.acceptable_rename (follows : KeepsVariables r names names')
    (statements : Statements) (acceptable : statements.Acceptable names)
    (classes : ∀ object ∈ statements.objects, KeepsClass r names names' object) :
    (statements.rename r).Acceptable names' := by
  cases statements with
  | nil => exact trivial
  | cons first rest =>
      simp only [Statements.objects, List.forall_mem_append] at classes
      exact ⟨first.acceptable_rename follows acceptable.1 classes.1,
        rest.acceptable_rename follows acceptable.2 classes.2⟩

end

/-! ## Classes -/

variable {ρ : String → String}

/-- Names in front of a dot that are no variables do not become the names of variables. -/
def ClassTree.KeepsClasses (ρ : String → String) (c : ClassTree) : Prop :=
  ∀ s ∈ c.subroutines, ∀ object ∈ s.statements.objects, object ∉ c.variablesIn s →
    ∀ name ∈ c.variablesIn s, ρ name ≠ object

namespace ClassTree

variable {c : ClassTree} {s : Subroutine} {options : Options}

section

variable (identifiers : c.HasIdentifiers)

include identifiers

/-- Whatever is declared for a subroutine is a variable or the object of a method. -/
theorem mem_variablesIn_of_declared (inClass : s ∈ c.subroutines) {name : String}
    (declared : name ∈ (s.declarations c.name).map Declaration.name ∨
      name ∈ c.declarations.map Declaration.name) :
    name ∈ c.variablesIn s ∧ IsIdentifier name ∨ name = Code.receiver := by
  rcases declared with ofSubroutine | ofClass
  · rcases List.mem_map.mp ofSubroutine with ⟨d, member, rfl⟩
    rw [s.declarations_eq] at member
    rcases List.mem_append.mp member with isReceiver | isOwn
    · cases kind : s.kind <;> rw [kind] at isReceiver
      case method => exact .inr (by rw [List.mem_singleton.mp isReceiver])
      all_goals cases isReceiver
    · exact .inl ⟨List.mem_map_of_mem (List.mem_append_right _ isOwn),
        isIdentifier_of_mem_own identifiers inClass isOwn⟩
  · rcases List.mem_map.mp ofClass with ⟨d, member, rfl⟩
    exact .inl ⟨List.mem_map_of_mem (List.mem_append_left _ member),
      isIdentifier_of_mem identifiers member⟩

/-- What is declared in a subroutine gets the new name that its declaration gets. -/
theorem renameIn_eq_keepReceiver (inClass : s ∈ c.subroutines) {name : String}
    (declared : c.namesIn s name ≠ none) :
    IsName name ∧ c.renameIn ρ s name = keepReceiver ρ name := by
  rw [Ne, namesIn_eq_none_iff, not_and_or, not_not, not_not] at declared
  rcases mem_variablesIn_of_declared identifiers inClass declared with
    ⟨isVariable, isIdentifier⟩ | rfl
  · refine ⟨.inl isIdentifier, ?_⟩
    rw [renameIn, if_pos isVariable, keepReceiver_of_isIdentifier isIdentifier]
  · refine ⟨.inr rfl, ?_⟩
    have noVariable : Code.receiver ∉ c.variablesIn s := by
      intro isVariable
      rcases List.mem_map.mp isVariable with ⟨d, member, same⟩
      rcases List.mem_append.mp member with ofClass | isOwn
      · exact (isIdentifier_of_mem identifiers ofClass).ne_receiver same
      · exact (isIdentifier_of_mem_own identifiers inClass isOwn).ne_receiver same
    rw [renameIn, if_neg noVariable, keepReceiver_receiver]

/-- In every subroutine, the variables stand for the same under their new names. -/
theorem follows_rename (isRenaming : IsRenaming ρ) (inClass : s ∈ c.subroutines) :
    KeepsVariables (c.renameIn ρ s) (c.namesIn s)
      ((c.rename ρ).namesIn (s.rename ρ (c.renameIn ρ s))) := by
  intro name v found
  have declared : c.namesIn s name ≠ none := by
    rw [found]
    exact Option.some_ne_none v
  rcases renameIn_eq_keepReceiver identifiers inClass declared with ⟨isName, same⟩
  refine ⟨keepReceiver ρ name, ?_⟩
  rw [same, namesIn_rename identifiers isRenaming inClass _ isName, found, Option.map_some]

/-- In every subroutine, a name in front of a dot that is no variable becomes none. -/
theorem keepsClass_rename (keeps : c.KeepsClasses ρ) (inClass : s ∈ c.subroutines)
    {object : String} (member : object ∈ s.statements.objects) :
    KeepsClass (c.renameIn ρ s) (c.namesIn s)
      ((c.rename ρ).namesIn (s.rename ρ (c.renameIn ρ s))) object := by
  intro undeclared
  have absent := namesIn_eq_none_iff.mp undeclared
  have noVariable : object ∉ c.variablesIn s := by
    rw [variablesIn, List.map_append, List.mem_append, not_or]
    refine ⟨absent.2, fun isOwn => absent.1 ?_⟩
    rw [s.declarations_eq, List.map_append]
    exact List.mem_append_right _ isOwn
  -- A declared name that becomes the object is a variable, or it is the object already.
  have notRenamed {name : String} (declared : name ∈ (s.declarations c.name).map Declaration.name ∨
      name ∈ c.declarations.map Declaration.name) : keepReceiver ρ name ≠ object := by
    rcases mem_variablesIn_of_declared identifiers inClass declared with
      ⟨isVariable, isIdentifier⟩ | rfl
    · rw [keepReceiver_of_isIdentifier isIdentifier]
      exact keeps s inClass object member noVariable name isVariable
    · rw [keepReceiver_receiver]
      rintro rfl
      exact declared.elim absent.1 absent.2
  refine ⟨if_neg noVariable, namesIn_eq_none_iff.mpr ⟨?_, ?_⟩⟩
  · intro renamed
    rw [show (c.rename ρ).name = c.name from rfl,
      declarations_subroutine_rename identifiers inClass] at renamed
    rcases List.mem_map.mp renamed with ⟨d', isRenamed, same⟩
    rcases List.mem_map.mp isRenamed with ⟨d, declared, rfl⟩
    exact notRenamed (.inl (List.mem_map_of_mem declared)) same
  · intro renamed
    rw [declarations_rename_keepReceiver identifiers] at renamed
    rcases List.mem_map.mp renamed with ⟨d', isRenamed, same⟩
    rcases List.mem_map.mp isRenamed with ⟨d, declared, rfl⟩
    exact notRenamed (.inr (List.mem_map_of_mem declared)) same

/-- An acceptable subroutine has the same code with new names, its two counts included. -/
theorem subroutine_code_rename (isRenaming : IsRenaming ρ) (keeps : c.KeepsClasses ρ)
    (inClass : s ∈ c.subroutines) (acceptable : s.Acceptable options c) (n : Nat) :
    (s.rename ρ (c.renameIn ρ s)).code options (c.rename ρ) n = s.code options c n := by
  have statements (f : Frame) (tail : Bool) :
      (s.rename ρ (c.renameIn ρ s)).statements.code
        ((c.rename ρ).namesIn (s.rename ρ (c.renameIn ρ s))) f tail (n + 1) =
          s.statements.code (c.namesIn s) f tail (n + 1) :=
    s.statements.code_rename (follows_rename identifiers isRenaming inClass) tail (n + 1)
      acceptable.2 fun object => keepsClass_rename identifiers keeps inClass
  have jumps (tail : Bool) :
      (s.rename ρ (c.renameIn ρ s)).statements.jumps tail = s.statements.jumps tail :=
    s.statements.jumps_rename _ tail
  simp only [Subroutine.code, statements, jumps, c.declarations_rename, countKind_map_rename]
  rw [show (c.rename ρ).name = c.name from rfl,
    declarations_subroutine_rename identifiers inClass, countKind_map_rename]
  rfl

/-- The code of a class does not depend on the names of its variables. -/
theorem code_rename (isRenaming : IsRenaming ρ) (keeps : c.KeepsClasses ρ)
    (acceptable : c.Acceptable options) : (c.rename ρ).code options = c.code options := by
  have behind (n : Nat) (subroutines : List Subroutine)
      (inClass : ∀ s ∈ subroutines, s ∈ c.subroutines) :
      subroutinesCode options (c.rename ρ) n
        (subroutines.map fun s => s.rename ρ (c.renameIn ρ s)) =
          subroutinesCode options c n subroutines := by
    induction subroutines generalizing n with
    | nil => rfl
    | cons s rest inductionHypothesis =>
        rcases List.forall_mem_cons.mp inClass with ⟨first, others⟩
        have labels : (s.rename ρ (c.renameIn ρ s)).labels = s.labels :=
          congrArg (· + 1) (s.statements.labels_rename _)
        rw [List.map_cons, subroutinesCode, subroutinesCode, labels, inductionHypothesis _ others,
          subroutine_code_rename identifiers isRenaming keeps first (acceptable.2 s first)]
  exact behind 0 c.subroutines fun _ member => member

/-- An acceptable class is acceptable with new names. -/
theorem acceptable_rename (isRenaming : IsRenaming ρ) (keeps : c.KeepsClasses ρ)
    (acceptable : c.Acceptable options) : (c.rename ρ).Acceptable options := by
  constructor
  · rw [declarations_rename_keepReceiver identifiers]
    exact acceptable.1.map_rename fun d member d' member' => isRenaming.keepReceiver_injective
      (.inl (isIdentifier_of_mem identifiers member))
      (.inl (isIdentifier_of_mem identifiers member'))
  · intro s' member
    rcases List.mem_map.mp member with ⟨s, inClass, rfl⟩
    rcases acceptable.2 s inClass with ⟨declarable, statements⟩
    constructor
    · rw [show (c.rename ρ).name = c.name from rfl,
        declarations_subroutine_rename identifiers inClass]
      exact declarable.map_rename fun d member d' member' => isRenaming.keepReceiver_injective
        (isName_of_mem_declarations identifiers inClass member)
        (isName_of_mem_declarations identifiers inClass member')
    · exact s.statements.acceptable_rename (follows_rename identifiers isRenaming inClass)
        statements fun object => keepsClass_rename identifiers keeps inClass

end

end ClassTree

end Jack
