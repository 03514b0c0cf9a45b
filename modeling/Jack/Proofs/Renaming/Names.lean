import Jack.Proofs.Lexer.Printing
import Jack.Proofs.Renaming.Tree
import Mathlib.Data.List.Induction
import Mathlib.Data.List.Nodup

namespace Jack

/-!
# What renamed variables stand for

An injective renaming takes the declarations of a class to declarations of the same kinds and types
in the same order.  So the new name of a variable stands for what the old one stood for, hidden by
the same declarations.  The object of a method is declared under a reserved word, which no
identifier is renamed to.
-/

/-- The text of an identifier, which is no reserved word. -/
def IsIdentifier (name : String) : Prop := IsTextOf .identifier name.toList

/-- Different identifiers get different identifiers. -/
structure IsRenaming (ρ : String → String) : Prop where
  identifier : ∀ {name : String}, IsIdentifier name → IsIdentifier (ρ name)
  injective : ∀ {name name' : String}, IsIdentifier name → IsIdentifier name' →
    ρ name = ρ name' → name = name'

/-- The object of a method has a reserved word for its name, and so no identifier is taken for it.
-/
theorem IsIdentifier.ne_receiver {name : String} (isIdentifier : IsIdentifier name) :
    name ≠ Code.receiver := by
  rintro rfl
  have reserved : ∀ {text : List Char} {kind : TokenKind}, IsTextOf kind text →
      kind = .identifier → text ≠ Keyword.this.text.toList := by
    intro text kind isText isIdentifier same
    cases isText with
    | identifier letter word notReserved => exact notReserved .this same.symm
    | _ => cases isIdentifier
  exact reserved isIdentifier rfl rfl

/-! ## Renamed declarations -/

variable {ρ : String → String}

/-- The declaration with a new name for its variable.  Its type is no variable and stays. -/
def Declaration.rename (ρ : String → String) (d : Declaration) : Declaration :=
  { d with name := ρ d.name }

@[simp] theorem Declaration.name_rename (d : Declaration) : (d.rename ρ).name = ρ d.name := rfl

/-- The symbol under another name. -/
def Symbol.named (name : String) (v : Symbol) : Symbol := { v with name := name }

/-- Renaming changes no counts. -/
theorem countKind_map_rename (kind : SymbolKind) (declarations : List Declaration) :
    countKind kind (declarations.map (Declaration.rename ρ)) = countKind kind declarations :=
  List.countP_map

/-- The symbol of a renamed declaration has the same number, type and kind. -/
theorem Declaration.symbol_rename (d : Declaration) (before : List Declaration) :
    (d.rename ρ).symbol (before.map (Declaration.rename ρ)) =
      (d.symbol before).named (ρ d.name) := by
  simp only [Declaration.symbol, Declaration.rename, Symbol.named, countKind_map_rename]

/-- A name that shares its new name with no other one stands for the same. -/
theorem latest?_map_rename {declarations : List Declaration} {name : String}
    (apart : ∀ d ∈ declarations, ρ d.name = ρ name → d.name = name) :
    latest? (declarations.map (Declaration.rename ρ)) (ρ name) =
      (latest? declarations name).map (Symbol.named (ρ name)) := by
  induction declarations using List.reverseRecOn with
  | nil => rfl
  | append_singleton declarations d inductionHypothesis =>
      have earlier := inductionHypothesis fun other member =>
        apart other (List.mem_append_left _ member)
      have last := apart d (List.mem_append_right _ (List.mem_singleton_self d))
      rw [List.map_append, List.map_singleton, latest?_append_singleton, latest?_append_singleton,
        Declaration.symbol_rename, Declaration.name_rename]
      by_cases same : d.name = name
      · rw [if_pos same, if_pos (congrArg ρ same), Option.map_some, same]
      · rw [if_neg same, if_neg (fun sameNew => same (last sameNew)), earlier]

/-- Renamed declarations can be made if the others can.  With strict declarations, this needs that
different names stay different. -/
theorem Declarable.map_rename {options : Options} {declarations : List Declaration}
    (apart : ∀ d ∈ declarations, ∀ d' ∈ declarations, ρ d.name = ρ d'.name → d.name = d'.name)
    (declarable : Declarable options declarations) :
    Declarable options (declarations.map (Declaration.rename ρ)) where
  countable kind := by
    rw [countKind_map_rename]
    exact declarable.countable kind
  distinct strict := by
    have names : (declarations.map (Declaration.rename ρ)).map Declaration.name =
        (declarations.map Declaration.name).map ρ := by
      rw [List.map_map, List.map_map]
      rfl
    rw [names]
    refine List.Nodup.map_on ?_ (declarable.distinct strict)
    intro name member name' member' same
    rcases List.mem_map.mp member with ⟨d, declared, rfl⟩
    rcases List.mem_map.mp member' with ⟨d', declared', rfl⟩
    exact apart d declared d' declared' same

/-! ## The declarations of a renamed class -/

/-- The variables of a renamed group are renamed one by one. -/
theorem VariableGroup.declarations_rename (g : VariableGroup) (kind : SymbolKind) :
    (g.rename ρ).declarations kind = (g.declarations kind).map (Declaration.rename ρ) := by
  simp only [declarations, rename, List.map_cons, List.map_map]
  rfl

/-- The declarations of a renamed class are renamed one by one. -/
theorem ClassTree.declarations_rename (c : ClassTree) :
    (c.rename ρ).declarations = c.declarations.map (Declaration.rename ρ) := by
  have line (v : ClassVariables) :
      (v.rename ρ).declarations = v.declarations.map (Declaration.rename ρ) := by
    cases v with
    | static group => exact group.declarations_rename .static
    | field group => exact group.declarations_rename .field
  simp only [declarations, rename, List.flatMap_map, List.map_flatMap, line]

/-- The declarations of a renamed subroutine are renamed one by one, whatever happens to its
statements. -/
theorem Subroutine.ownDeclarations_rename (r : String → String) (s : Subroutine) :
    (s.rename ρ r).ownDeclarations = s.ownDeclarations.map (Declaration.rename ρ) := by
  simp only [ownDeclarations, localDeclarations, rename, List.map_append, List.map_map,
    List.flatMap_map, List.map_flatMap, VariableGroup.declarations_rename]
  rfl

/-- New names for variables, with the old name for the object of a method. -/
def keepReceiver (ρ : String → String) (name : String) : String :=
  if name = Code.receiver then name else ρ name

/-- Identifiers get their new names. -/
theorem keepReceiver_of_isIdentifier {name : String} (isIdentifier : IsIdentifier name) :
    keepReceiver ρ name = ρ name :=
  if_neg isIdentifier.ne_receiver

/-- The object of a method keeps its name. -/
theorem keepReceiver_receiver : keepReceiver ρ Code.receiver = Code.receiver :=
  if_pos rfl

/-- The names of symbols. -/
def IsName (name : String) : Prop := IsIdentifier name ∨ name = Code.receiver

/-- Different symbols get different names, the object of a method included. -/
theorem IsRenaming.keepReceiver_injective (isRenaming : IsRenaming ρ) {name name' : String}
    (isName : IsName name) (isName' : IsName name')
    (same : keepReceiver ρ name = keepReceiver ρ name') : name = name' := by
  rcases isName with isIdentifier | rfl
  · rw [keepReceiver_of_isIdentifier isIdentifier] at same
    rcases isName' with isIdentifier' | rfl
    · rw [keepReceiver_of_isIdentifier isIdentifier'] at same
      exact isRenaming.injective isIdentifier isIdentifier' same
    · rw [keepReceiver_receiver] at same
      exact absurd same (isRenaming.identifier isIdentifier).ne_receiver
  · rw [keepReceiver_receiver] at same
    rcases isName' with isIdentifier' | rfl
    · rw [keepReceiver_of_isIdentifier isIdentifier'] at same
      exact absurd same.symm (isRenaming.identifier isIdentifier').ne_receiver
    · rfl

/-- Among identifiers it makes no difference whether the object of a method is kept. -/
theorem map_rename_eq_keepReceiver {declarations : List Declaration}
    (identifiers : ∀ d ∈ declarations, IsIdentifier d.name) :
    declarations.map (Declaration.rename ρ) =
      declarations.map (Declaration.rename (keepReceiver ρ)) :=
  List.map_congr_left fun d member => by
    rw [Declaration.rename, Declaration.rename, keepReceiver_of_isIdentifier (identifiers d member)]

namespace ClassTree

variable {c : ClassTree} {s : Subroutine}

/-- The identifiers of a class are spelled as such. -/
def HasIdentifiers (c : ClassTree) : Prop :=
  ∀ name, .identifier name ∈ c.lexemes → IsIdentifier name

section

variable (identifiers : c.HasIdentifiers)

include identifiers

/-- The variables of a class are identifiers. -/
theorem isIdentifier_of_mem {d : Declaration} (member : d ∈ c.declarations) :
    IsIdentifier d.name :=
  identifiers d.name (writtenIn_of_mem member).name

/-- The variables of a subroutine are identifiers. -/
theorem isIdentifier_of_mem_own (inClass : s ∈ c.subroutines) {d : Declaration}
    (member : d ∈ s.ownDeclarations) : IsIdentifier d.name :=
  identifiers d.name (mem_lexemes_of_mem_subroutines inClass (s.writtenIn_of_mem member).name)

/-- Whatever is declared in a subroutine is an identifier, or it is the object of a method. -/
theorem isName_of_mem_declarations (inClass : s ∈ c.subroutines) {d : Declaration}
    (member : d ∈ s.declarations c.name) : IsName d.name := by
  rw [s.declarations_eq] at member
  rcases List.mem_append.mp member with isReceiver | isOwn
  · cases kind : s.kind <;> rw [kind] at isReceiver
    case method => exact .inr (by rw [List.mem_singleton.mp isReceiver])
    all_goals cases isReceiver
  · exact .inl (isIdentifier_of_mem_own identifiers inClass isOwn)

theorem declarations_rename_keepReceiver :
    (c.rename ρ).declarations = c.declarations.map (Declaration.rename (keepReceiver ρ)) := by
  rw [c.declarations_rename]
  exact map_rename_eq_keepReceiver fun d => isIdentifier_of_mem identifiers

/-- The object of a method is declared in front of the renamed variables, as it was in front of the
old ones. -/
theorem declarations_subroutine_rename (inClass : s ∈ c.subroutines) (r : String → String) :
    (s.rename ρ r).declarations c.name =
      (s.declarations c.name).map (Declaration.rename (keepReceiver ρ)) := by
  have receiver : receiverDeclarations c.name s.kind =
      (receiverDeclarations c.name s.kind).map (Declaration.rename (keepReceiver ρ)) := by
    cases s.kind with
    | method =>
        rw [receiverDeclarations, List.map_singleton, Declaration.rename, keepReceiver_receiver]
    | constructor => rfl
    | function => rfl
  rw [Subroutine.declarations_eq, Subroutine.declarations_eq, List.map_append, ← receiver,
    s.ownDeclarations_rename,
    map_rename_eq_keepReceiver fun d => isIdentifier_of_mem_own identifiers inClass]
  rfl

/-- A new name stands for what the old one stood for. -/
theorem namesIn_rename (isRenaming : IsRenaming ρ) (inClass : s ∈ c.subroutines)
    (r : String → String) {name : String} (isName : IsName name) :
    (c.rename ρ).namesIn (s.rename ρ r) (keepReceiver ρ name) =
      (c.namesIn s name).map (Symbol.named (keepReceiver ρ name)) := by
  have inner : latest? ((s.rename ρ r).declarations c.name) (keepReceiver ρ name) =
      (latest? (s.declarations c.name) name).map (Symbol.named (keepReceiver ρ name)) := by
    rw [declarations_subroutine_rename identifiers inClass]
    exact latest?_map_rename fun d member => isRenaming.keepReceiver_injective
      (isName_of_mem_declarations identifiers inClass member) isName
  have outer : latest? (c.rename ρ).declarations (keepReceiver ρ name) =
      (latest? c.declarations name).map (Symbol.named (keepReceiver ρ name)) := by
    rw [declarations_rename_keepReceiver identifiers]
    exact latest?_map_rename fun d member => isRenaming.keepReceiver_injective
      (.inl (isIdentifier_of_mem identifiers member)) isName
  rw [namesIn, namesIn, Declarations.symbol?, Declarations.symbol?, Option.map_or]
  exact congrArg₂ Option.or inner outer

end

/-- A name that stands for nothing in a subroutine is declared neither there nor in its class. -/
theorem namesIn_eq_none_iff {name : String} :
    c.namesIn s name = none ↔
      name ∉ (s.declarations c.name).map Declaration.name ∧
        name ∉ c.declarations.map Declaration.name :=
  Declarations.symbol?_eq_none_iff

end ClassTree

end Jack
