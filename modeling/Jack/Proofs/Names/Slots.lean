import Jack.Proofs.Names.Acceptance
import Mathlib.Data.List.Induction

namespace Jack

/-!
# Slots of variables

A variable is read and written in the segment of its kind, at its number.  Numbers follow the order
of the declarations.  So if the declarations of a scope can be counted, every number is below the
number of declarations of its kind, and no two declarations of one kind share a number.  Names of
different scopes are of different kinds.  Neither shadowing nor a repeated declaration brings two
visible names to one slot, because a declaration that is hidden keeps its number for itself.
-/

/-- Where the value of a variable is kept. -/
def Symbol.slot (v : Symbol) : Segment × UInt16 := (v.kind.segment, v.index)

/-- Each kind has a segment of its own. -/
theorem SymbolKind.segment_injective {kind kind' : SymbolKind}
    (same : kind.segment = kind'.segment) : kind = kind' := by
  cases kind <;> cases kind' <;> first | rfl | cases same

/-! ## The numbers of one scope -/

/-- A declaration raises the count of its kind. -/
theorem countKind_lt_append_cons (before : List Declaration) (d : Declaration)
    (after : List Declaration) :
    countKind d.kind before < countKind d.kind (before ++ d :: after) := by
  rw [countKind_append, ← List.singleton_append, countKind_append, countKind_singleton, if_pos rfl]
  omega

/-- A name stands for what the last of its declarations makes. -/
theorem exists_split_of_latest? {declarations : List Declaration} {name : String} {v : Symbol}
    (found : latest? declarations name = some v) :
    ∃ before d after, declarations = before ++ d :: after ∧ d.name = name ∧ v = d.symbol before ∧
      ∀ other ∈ after, other.name ≠ name := by
  induction declarations using List.reverseRecOn with
  | nil => cases found
  | append_singleton declarations d inductionHypothesis =>
      rw [latest?_append_singleton] at found
      by_cases same : d.name = name
      · rw [if_pos same] at found
        exact ⟨declarations, d, [], rfl, same, (Option.some.inj found).symm,
          fun _ member => absurd member List.not_mem_nil⟩
      · rw [if_neg same] at found
        rcases inductionHypothesis found with ⟨before, latest, after, rfl, named, symbol, hidden⟩
        refine ⟨before, latest, after ++ [d], ?_, named, symbol, fun other member => ?_⟩
        · rw [List.append_assoc, List.cons_append]
        · rcases List.mem_append.mp member with inAfter | isLast
          · exact hidden other inAfter
          · rwa [List.mem_singleton.mp isLast]

namespace Declarable

variable {options : Options} {declarations before after : List Declaration} {d : Declaration}

/-- Numbers do not wrap. -/
theorem symbol_index (declarable : Declarable options (before ++ d :: after)) :
    (d.symbol before).index.toNat = countKind d.kind before := by
  have room := declarable.countable d.kind
  have below := countKind_lt_append_cons before d after
  exact UInt16.toNat_ofNat_of_lt' (Nat.lt_of_lt_of_le below (Nat.le_trans room (by decide)))

/-- Declarations at different places have different slots. -/
theorem before_eq_of_slot_eq {before' after' : List Declaration} {d' : Declaration}
    (declarable : Declarable options (before ++ d :: after))
    (split : before ++ d :: after = before' ++ d' :: after')
    (same : (d.symbol before).slot = (d'.symbol before').slot) : before = before' := by
  have kind : d.kind = d'.kind := SymbolKind.segment_injective (congrArg Prod.fst same)
  have declarable' : Declarable options (before' ++ d' :: after') := split ▸ declarable
  have number : countKind d.kind before = countKind d'.kind before' := by
    rw [← declarable.symbol_index, ← declarable'.symbol_index]
    exact congrArg (·.2.toNat) same
  rcases List.append_eq_append_iff.mp split with ⟨between, rfl, behind⟩ | ⟨between, rfl, behind⟩
  · cases between with
    | nil => rw [List.append_nil]
    | cons first rest =>
        cases (List.cons.inj behind).1
        rw [← kind] at number
        exact absurd number (Nat.ne_of_lt (countKind_lt_append_cons before d rest))
  · cases between with
    | nil => rw [List.append_nil]
    | cons first rest =>
        cases (List.cons.inj behind).1
        rw [kind] at number
        exact absurd number.symm (Nat.ne_of_lt (countKind_lt_append_cons before' d' rest))

/-- Numbers of symbols are below the count of their kind, and they are not cut as long as a word can
count them. -/
theorem latest_index_lt {name : String} {v : Symbol} (declarable : Declarable options declarations)
    (found : latest? declarations name = some v) :
    v.index.toNat < countKind v.kind declarations := by
  rcases exists_split_of_latest? found with ⟨before, d, after, rfl, -, rfl, -⟩
  rw [declarable.symbol_index]
  exact countKind_lt_append_cons before d after

/-- Different names of one scope have different slots. -/
theorem latest_slot_injective {name name' : String} {v w : Symbol}
    (declarable : Declarable options declarations) (found : latest? declarations name = some v)
    (found' : latest? declarations name' = some w) (same : v.slot = w.slot) : name = name' := by
  rcases exists_split_of_latest? found with ⟨before, d, after, rfl, rfl, rfl, -⟩
  rcases exists_split_of_latest? found' with ⟨before', d', after', split, rfl, rfl, -⟩
  cases declarable.before_eq_of_slot_eq split same
  rw [(List.cons.inj (List.append_cancel_left split)).1]

end Declarable

/-! ## The two scopes of a subroutine -/

theorem VariableGroup.kind_of_mem {g : VariableGroup} {kind : SymbolKind} {d : Declaration}
    (member : d ∈ g.declarations kind) : d.kind = kind := by
  rcases List.mem_map.mp member with ⟨name, -, rfl⟩
  rfl

/-- The declarations of a class are fields and static variables. -/
theorem ClassTree.isClassScope_of_mem {c : ClassTree} {d : Declaration}
    (member : d ∈ c.declarations) : d.kind.isClassScope = true := by
  rcases List.mem_flatMap.mp member with ⟨line, -, inGroup⟩
  cases line with
  | static group => rw [group.kind_of_mem inGroup]; rfl
  | field group => rw [group.kind_of_mem inGroup]; rfl

/-- The object of a method is an argument. -/
theorem receiverDeclarations_kind {className : String} {kind : SubroutineKind} {d : Declaration}
    (member : d ∈ receiverDeclarations className kind) : d.kind = .argument := by
  cases kind with
  | method => rw [List.mem_singleton.mp member]
  | constructor => cases member
  | function => cases member

namespace Subroutine

variable {s : Subroutine} {className : String}

theorem kind_of_mem_localDeclarations {d : Declaration} (member : d ∈ s.localDeclarations) :
    d.kind = .«local» := by
  rcases List.mem_flatMap.mp member with ⟨group, -, inGroup⟩
  exact group.kind_of_mem inGroup

/-- The declarations of a subroutine are arguments and local variables. -/
theorem isClassScope_of_mem {d : Declaration} (member : d ∈ s.declarations className) :
    d.kind.isClassScope = false := by
  rcases List.mem_append.mp member with inFront | inLocals
  · rcases List.mem_append.mp inFront with isReceiver | inParameters
    · rw [receiverDeclarations_kind isReceiver]
      rfl
    · rcases List.mem_map.mp inParameters with ⟨p, -, rfl⟩
      rfl
  · rw [kind_of_mem_localDeclarations inLocals]
    rfl

/-- The number of arguments that a call has to pass. -/
def arity (s : Subroutine) : Nat :=
  s.parameters.length + if s.kind = .method then 1 else 0

theorem countKind_parameters (parameters : List Parameter) :
    countKind .argument (parameters.map Parameter.declaration) = parameters.length := by
  rw [countKind, List.countP_eq_length.mpr, List.length_map]
  intro d member
  rcases List.mem_map.mp member with ⟨p, -, rfl⟩
  rfl

/-- Only a method has its object among its arguments. -/
theorem countKind_receiver (kind : SubroutineKind) :
    countKind .argument (receiverDeclarations className kind) =
      if kind = .method then 1 else 0 := by
  cases kind <;> rfl

/-- The arguments are the parameters and the object of a method. -/
theorem countKind_argument : countKind .argument (s.declarations className) = s.arity := by
  have locals : countKind .argument s.localDeclarations = 0 := by
    rw [countKind, List.countP_eq_zero]
    intro d member
    rw [kind_of_mem_localDeclarations member]
    exact Bool.false_ne_true
  rw [Subroutine.declarations, countKind_append, countKind_append, countKind_receiver,
    countKind_parameters, locals, Nat.add_zero, Nat.add_comm, arity]

/-- Parameters are numbered in their order, behind the object of a method. -/
theorem parameter_index {options : Options} {earlier later : List Parameter} {p : Parameter}
    (declarable : Declarable options (s.declarations className))
    (parameters : s.parameters = earlier ++ p :: later) :
    (p.declaration.symbol (receiverDeclarations className s.kind ++
      earlier.map Parameter.declaration)).index.toNat =
        earlier.length + if s.kind = .method then 1 else 0 := by
  have split : s.declarations className =
      (receiverDeclarations className s.kind ++ earlier.map Parameter.declaration) ++
        p.declaration :: (later.map Parameter.declaration ++ s.localDeclarations) := by
    simp only [Subroutine.declarations, parameters, List.map_append, List.map_cons,
      List.append_assoc, List.cons_append]
  rw [split] at declarable
  rw [declarable.symbol_index, Parameter.declaration, countKind_append, countKind_receiver,
    countKind_parameters, Nat.add_comm]

end Subroutine

/-! ## Visible names -/

namespace ClassTree

variable {options : Options} {c : ClassTree} {s : Subroutine} {name : String} {v : Symbol}

/-- A name stands for a variable of the subroutine or else for a variable of the class. -/
theorem namesIn_eq_some_iff :
    c.namesIn s name = some v ↔
      latest? (s.declarations c.name) name = some v ∨
        latest? (s.declarations c.name) name = none ∧ latest? c.declarations name = some v :=
  Option.or_eq_some_iff

/-- A symbol is of the scope in which it is declared. -/
theorem isClassScope_of_latest? {declarations : List Declaration} {isClass : Bool}
    (kinds : ∀ d ∈ declarations, d.kind.isClassScope = isClass)
    (found : latest? declarations name = some v) : v.kind.isClassScope = isClass := by
  rcases exists_split_of_latest? found with ⟨before, d, after, rfl, -, rfl, -⟩
  exact kinds d (List.mem_append_right before List.mem_cons_self)

/-- The number of a visible variable is below the number of declarations of its kind. -/
theorem index_lt_of_namesIn (ofClass : Declarable options c.declarations)
    (ofSubroutine : Declarable options (s.declarations c.name))
    (found : c.namesIn s name = some v) :
    v.index.toNat < countKind v.kind
      ((Declarations.mk c.declarations (s.declarations c.name)).scope v.kind) := by
  rcases namesIn_eq_some_iff.mp found with found | ⟨-, found⟩
  · rw [Declarations.scope, isClassScope_of_latest? (fun _ => Subroutine.isClassScope_of_mem) found,
      if_neg Bool.false_ne_true]
    exact ofSubroutine.latest_index_lt found
  · rw [Declarations.scope, isClassScope_of_latest? (fun _ => isClassScope_of_mem) found,
      if_pos rfl]
    exact ofClass.latest_index_lt found

/-- Different visible names have different slots. -/
theorem slot_injective {name' : String} {w : Symbol} (ofClass : Declarable options c.declarations)
    (ofSubroutine : Declarable options (s.declarations c.name))
    (found : c.namesIn s name = some v) (found' : c.namesIn s name' = some w)
    (same : v.slot = w.slot) : name = name' := by
  have kind : v.kind = w.kind := SymbolKind.segment_injective (congrArg Prod.fst same)
  -- The scope of a symbol can be told from its kind, so both symbols are of one scope.
  have scopes {x y : Symbol} {n m : String} (inner : latest? (s.declarations c.name) n = some x)
      (outer : latest? c.declarations m = some y) : x.kind ≠ y.kind := by
    intro equal
    have ofInner := isClassScope_of_latest? (fun _ => Subroutine.isClassScope_of_mem) inner
    rw [equal, isClassScope_of_latest? (fun _ => isClassScope_of_mem) outer] at ofInner
    cases ofInner
  rcases namesIn_eq_some_iff.mp found with inner | ⟨-, outer⟩
  · rcases namesIn_eq_some_iff.mp found' with inner' | ⟨-, outer'⟩
    · exact ofSubroutine.latest_slot_injective inner inner' same
    · exact absurd kind (scopes inner outer')
  · rcases namesIn_eq_some_iff.mp found' with inner' | ⟨-, outer'⟩
    · exact absurd kind.symm (scopes inner' outer)
    · exact ofClass.latest_slot_injective outer outer' same

/-- The place of the object of a method is not the place of a parameter, also if the name of the
parameter is declared again. -/
theorem slot_ne_receiver {p : Parameter} (ofSubroutine : Declarable options (s.declarations c.name))
    (isMethod : s.kind = .method) (member : p ∈ s.parameters)
    (found : c.namesIn s p.name = some v) : v.slot ≠ (.argument, 0) := by
  have declared : p.declaration ∈ s.parameters.map Parameter.declaration ++ s.localDeclarations :=
    List.mem_append_left _ (List.mem_map_of_mem member)
  have receiverFirst : s.declarations c.name =
      ⟨Code.receiver, c.name, .argument⟩ ::
        (s.parameters.map Parameter.declaration ++ s.localDeclarations) := by
    rw [Subroutine.declarations, isMethod, List.append_assoc]
    rfl
  rcases namesIn_eq_some_iff.mp found with inner | ⟨hidden, -⟩
  · rcases exists_split_of_latest? inner with ⟨before, d, after, split, -, rfl, latest⟩
    have zero : (Declaration.mk Code.receiver c.name .argument).symbol [] =
        ⟨Code.receiver, c.name, .argument, 0⟩ := rfl
    intro same
    have first := Declarable.before_eq_of_slot_eq (split ▸ ofSubroutine)
      (split.symm.trans receiverFirst) (same.trans (congrArg Symbol.slot zero).symm)
    subst first
    rw [receiverFirst] at split
    rw [(List.cons.inj split).2] at declared
    exact latest _ declared rfl
  · refine absurd ?_ (latest?_eq_none_iff.mp hidden)
    rw [receiverFirst]
    exact List.mem_map_of_mem (List.mem_cons_of_mem _ declared)

end ClassTree

end Jack
