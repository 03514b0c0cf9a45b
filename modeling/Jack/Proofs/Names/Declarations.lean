import Jack.Symbols.Table

namespace Jack

/-!
# Declarations in their order

What the names of a class stand for, told from the declarations alone.  A name stands for its latest
declaration, first among those of the subroutine and then among those of the class.  The number of a
symbol is the number of declarations of its kind in front of it; names that are declared again count
each time.

A symbol table holds just this information (`SymbolTable.Holds`): it starts without declarations,
and it follows the declarations as long as no kind is full.
-/

/-- The declaration of one name. -/
structure Declaration where
  name : String
  /-- The word for its type. -/
  type : String
  kind : SymbolKind
deriving DecidableEq

/-- The number of declarations of a kind. -/
def countKind (kind : SymbolKind) (declarations : List Declaration) : Nat :=
  declarations.countP (·.kind = kind)

/-- Counts of declarations add up.  They are not cut to words here. -/
theorem countKind_append (kind : SymbolKind) (first second : List Declaration) :
    countKind kind (first ++ second) = countKind kind first + countKind kind second :=
  List.countP_append

theorem countKind_singleton (kind : SymbolKind) (d : Declaration) :
    countKind kind [d] = if d.kind = kind then 1 else 0 := by
  simp only [countKind, List.countP_singleton, decide_eq_true_eq]

/-- The symbol that a declaration makes behind those in front of it. -/
def Declaration.symbol (d : Declaration) (before : List Declaration) : Symbol :=
  ⟨d.name, d.type, d.kind, UInt16.ofNat (countKind d.kind before)⟩

/-- The symbol of a name among declarations that stand behind those `before`. -/
def latestBehind (name : String) (before : List Declaration) :
    List Declaration → Option Symbol
  | [] => none
  | d :: behind =>
    (latestBehind name (before ++ [d]) behind).or
      (if d.name = name then some (d.symbol before) else none)

/-- The symbol of a name: what its latest declaration makes. -/
def latest? (declarations : List Declaration) (name : String) : Option Symbol :=
  latestBehind name [] declarations

/-- A later declaration hides an earlier one. -/
theorem latestBehind_append (name : String) (before first second : List Declaration) :
    latestBehind name before (first ++ second) =
      (latestBehind name (before ++ first) second).or (latestBehind name before first) := by
  induction first generalizing before with
  | nil => rw [List.nil_append, List.append_nil, latestBehind, Option.or_none]
  | cons d more inductionHypothesis =>
      rw [List.cons_append, latestBehind, inductionHypothesis, latestBehind, Option.or_assoc,
        List.append_assoc, List.singleton_append]

/-- The last declaration counts for its name, and for no other. -/
theorem latest?_append_singleton (declarations : List Declaration) (d : Declaration)
    (name : String) :
    latest? (declarations ++ [d]) name =
      if d.name = name then some (d.symbol declarations) else latest? declarations name := by
  rw [latest?, latestBehind_append, List.nil_append, latestBehind, latestBehind, Option.none_or]
  by_cases same : d.name = name
  · rw [if_pos same, if_pos same, Option.some_or]
  · rw [if_neg same, if_neg same, Option.none_or]
    rfl

/-- A name has no symbol if and only if nothing declares it. -/
theorem latest?_eq_none_iff {declarations : List Declaration} {name : String} :
    latest? declarations name = none ↔ name ∉ declarations.map Declaration.name := by
  have behind (before declarations : List Declaration) :
      latestBehind name before declarations = none ↔
        name ∉ declarations.map Declaration.name := by
    induction declarations generalizing before with
    | nil => exact iff_of_true rfl List.not_mem_nil
    | cons d more inductionHypothesis =>
        rw [latestBehind, Option.or_eq_none_iff, inductionHypothesis, List.map_cons,
          List.mem_cons, not_or]
        by_cases same : d.name = name
        · simp only [same, if_true, reduceCtorEq, and_false, not_true, false_and]
        · simp only [same, Ne.symm same, if_false, and_true, not_false_eq_true, true_and]
  exact behind [] declarations

/-- The declarations that have been made, in the two scopes. -/
structure Declarations where
  ofClass : List Declaration
  ofSubroutine : List Declaration

namespace Declarations

/-- The declarations of the scope to which a kind belongs. -/
def scope (ds : Declarations) (kind : SymbolKind) : List Declaration :=
  if kind.isClassScope then ds.ofClass else ds.ofSubroutine

/-- One more declaration. -/
def declare (ds : Declarations) (d : Declaration) : Declarations :=
  if d.kind.isClassScope then { ds with ofClass := ds.ofClass ++ [d] }
  else { ds with ofSubroutine := ds.ofSubroutine ++ [d] }

/-- More declarations, all of the scope to which a kind belongs. -/
def extend (ds : Declarations) (kind : SymbolKind) (more : List Declaration) : Declarations :=
  if kind.isClassScope then { ds with ofClass := ds.ofClass ++ more }
  else { ds with ofSubroutine := ds.ofSubroutine ++ more }

/-- The declarations that are left at the start of a subroutine. -/
def startSubroutine (ds : Declarations) : Declarations :=
  { ds with ofSubroutine := [] }

/-- The symbol that a name stands for. -/
def symbol? (ds : Declarations) (name : String) : Option Symbol :=
  (latest? ds.ofSubroutine name).or (latest? ds.ofClass name)

/-- A name that is unknown is declared neither in the subroutine nor in the class. -/
theorem symbol?_eq_none_iff {ds : Declarations} {name : String} :
    ds.symbol? name = none ↔
      name ∉ ds.ofSubroutine.map Declaration.name ∧ name ∉ ds.ofClass.map Declaration.name := by
  rw [symbol?, Option.or_eq_none_iff, latest?_eq_none_iff, latest?_eq_none_iff]

/-- A name stands for nothing if and only if no scope declares it. -/
theorem symbol?_eq_none_iff_scopes {ds : Declarations} {name : String} :
    ds.symbol? name = none ↔ ∀ kind, name ∉ (ds.scope kind).map Declaration.name := by
  rw [symbol?_eq_none_iff]
  constructor
  · rintro ⟨ofSubroutine, ofClass⟩ kind
    rw [scope]
    split
    · exact ofClass
    · exact ofSubroutine
  · intro undeclared
    exact ⟨undeclared .argument, undeclared .static⟩

@[simp] theorem extend_nil (ds : Declarations) (kind : SymbolKind) : ds.extend kind [] = ds := by
  cases scope : kind.isClassScope <;>
    simp only [extend, scope, Bool.false_eq_true, if_true, if_false, List.append_nil]

/-- Declarations of one scope may be made one by one. -/
theorem extend_extend (ds : Declarations) (kind : SymbolKind) (more further : List Declaration) :
    (ds.extend kind more).extend kind further = ds.extend kind (more ++ further) := by
  cases scope : kind.isClassScope <;>
    simp only [extend, scope, Bool.false_eq_true, if_true, if_false, List.append_assoc]

/-- New declarations come behind those of the same scope. -/
theorem scope_extend_self (ds : Declarations) (kind : SymbolKind) (more : List Declaration) :
    (ds.extend kind more).scope kind = ds.scope kind ++ more := by
  cases scope : kind.isClassScope <;>
    simp only [extend, Declarations.scope, scope, Bool.false_eq_true, if_true, if_false]

/-- A declaration is behind all others of its own scope. -/
theorem scope_declare_self (ds : Declarations) (d : Declaration) :
    (ds.declare d).scope d.kind = ds.scope d.kind ++ [d] :=
  scope_extend_self ds d.kind [d]

/-- A declaration raises the count of its kind by one and leaves the other counts alone. -/
theorem countKind_declare (ds : Declarations) (d : Declaration) (kind : SymbolKind) :
    countKind kind ((ds.declare d).scope kind) =
      countKind kind (ds.scope kind) + if d.kind = kind then 1 else 0 := by
  by_cases same : d.kind = kind
  · rw [← same, scope_declare_self, countKind_append, countKind_singleton]
  · rw [if_neg same, Nat.add_zero]
    cases ownScope : d.kind.isClassScope <;> cases otherScope : kind.isClassScope <;>
      simp only [declare, scope, ownScope, otherScope, Bool.false_eq_true, if_true, if_false,
        countKind_append, countKind_singleton, same, Nat.add_zero]

end Declarations

namespace SymbolTable

/-- The table holds the symbols that the declarations make, and counts them. -/
structure Holds (t : SymbolTable) (ds : Declarations) : Prop where
  classScope : ∀ name, t.classScope[name]? = latest? ds.ofClass name
  subroutineScope : ∀ name, t.subroutineScope[name]? = latest? ds.ofSubroutine name
  count : ∀ kind, (t.count kind).toNat = countKind kind (ds.scope kind)

/-- A new table holds nothing. -/
theorem holds_empty : empty.Holds ⟨[], []⟩ where
  classScope name := Std.TreeMap.getElem?_emptyc
  subroutineScope name := Std.TreeMap.getElem?_emptyc
  count kind := by cases kind <;> rfl

namespace Holds

variable {t : SymbolTable} {ds : Declarations}

/-- The table knows the symbols that its declarations make. -/
theorem get?_eq (holds : t.Holds ds) : t.get? = ds.symbol? := by
  funext name
  rw [get?, holds.subroutineScope, holds.classScope, Declarations.symbol?]

/-- The table counts all declarations of a kind, also those of names that were declared again. -/
theorem count_eq (holds : t.Holds ds) (kind : SymbolKind) :
    t.count kind = UInt16.ofNat (countKind kind (ds.scope kind)) := by
  rw [← holds.count, UInt16.ofNat_toNat]

/-- At the start of a subroutine the table holds the declarations of the class only. -/
theorem startSubroutine (holds : t.Holds ds) : t.startSubroutine.Holds ds.startSubroutine where
  classScope := holds.classScope
  subroutineScope name := Std.TreeMap.getElem?_emptyc
  count kind := by
    have before := holds.count kind
    cases kind with
    | static => exact before
    | field => exact before
    | argument => rfl
    | «local» => rfl

/-- All numbers of a kind are taken if and only if there are as many declarations of it. -/
theorem count_eq_limit_iff (holds : t.Holds ds) (kind : SymbolKind) :
    t.count kind = limit ↔ countKind kind (ds.scope kind) = 65535 := by
  rw [← holds.count, ← UInt16.toNat_inj]
  rfl

/-- A kind that is full takes no further name. -/
theorem define_full (holds : t.Holds ds) (name type : String) {kind : SymbolKind}
    (full : countKind kind (ds.scope kind) = 65535) :
    t.define name type kind = .error (.tooMany name) := by
  rw [define, tryDefine, if_pos ((holds.count_eq_limit_iff kind).mpr full)]

/-- The name of a symbol decides about its place in a scope. -/
theorem getElem?_insert_latest {scope : Scope} {declarations : List Declaration}
    (agrees : ∀ name, scope[name]? = latest? declarations name) (d : Declaration) (name : String) :
    (scope.insert d.name (d.symbol declarations))[name]? =
      latest? (declarations ++ [d]) name := by
  rw [Std.TreeMap.getElem?_insert, latest?_append_singleton, agrees]
  simp only [Std.LawfulEqCmp.compare_eq_iff_eq]

/-- A declaration of a kind that is not full is made, and tells which symbol of its scope it
replaces. -/
theorem define (holds : t.Holds ds) (d : Declaration)
    (room : countKind d.kind (ds.scope d.kind) ≠ 65535) :
    ∃ t', t.define d.name d.type d.kind = .ok (latest? (ds.scope d.kind) d.name, t') ∧
      t'.Holds (ds.declare d) := by
  have notFull : t.count d.kind ≠ limit :=
    fun full => room ((holds.count_eq_limit_iff d.kind).mp full)
  have symbolEq : (⟨d.name, d.type, d.kind, t.count d.kind⟩ : Symbol) =
      d.symbol (ds.scope d.kind) := by
    rw [Declaration.symbol, holds.count_eq]
  have nextCount (kind : SymbolKind) :
      ((t.counts.set d.kind (t.count d.kind + 1)).get kind).toNat =
        countKind kind ((ds.declare d).scope kind) := by
    rw [Declarations.countKind_declare]
    by_cases same : d.kind = kind
    -- The count does not go around zero, since the kind is not full.
    · subst same
      have below : (t.count d.kind).toNat ≠ 65535 := by rwa [holds.count]
      have bound := (t.count d.kind).toNat_lt
      rw [SymbolCounts.get_set_self, if_pos rfl, ← holds.count, UInt16.toNat_add,
        UInt16.toNat_one, Nat.mod_eq_of_lt (by omega)]
    · rw [SymbolCounts.get_set_of_ne _ _ (Ne.symm same), if_neg same, Nat.add_zero]
      exact holds.count kind
  cases scope : d.kind.isClassScope with
  | true =>
      have own : ds.scope d.kind = ds.ofClass := by rw [Declarations.scope, if_pos scope]
      have declared : ds.declare d = { ds with ofClass := ds.ofClass ++ [d] } := by
        rw [Declarations.declare, if_pos scope]
      rw [own] at symbolEq
      refine ⟨_, by
        simp only [SymbolTable.define, SymbolTable.tryDefine, notFull, if_false, scope, if_true,
          own, holds.classScope d.name]; rfl, ?_⟩
      constructor
      · intro name
        rw [declared, symbolEq]
        exact getElem?_insert_latest holds.classScope d name
      · intro name
        rw [declared]
        exact holds.subroutineScope name
      · exact nextCount
  | false =>
      have own : ds.scope d.kind = ds.ofSubroutine := by
        rw [Declarations.scope, scope, if_neg Bool.false_ne_true]
      have declared : ds.declare d = { ds with ofSubroutine := ds.ofSubroutine ++ [d] } := by
        rw [Declarations.declare, scope, if_neg Bool.false_ne_true]
      rw [own] at symbolEq
      refine ⟨_, by
        simp only [SymbolTable.define, SymbolTable.tryDefine, notFull, if_false, scope,
          Bool.false_eq_true, own, holds.subroutineScope d.name]; rfl, ?_⟩
      constructor
      · intro name
        rw [declared]
        exact holds.classScope name
      · intro name
        rw [declared, symbolEq]
        exact getElem?_insert_latest holds.subroutineScope d name
      · exact nextCount

end Holds

end SymbolTable

end Jack
