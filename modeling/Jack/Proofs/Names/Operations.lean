import Jack.Proofs.Names.Slots

namespace Jack

/-!
# Symbol tables stand for the declarations made

Whatever has been asked of a table, it answers as the list of the declarations that have succeeded:
those of the class since the beginning, and those of the subroutine since it was started.
`SymbolTable.AnswersAs` says what a table answers, and `SymbolTable.answersAs_of_operations` that it
does so behind any operations.
-/

/-- A change that is asked of a table. -/
inductive TableOperation
  | define (d : Declaration)
  | startSubroutine

/-- The declarations behind an operation.  If a kind is full, nothing more is declared of it. -/
def Declarations.after (ds : Declarations) : TableOperation → Declarations
  | .define d => if countKind d.kind (ds.scope d.kind) = 65535 then ds else ds.declare d
  | .startSubroutine => ds.startSubroutine

namespace SymbolTable

/-- The table behind an operation, whether the operation succeeds or fails. -/
def after (t : SymbolTable) : TableOperation → SymbolTable
  | .define d => (t.tryDefine d.name d.type d.kind).2
  | .startSubroutine => t.startSubroutine

/-- The names of the scope to which a kind belongs. -/
def scope (t : SymbolTable) (kind : SymbolKind) : Scope :=
  if kind.isClassScope then t.classScope else t.subroutineScope

/-- The symbol is kept in the table, be it hidden by one of the other scope. -/
def Live (t : SymbolTable) (v : Symbol) : Prop :=
  ∃ (kind : SymbolKind) (name : String), (t.scope kind)[name]? = some v

/-- The table answers as the declarations tell. -/
structure AnswersAs (t : SymbolTable) (ds : Declarations) : Prop where
  count : ∀ kind, (t.count kind).toNat = countKind kind (ds.scope kind)
  symbol : ∀ name, t.get? name = (latest? ds.ofSubroutine name).or (latest? ds.ofClass name)
  contains : ∀ name, t.contains name = (ds.symbol? name).isSome
  lookup : ∀ name, t.lookup name = (ds.symbol? name).elim (.error (.unresolved name)) .ok
  kindOf : ∀ name, t.kindOf name =
    (ds.symbol? name).elim (.error (.unresolved name)) fun v => .ok v.kind
  typeOf : ∀ name, t.typeOf name =
    (ds.symbol? name).elim (.error (.unresolved name)) fun v => .ok v.type
  indexOf : ∀ name, t.indexOf name =
    (ds.symbol? name).elim (.error (.unresolved name)) fun v => .ok v.index
  /-- A declaration that fails leaves the table as it is. -/
  full : ∀ d : Declaration, countKind d.kind (ds.scope d.kind) = 65535 →
    t.define d.name d.type d.kind = .error (.tooMany d.name) ∧ t.after (.define d) = t
  /-- The number of a new symbol is the number of declarations of its kind in front of it, and the
  symbol that it replaces is one of its own scope. -/
  define : ∀ d : Declaration, countKind d.kind (ds.scope d.kind) ≠ 65535 →
    t.define d.name d.type d.kind =
        .ok (latest? (ds.scope d.kind) d.name, t.after (.define d)) ∧
      ∃ index : UInt16, index.toNat = countKind d.kind (ds.scope d.kind) ∧
        ((t.after (.define d)).scope d.kind)[d.name]? = some ⟨d.name, d.type, d.kind, index⟩
  inRange : ∀ v, t.Live v → v.index < t.count v.kind
  distinct : ∀ v w, t.Live v → t.Live w → v.kind = w.kind → v.index = w.index → v = w

end SymbolTable

/-! ## The scopes of declarations -/

namespace Declarations

/-- The declarations of each scope are of its kinds. -/
def Sorted (ds : Declarations) : Prop :=
  ∀ kind, ∀ d ∈ ds.scope kind, d.kind.isClassScope = kind.isClassScope

variable {ds : Declarations}

/-- Nothing is in the wrong scope. -/
theorem sorted_empty : Sorted ⟨[], []⟩ := by
  intro kind d member
  cases scope : kind.isClassScope <;>
    simp only [Declarations.scope, scope, Bool.false_eq_true, if_true, if_false,
      List.not_mem_nil] at member

/-- Kinds of one scope have the same declarations to hide. -/
theorem scope_congr {kind other : SymbolKind} (same : kind.isClassScope = other.isClassScope) :
    ds.scope kind = ds.scope other := by
  rw [Declarations.scope, Declarations.scope, same]

/-- A declaration leaves the other scope alone. -/
theorem scope_declare_other {d : Declaration} {kind : SymbolKind}
    (other : d.kind.isClassScope ≠ kind.isClassScope) :
    (ds.declare d).scope kind = ds.scope kind := by
  cases own : d.kind.isClassScope <;> cases scope : kind.isClassScope <;>
    simp_all only [declare, Declarations.scope, ne_eq, not_true_eq_false, Bool.false_eq_true,
      if_true, if_false]

/-- A declaration comes into the scope of its kind. -/
theorem Sorted.declare (sorted : ds.Sorted) (d : Declaration) : (ds.declare d).Sorted := by
  intro kind other member
  by_cases same : d.kind.isClassScope = kind.isClassScope
  · rw [← scope_congr same, scope_declare_self, List.mem_append, List.mem_singleton] at member
    rcases member with earlier | rfl
    · exact sorted kind other (scope_congr same ▸ earlier)
    · exact same
  · rw [scope_declare_other same] at member
    exact sorted kind other member

theorem Sorted.startSubroutine (sorted : ds.Sorted) : ds.startSubroutine.Sorted := by
  intro kind d member
  cases scope : kind.isClassScope with
  | true =>
      have same : ds.startSubroutine.scope kind = ds.scope kind := by
        simp only [Declarations.scope, scope, if_true, Declarations.startSubroutine]
      rw [same] at member
      exact scope ▸ sorted kind d member
  | false =>
      simp only [Declarations.scope, scope, Bool.false_eq_true, if_false,
        Declarations.startSubroutine, List.not_mem_nil] at member

/-- Every operation keeps the declarations in the scopes of their kinds. -/
theorem Sorted.after (sorted : ds.Sorted) (operation : TableOperation) :
    (ds.after operation).Sorted := by
  cases operation with
  | define d =>
      rw [Declarations.after]
      split
      · exact sorted
      · exact sorted.declare d
  | startSubroutine => exact sorted.startSubroutine

end Declarations

/-! ## What tables answer -/

namespace SymbolTable.Holds

variable {t : SymbolTable} {ds : Declarations}

/-- Each scope of the table knows what the declarations of that scope make. -/
theorem scope_eq (holds : t.Holds ds) (kind : SymbolKind) (name : String) :
    (t.scope kind)[name]? = latest? (ds.scope kind) name := by
  cases scope : kind.isClassScope <;>
    simp only [SymbolTable.scope, Declarations.scope, scope, Bool.false_eq_true, if_true, if_false]
  · exact holds.subroutineScope name
  · exact holds.classScope name

/-- A table never holds more declarations of a kind than a word can count. -/
theorem countable (holds : t.Holds ds) (kind : SymbolKind) :
    countKind kind (ds.scope kind) ≤ 65535 := by
  rw [← holds.count]
  exact Nat.le_of_lt_succ (t.count kind).toNat_lt

/-- What a table holds after an operation is what the operation makes of the declarations.  A
refused definition changes neither. -/
theorem after (holds : t.Holds ds) (operation : TableOperation) :
    (t.after operation).Holds (ds.after operation) := by
  cases operation with
  | define d =>
      rw [SymbolTable.after, tryDefine_eq, Declarations.after]
      by_cases full : countKind d.kind (ds.scope d.kind) = 65535
      · rw [if_pos full, holds.define_full d.name d.type full]
        exact holds
      · rcases holds.define d full with ⟨next, defined, holdsNext⟩
        rw [if_neg full, defined]
        exact holdsNext
  | startSubroutine => exact holds.startSubroutine

/-- The declarations of one scope can be counted, because each of them is of a kind of the scope. -/
theorem declarable (holds : t.Holds ds) (sorted : ds.Sorted) (kind : SymbolKind) :
    Declarable {} (ds.scope kind) where
  countable other := by
    by_cases same : other.isClassScope = kind.isClassScope
    · rw [← Declarations.scope_congr same]
      exact holds.countable other
    · have none : countKind other (ds.scope kind) = 0 := by
        rw [countKind, List.countP_eq_zero]
        intro d member isOther
        rw [decide_eq_true_eq] at isOther
        exact same (isOther ▸ sorted kind d member)
      rw [none]
      exact Nat.zero_le _
  distinct strict := nomatch strict

/-- A live symbol is the latest of its name in the scope of its kind. -/
theorem exists_latest (holds : t.Holds ds) (sorted : ds.Sorted) {v : Symbol} (live : t.Live v) :
    ∃ name, latest? (ds.scope v.kind) name = some v := by
  rcases live with ⟨kind, name, kept⟩
  rw [holds.scope_eq] at kept
  have same : v.kind.isClassScope = kind.isClassScope :=
    ClassTree.isClassScope_of_latest? (sorted kind) kept
  exact ⟨name, Declarations.scope_congr same ▸ kept⟩

/-- Whatever is asked of a name, it is answered from the symbol that the name stands for. -/
theorem lookup_map_eq {α : Type} (holds : t.Holds ds) (name : String) (answer : Symbol → α) :
    (t.lookup name).map answer =
      (ds.symbol? name).elim (.error (.unresolved name)) fun v => .ok (answer v) := by
  rw [lookup, holds.get?_eq]
  cases ds.symbol? name <;> rfl

/-- A table answers as the declarations do that it holds. -/
theorem answersAs (holds : t.Holds ds) (sorted : ds.Sorted) : t.AnswersAs ds where
  count := holds.count
  symbol name := by rw [holds.get?_eq, Declarations.symbol?]
  contains name := by rw [contains, holds.get?_eq]
  lookup name := by
    rw [lookup, holds.get?_eq]
    cases ds.symbol? name <;> rfl
  kindOf name := holds.lookup_map_eq name Symbol.kind
  typeOf name := holds.lookup_map_eq name Symbol.type
  indexOf name := holds.lookup_map_eq name Symbol.index
  full d full := by
    have failed := holds.define_full d.name d.type full
    refine ⟨failed, ?_⟩
    rw [SymbolTable.after, tryDefine_eq, failed]
  define d room := by
    rcases holds.define d room with ⟨next, defined, holdsNext⟩
    have isNext : t.after (.define d) = next := by
      rw [SymbolTable.after, tryDefine_eq, defined]
    refine ⟨isNext ▸ defined, UInt16.ofNat (countKind d.kind (ds.scope d.kind)), ?_, ?_⟩
    · exact UInt16.toNat_ofNat_of_lt' (Nat.lt_succ_of_le (holds.countable d.kind))
    · rw [isNext, holdsNext.scope_eq, Declarations.scope_declare_self, latest?_append_singleton,
        if_pos rfl]
      rfl
  inRange v live := by
    rcases holds.exists_latest sorted live with ⟨name, latest⟩
    rw [UInt16.lt_iff_toNat_lt, holds.count]
    exact (holds.declarable sorted v.kind).latest_index_lt latest
  distinct v w live live' sameKind sameIndex := by
    rcases holds.exists_latest sorted live with ⟨name, latest⟩
    rcases holds.exists_latest sorted live' with ⟨name', latest'⟩
    rw [← sameKind] at latest'
    have sameSlot : v.slot = w.slot := by rw [Symbol.slot, Symbol.slot, sameKind, sameIndex]
    have sameName := (holds.declarable sorted v.kind).latest_slot_injective latest latest' sameSlot
    rw [sameName, latest'] at latest
    exact (Option.some.inj latest).symm

end SymbolTable.Holds

/-- Behind any operations on a new table, the table answers as the declarations that have
succeeded. -/
theorem SymbolTable.answersAs_of_operations (operations : List TableOperation) :
    (operations.foldl SymbolTable.after .empty).AnswersAs
      (operations.foldl Declarations.after ⟨[], []⟩) := by
  -- Two symbols of one kind are in one scope only because each scope keeps to its own kinds.
  have run (t : SymbolTable) (ds : Declarations) (holds : t.Holds ds) (sorted : ds.Sorted) :
      (operations.foldl SymbolTable.after t).Holds (operations.foldl Declarations.after ds) ∧
        (operations.foldl Declarations.after ds).Sorted := by
    induction operations generalizing t ds with
    | nil => exact ⟨holds, sorted⟩
    | cons operation rest inductionHypothesis =>
        exact inductionHypothesis _ _ (holds.after operation) (sorted.after operation)
  rcases run .empty ⟨[], []⟩ holds_empty Declarations.sorted_empty with ⟨holds, sorted⟩
  exact holds.answersAs sorted

end Jack
