import Mathlib
import Jack.Proofs.Compiler.Slots

namespace Jack

/-!
# Constants of a listing

The machine has words of sixteen bits with a sign, so its largest constant is 32767.  Integers are
held to that bound where they are read, and so are the lengths and characters of strings.  A
constructor also pushes a constant, the number of fields, which may be up to 65535.  So the bound
holds of a listing exactly if a class with a constructor has no more than 32767 fields
(`compileClass_constants`), and a larger class breaks it (`compileClass_largeConstant`).
-/

namespace Subroutine

variable {c : ClassTree} {s : Subroutine}

/-- A constructor pushes the number of fields. -/
theorem fields_mem_code (options : Options) (n : Nat) (isConstructor : s.kind = .constructor) :
    .push .constant (UInt16.ofNat (countKind .field c.declarations)) ∈ s.code options c n := by
  have inPrologue : .push .constant (UInt16.ofNat (countKind .field c.declarations)) ∈
      s.prologue c := by
    rw [Subroutine.prologue, isConstructor]
    exact List.mem_cons_self
  rw [s.code_eq_inner]
  exact List.mem_cons_of_mem _ (List.mem_append_left _ (List.mem_append_left _ inPrologue))

/-- Every other constant of a subroutine is one that the machine can hold. -/
theorem constant_le_or_fields (options : Options) (n : Nat)
    (integers : ∀ l ∈ s.statements.lexemes, l.Fits)
    (acceptable : s.statements.Acceptable (c.namesIn s)) {value : UInt16}
    (member : .push .constant value ∈ s.code options c n) :
    value.toNat ≤ maxInt ∨
      s.kind = .constructor ∧ value = UInt16.ofNat (countKind .field c.declarations) := by
  rw [s.code_eq_inner] at member
  rcases List.mem_cons.mp member with isStart | inBlock
  · cases isStart
  rcases List.mem_append.mp inBlock with inInner | isReturn
  · rcases s.code_fits options n integers acceptable _ inInner with inPrologue | fits
    · unfold Subroutine.prologue at inPrologue
      cases kind : s.kind <;> rw [kind] at inPrologue
      case constructor =>
        refine .inr ⟨rfl, ?_⟩
        rcases List.mem_cons.mp inPrologue with same | others
        · exact (Command.push.inj same).2
        · rcases List.mem_pair.mp others with same | same <;> cases same
      case method => rcases List.mem_pair.mp inPrologue with same | same <;> cases same
      case function => cases inPrologue
    · exact .inl fits
  · cases List.mem_singleton.mp isReturn

end Subroutine

namespace ClassTree

variable {options : Options} {c : ClassTree}

/-- Each subroutine is listed with some number in front of it. -/
theorem exists_numbered {s : Subroutine} (member : s ∈ c.subroutines) :
    ∃ n, (n, s) ∈ c.numbered := by
  rw [← map_snd_numberedBehind 0 c.subroutines] at member
  rcases List.mem_map.mp member with ⟨⟨n, s⟩, inNumbered, rfl⟩
  exact ⟨n, inNumbered⟩

/-- The code of a class is that of its subroutines, and there is nothing between them. -/
theorem mem_code {command : Command} :
    command ∈ c.code options ↔ ∃ n s, (n, s) ∈ c.numbered ∧ command ∈ s.code options c n := by
  rw [c.code_eq_flatMap, List.mem_flatMap]
  exact ⟨fun ⟨⟨n, s⟩, inNumbered, inBlock⟩ => ⟨n, s, inNumbered, inBlock⟩,
    fun ⟨n, s, inNumbered, inBlock⟩ => ⟨(n, s), inNumbered, inBlock⟩⟩

/-- The code of an acceptable class has only constants of the machine, unless a constructor makes an
object that is too large. -/
theorem constants_le_iff (integers : ∀ l ∈ c.lexemes, l.Fits) (acceptable : c.Acceptable options) :
    (∀ value, .push .constant value ∈ c.code options → value.toNat ≤ maxInt) ↔
      ((∃ s ∈ c.subroutines, s.kind = .constructor) →
        countKind .field c.declarations ≤ maxInt) := by
  have room := acceptable.1.countable .field
  have fields : (UInt16.ofNat (countKind .field c.declarations)).toNat =
      countKind .field c.declarations :=
    UInt16.toNat_ofNat_of_lt' (Nat.lt_of_le_of_lt room (by decide))
  constructor
  · rintro all ⟨s, member, isConstructor⟩
    rcases exists_numbered member with ⟨n, inNumbered⟩
    have pushed := all _
      (mem_code.mpr ⟨n, s, inNumbered, s.fields_mem_code options n isConstructor⟩)
    rwa [fields] at pushed
  · intro small value member
    rcases mem_code.mp member with ⟨n, s, inNumbered, inBlock⟩
    have inClass := mem_of_numbered inNumbered
    rcases s.constant_le_or_fields options n
      (fun l inStatements => integers l (c.mem_lexemes_of_mem_statements inClass inStatements))
      (acceptable.2 s inClass).2 inBlock with fits | ⟨isConstructor, rfl⟩
    · exact fits
    · rw [fields]
      exact small ⟨s, inClass, isConstructor⟩

end ClassTree

/-- A listing has only constants of the machine if and only if no constructor makes an object with
more than 32767 fields. -/
theorem compileClass_constants {options : Options} {source : List Char} {listing : Listing}
    (compiled : (compileClass options source).result = .ok listing) :
    ∃ c : ClassTree, Lexes source c.lexemes ∧ (∀ c', Lexes source c'.lexemes → c' = c) ∧
      ((∀ value, .push .constant value ∈ listing.toList → value.toNat ≤ maxInt) ↔
        ((∃ s ∈ c.subroutines, s.kind = .constructor) →
          countKind .field c.declarations ≤ maxInt)) := by
  rcases compileClass_eq_ok_iff.mp compiled with ⟨c, lexes, acceptable, code⟩
  refine ⟨c, lexes, fun c' lexes' => lexes.tree_unique lexes', ?_⟩
  rw [code]
  exact c.constants_le_iff lexes.fits acceptable

/-- A class with a constructor and one field. -/
theorem compileClass_constants_oneField :
    ∃ listing : Listing,
      (compileClass {}
          "class A{field int x;constructor A new(){return this;}}".toList).result = .ok listing ∧
      ∀ value, .push .constant value ∈ listing.toList → value.toNat ≤ maxInt := by
  have compiled := compileClass_of_emitted {}
    "class A{field int x;constructor A new(){return this;}}".toList (by cbv)
  have lexes : Lexes "class A{field int x;constructor A new(){return this;}}".toList
      (ClassTree.mk "A" [.field ⟨.int, "x", []⟩]
        [⟨.constructor, some (.named "A"), "new", [], [],
          .cons (.returnValue (some (.chain (.constant .this) .nil))) .nil⟩]).lexemes :=
    lexes_of_items (by cbv)
  rcases compileClass_constants compiled with ⟨c, -, unique, bound⟩
  cases unique _ lexes
  exact ⟨_, compiled, bound.mpr fun _ => by decide⟩

/-! ## Objects that are too large -/

/-- A class with a constructor and `n + 1` declarations of a field. -/
def manyFields (n : Nat) : ClassTree :=
  ⟨"A", [.field ⟨.int, "x", List.replicate n "x"⟩],
    [⟨.constructor, some (.named "A"), "new", [], [],
      .cons (.returnValue (some (.chain (.constant .this) .nil))) .nil⟩]⟩

/-- The source of that class, with the braces written by their codes. -/
def manyFieldsSource (n : Nat) : List Char :=
  "class A\x7bfield int x".toList ++ ((List.replicate n ",x".toList).flatten ++
    ";constructor A new()\x7breturn this;\x7d\x7d".toList)

/-- The lexemes behind the list of fields. -/
def manyFieldsEnd : List Lexeme :=
  [.symbol .semicolon, .keyword .constructor, .identifier "A", .identifier "new",
    .symbol .leftParen, .symbol .rightParen, .symbol .leftBrace, .keyword .«return»,
    .keyword .this, .symbol .semicolon, .symbol .rightBrace, .symbol .rightBrace, .endOfFile]

/-- A word that is not reserved is an identifier. -/
theorem LexesAt.name (name : String) (first : Char) (more : List Char) {rest : List Char}
    {lexemes : List Lexeme} (text : name.toList = first :: more) (letter : isLetter first = true)
    (word : more.all isWordCharacter = true) (notReserved : Keyword.ofText? name = none)
    (ends : Ends isWordCharacter rest) (lexesAt : LexesAt rest lexemes) :
    LexesAt (name.toList ++ rest) (.identifier name :: lexemes) := by
  refine .identifier name ?_ lexesAt
  rw [text]
  refine .identifier letter (List.all_eq_true.mp word) (fun k same => ?_) ends
  rw [← String.ofList_toList (s := name), text, ← same, String.ofList_toList,
    Keyword.ofText?_text] at notReserved
  cases notReserved

theorem manyFieldsEnd_lexes :
    LexesAt ";constructor A new()\x7breturn this;\x7d\x7d".toList manyFieldsEnd := by
  have text : ";constructor A new()\x7breturn this;\x7d\x7d".toList =
      ';' :: ("constructor".toList ++ ' ' :: ("A".toList ++ ' ' :: ("new".toList ++
        '(' :: ')' :: '{' :: ("return".toList ++ ' ' :: ("this".toList ++ [';', '}', '}']))))) := by
    decide
  rw [text]
  refine .symbol .semicolon (by decide) ?_
  refine .keyword .constructor (ends_cons.mpr (by decide)) (.blank (by decide) ?_)
  refine .name "A" 'A' [] (by decide) (by decide) (by decide) (by cbv) (ends_cons.mpr (by decide))
    (.blank (by decide) ?_)
  refine .name "new" 'n' ['e', 'w'] (by decide) (by decide) (by decide) (by cbv)
    (ends_cons.mpr (by decide)) ?_
  refine .symbol .leftParen (by decide) (.symbol .rightParen (by decide) ?_)
  refine .symbol .leftBrace (by decide) ?_
  refine .keyword .«return» (ends_cons.mpr (by decide)) (.blank (by decide) ?_)
  refine .keyword .this (ends_cons.mpr (by decide)) (.symbol .semicolon (by decide) ?_)
  exact .symbol .rightBrace (by decide) (.symbol .rightBrace (by decide) .nil)

/-- The list of fields is read from its end. -/
theorem manyFieldsList_lexes (n : Nat) :
    LexesAt ("x".toList ++ ((List.replicate n ",x".toList).flatten ++
        ";constructor A new()\x7breturn this;\x7d\x7d".toList))
      (.identifier "x" :: ((List.replicate n "x").flatMap nameBehind ++ manyFieldsEnd)) := by
  induction n with
  | zero =>
      refine .name "x" 'x' [] (by decide) (by decide) (by decide) (by cbv) ?_ manyFieldsEnd_lexes
      exact ends_cons.mpr (by decide)
  | succ n inductionHypothesis =>
      refine .name "x" 'x' [] (by decide) (by decide) (by decide) (by cbv) ?_ ?_
      · exact ends_cons.mpr (by decide)
      · exact .symbol .comma (by decide) inductionHypothesis

/-- The source spells the class, for any number of fields. -/
theorem manyFields_lexes (n : Nat) : Lexes (manyFieldsSource n) (manyFields n).lexemes := by
  have text : manyFieldsSource n =
      "class".toList ++ ' ' :: ("A".toList ++ '{' :: ("field".toList ++ ' ' ::
        ("int".toList ++ ' ' :: ("x".toList ++ ((List.replicate n ",x".toList).flatten ++
          ";constructor A new()\x7breturn this;\x7d\x7d".toList))))) := rfl
  have lexemes : (manyFields n).lexemes =
      .keyword .«class» :: .identifier "A" :: .symbol .leftBrace :: .keyword .field ::
        .keyword .int ::
          (.identifier "x" :: ((List.replicate n "x").flatMap nameBehind ++ manyFieldsEnd)) := by
    simp only [manyFields, ClassTree.lexemes, ClassVariables.lexemes, VariableGroup.lexemes,
      List.flatMap_cons, List.flatMap_nil, List.append_nil, List.cons_append, List.append_assoc]
    rfl
  rw [text, lexemes]
  refine LexesAt.lexes ?_
  refine .keyword .«class» (ends_cons.mpr (by decide)) (.blank (by decide) ?_)
  refine .name "A" 'A' [] (by decide) (by decide) (by decide) (by cbv)
    (ends_cons.mpr (by decide)) ?_
  refine .symbol .leftBrace (by decide) ?_
  refine .keyword .field (ends_cons.mpr (by decide)) (.blank (by decide) ?_)
  exact .keyword .int (ends_cons.mpr (by decide)) (.blank (by decide) (manyFieldsList_lexes n))

/-- The field is declared once more than it is repeated, always under one name. -/
theorem manyFields_declarations (n : Nat) :
    (manyFields n).declarations = List.replicate (n + 1) ⟨"x", "int", .field⟩ := by
  rw [ClassTree.declarations, manyFields, List.flatMap_singleton, ClassVariables.declarations,
    VariableGroup.declarations, ← List.replicate_succ, List.map_replicate]
  rfl

/-- All declarations count, although only one name is declared. -/
theorem manyFields_count (n : Nat) : countKind .field (manyFields n).declarations = n + 1 := by
  rw [manyFields_declarations, countKind, List.countP_replicate]
  rfl

/-- With repeated declarations allowed, the class can be compiled as long as a word can count the
fields. -/
theorem manyFields_acceptable {n : Nat} (room : n + 1 ≤ 65535) :
    (manyFields n).Acceptable {} := by
  refine ⟨⟨fun kind => ?_, fun strict => nomatch strict⟩, List.forall_mem_singleton.mpr
    ⟨declarable_nil _, ⟨trivial, trivial⟩, trivial⟩⟩
  rw [manyFields_declarations]
  exact Nat.le_trans List.countP_le_length (by rwa [List.length_replicate])

/-- The number of fields is pushed, also where it is no constant of the machine. -/
theorem exists_push_fields {n : Nat} (room : n + 1 ≤ 65535) :
    ∃ listing : Listing, (compileClass {} (manyFieldsSource n)).result = .ok listing ∧
      .push .constant (UInt16.ofNat (n + 1)) ∈ listing.toList := by
  refine ⟨((manyFields n).code {}).toArray, compileClass_eq_ok_iff.mpr
    ⟨manyFields n, manyFields_lexes n, manyFields_acceptable room, rfl⟩, ?_⟩
  rw [← manyFields_count n]
  exact ClassTree.mem_code.mpr ⟨0, _, List.mem_singleton.mpr rfl,
    Subroutine.fields_mem_code {} 0 rfl⟩

/-- With 32768 fields, a constant is pushed that the machine does not have. -/
theorem compileClass_largeConstant :
    ¬ ∀ listing : Listing, (compileClass {} (manyFieldsSource 32767)).result = .ok listing →
      ∀ value, .push .constant value ∈ listing.toList → value.toNat ≤ maxInt := by
  intro bounded
  rcases exists_push_fields (n := 32767) (by decide) with ⟨listing, compiled, pushed⟩
  exact absurd (bounded listing compiled _ pushed) (by decide)

end Jack
