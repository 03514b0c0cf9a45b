import Mathlib
import Jack.Proofs.Compiler.Language
import Jack.Proofs.Lexer.Spelling
import Jack.Proofs.Names.Slots
import Jack.Proofs.Translation.Operands

namespace Jack

/-!
# Slots of a listing

The numbers of variables, the counts in the `function` commands and the prologues are emitted at
different times, from counters that go on over repeated declarations.  They agree: what a function
addresses is there, and what two names stand for never lies in one place.
-/

/-! ## Integers of a source -/

/-- The lexer lets no larger number through. -/
theorem IsTextOf.decimal_le {kind : TokenKind} {text : List Char} (isText : IsTextOf kind text)
    (isInteger : kind = .integer) : Token.decimal text ≤ maxInt := by
  cases isText with
  | integer digits fits => exact fits
  | _ => cases isInteger

/-- The machine can hold the integers of a source that the lexer splits into tokens. -/
theorem Lexes.fits {source : List Char} {lexemes : List Lexeme} (lexes : Lexes source lexemes) :
    ∀ l ∈ lexemes, l.Fits := by
  intro l member
  rcases lexes.isSpelled member with rfl | isSpelled
  · exact trivial
  · cases l with
    | integer digits => exact isSpelled.decimal_le rfl
    | _ => exact trivial

/-! ## The range of each segment -/

/-- A segment has a place with the given number, for a function with as many local variables and
arguments, in a class with as many fields and static variables.  Two pointers, one element and one
temporary place are used, and a constant is no place. -/
def Segment.Has (locals : UInt16) (arguments fields statics : Nat) (i : UInt16) : Segment → Prop
  | «local» => i < locals
  | argument => i.toNat < arguments
  | this => i.toNat < fields
  | static => i.toNat < statics
  | pointer => i = 0 ∨ i = 1
  | that => i = 0
  | temp => i = 0
  | constant => False

/-- What the commands of a function do with the variables. -/
structure Subroutine.UsesSlots (c : ClassTree) (s : Subroutine) (locals : UInt16)
    (commands : List Command) : Prop where
  pushes : ∀ {segment : Segment} {i : UInt16}, .push segment i ∈ commands →
    segment = .constant ∨ segment.Has locals s.arity (countKind .field c.declarations)
      (countKind .static c.declarations) i
  pops : ∀ {segment : Segment} {i : UInt16}, .pop segment i ∈ commands →
    segment.Has locals s.arity (countKind .field c.declarations)
      (countKind .static c.declarations) i
  /-- A name is read and written at its slot. -/
  moves : ∀ {name : String} {v : Symbol}, c.namesIn s name = some v →
    pushName (c.namesIn s) name = [.push v.slot.1 v.slot.2] ∧
      popName (c.namesIn s) name = [.pop v.slot.1 v.slot.2]
  /-- Different visible names have different slots. -/
  apart : ∀ {name name' : String} {v w : Symbol}, name ≠ name' → c.namesIn s name = some v →
    c.namesIn s name' = some w → v.slot ≠ w.slot
  /-- Parameters get their numbers in order, behind the object of a method. -/
  parameters : ∀ {earlier later : List Parameter} {p : Parameter},
    s.parameters = earlier ++ p :: later →
      (p.declaration.symbol (receiverDeclarations c.name s.kind ++
        earlier.map Parameter.declaration)).index.toNat =
          earlier.length + if s.kind = .method then 1 else 0
  /-- The object of a method is not overwritten through the name of a parameter. -/
  receiver : s.kind = .method → ∀ {p : Parameter} {v : Symbol}, p ∈ s.parameters →
    c.namesIn s p.name = some v → v.slot ≠ (.argument, 0)

namespace Subroutine

variable {options : Options} {c : ClassTree} {s : Subroutine}

/-- What statements address is there. -/
theorem has_of_addressable {segment : Segment} {i : UInt16}
    (ofClass : Declarable options c.declarations)
    (ofSubroutine : Declarable options (s.declarations c.name))
    (addressable : Addressable (c.namesIn s) segment i) :
    segment.Has (UInt16.ofNat (countKind .«local» (s.declarations c.name))) s.arity
      (countKind .field c.declarations) (countKind .static c.declarations) i := by
  cases addressable with
  | @named name v found =>
      have inRange := ClassTree.index_lt_of_namesIn ofClass ofSubroutine found
      cases kind : v.kind <;> rw [kind] at inRange
      case static => exact inRange
      case field => exact inRange
      case argument =>
        have arguments : v.index.toNat < countKind .argument (s.declarations c.name) := inRange
        rwa [countKind_argument] at arguments
      case «local» =>
        have room := ofSubroutine.countable .«local»
        refine UInt16.lt_iff_toNat_lt.mpr ?_
        rw [UInt16.toNat_ofNat_of_lt' (Nat.lt_of_le_of_lt room (by decide))]
        exact inRange
  | object => exact .inl rfl
  | elementAddress => exact .inr rfl
  | element => exact (rfl : (0 : UInt16) = 0)
  | scratch => exact (rfl : (0 : UInt16) = 0)

/-- The commands of a subroutine use slots of what it and its class declare.  That different names
have different slots is another matter. -/
theorem usesSlots (n : Nat) (integers : ∀ l ∈ s.statements.lexemes, l.Fits)
    (ofClass : Declarable options c.declarations) (acceptable : s.Acceptable options c) :
    s.UsesSlots c (UInt16.ofNat (countKind .«local» (s.declarations c.name)))
      (s.inner options c n ++ [.«return»]) := by
  rcases acceptable with ⟨ofSubroutine, statements⟩
  have fits := s.code_fits options n integers statements
  -- A prologue sets the pointer to the object and at most reads the first argument of a method.
  have prologue : ∀ command ∈ s.prologue c, (∃ f, command = .push .constant f) ∨
      command = .call Code.allocateRoutine 1 ∨ command = .pop .pointer Code.thisPointer ∨
        s.kind = .method ∧ command = .push .argument 0 := by
    unfold Subroutine.prologue
    cases s.kind with
    | constructor =>
        exact List.forall_mem_cons.mpr ⟨.inl ⟨_, rfl⟩, List.forall_mem_cons.mpr
          ⟨.inr (.inl rfl), List.forall_mem_singleton.mpr (.inr (.inr (.inl rfl)))⟩⟩
    | method =>
        exact List.forall_mem_cons.mpr ⟨.inr (.inr (.inr ⟨rfl, rfl⟩)),
          List.forall_mem_singleton.mpr (.inr (.inr (.inl rfl)))⟩
    | function => exact List.forall_mem_nil _
  have inner {command : Command} (member : command ∈ s.inner options c n ++ [.«return»])
      (moves : command ≠ .«return») : command ∈ s.prologue c ∨ command.Fits (c.namesIn s) :=
    (List.mem_append.mp member).elim (fits command)
      fun isReturn => absurd (List.mem_singleton.mp isReturn) moves
  refine ⟨fun {segment i} member => ?_, fun {segment i} member => ?_, fun found => ?_,
    fun different found found' same => different
      (ClassTree.slot_injective ofClass ofSubroutine found found' same),
    fun split => parameter_index ofSubroutine split,
    fun isMethod _ _ => ClassTree.slot_ne_receiver ofSubroutine isMethod⟩
  · rcases inner member Command.noConfusion with inPrologue | fitsHere
    · rcases prologue _ inPrologue with ⟨f, same⟩ | same | same | ⟨isMethod, same⟩
      · cases same
        exact .inl rfl
      · cases same
      · cases same
      · cases same
        refine .inr ?_
        rw [Segment.Has, arity, if_pos isMethod]
        exact Nat.succ_pos _
    · by_cases isConstant : segment = .constant
      · exact .inl isConstant
      · refine .inr (has_of_addressable ofClass ofSubroutine ?_)
        cases segment
        case constant => exact absurd rfl isConstant
        all_goals exact fitsHere
  · rcases inner member Command.noConfusion with inPrologue | fitsHere
    · rcases prologue _ inPrologue with ⟨f, same⟩ | same | same | ⟨-, same⟩
      · cases same
      · cases same
      · cases same
        exact .inl rfl
      · cases same
    · exact has_of_addressable ofClass ofSubroutine fitsHere
  · simp only [pushName, popName, found, Symbol.slot, and_self]

end Subroutine

/-- What the functions of a listing push and pop is in range, and no two names share a place. -/
theorem compileClass_slots {options : Options} {source : List Char} {listing : Listing}
    (compiled : (compileClass options source).result = .ok listing) :
    ∃ c : ClassTree, Lexes source c.lexemes ∧ (∀ c', Lexes source c'.lexemes → c' = c) ∧
      listing.toList = c.numbered.flatMap (fun block => block.2.code options c block.1) ∧
      ∀ n s, (n, s) ∈ c.numbered → ∃ locals commands,
        s.code options c n = .function (Code.qualified c.name s.name) locals :: commands ∧
          s.UsesSlots c locals commands := by
  rcases compileClass_eq_ok_iff.mp compiled with ⟨c, lexes, acceptable, code⟩
  refine ⟨c, lexes, fun c' lexes' => lexes.tree_unique lexes', ?_, fun n s member => ?_⟩
  · rw [code, c.code_eq_flatMap]
  · have inClass := ClassTree.mem_of_numbered member
    exact ⟨_, _, s.code_eq_inner options c n,
      s.usesSlots n (fun l inStatements => lexes.fits l (c.mem_lexemes_of_mem_statements inClass
        inStatements)) acceptable.1 (acceptable.2 s inClass)⟩

/-- A method with a parameter that hides a field, and a variable that takes the name of another
parameter. -/
def hidingMethod : Subroutine :=
  ⟨.method, some .int, "f", [⟨.int, "a"⟩, ⟨.int, "x"⟩], [⟨.int, "a", ["b"]⟩],
    .cons (.letVariable "b" (.chain (.plain "x") .nil))
      (.cons (.returnValue (some (.chain (.plain "a") .nil))) .nil)⟩

/-- The variables that hide others have slots of their own. -/
theorem compileClass_slots_hiding :
    ∃ listing : Listing,
      (compileClass {}
          "class A{field int x;method int f(int a,int x){var int a,b;let b=x;return a;}}".toList
        ).result = .ok listing ∧
      listing.toList =
        [.function "A.f" 2, .push .argument 0, .pop .pointer 0, .push .argument 2, .pop .«local» 1,
          .push .«local» 0, .«return»] ∧
      hidingMethod.UsesSlots ⟨"A", [.field ⟨.int, "x", []⟩], [hidingMethod]⟩ 2
        listing.toList.tail := by
  have compiled := compileClass_of_emitted {}
    "class A{field int x;method int f(int a,int x){var int a,b;let b=x;return a;}}".toList (by cbv)
  have lexes : Lexes
      "class A{field int x;method int f(int a,int x){var int a,b;let b=x;return a;}}".toList
      (ClassTree.mk "A" [.field ⟨.int, "x", []⟩] [hidingMethod]).lexemes :=
    lexes_of_items (by cbv)
  rcases compileClass_slots compiled with ⟨c, -, unique, code, functions⟩
  cases unique _ lexes
  rcases functions 0 hidingMethod (List.mem_singleton.mpr rfl) with ⟨locals, commands, block, uses⟩
  have same : hidingMethod.code {} ⟨"A", [.field ⟨.int, "x", []⟩], [hidingMethod]⟩ 0 =
      [.function "A.f" 2, .push .argument 0, .pop .pointer 0, .push .argument 2, .pop .«local» 1,
        .push .«local» 0, .«return»] := by cbv
  rcases List.cons.inj (same.symm.trans block) with ⟨start, behind⟩
  rw [← (Command.function.inj start).2, ← behind] at uses
  exact ⟨_, compiled, rfl, uses⟩

end Jack
