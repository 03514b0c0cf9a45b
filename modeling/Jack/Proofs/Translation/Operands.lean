import Jack.Proofs.Translation.Pieces

namespace Jack

/-!
# Operands of commands

What the code of statements pushes and pops: constants that the machine can hold, variables at the
places that their names stand for, and four fixed places for the object, the address of an array
element, the element and a value that waits to be stored.  Nothing is popped into a constant.  The
bound on the constants comes from the integers in the source and from the condition on strings.
-/

/-- The places that the code of statements addresses. -/
inductive Addressable (names : Names) : Segment → UInt16 → Prop
  | named {name : String} {v : Symbol} (found : names name = some v) :
    Addressable names v.kind.segment v.index
  | object : Addressable names .pointer 0
  | elementAddress : Addressable names .pointer 1
  | element : Addressable names .that 0
  | scratch : Addressable names .temp 0

/-- The operand of the command, if it has one, is a constant of the machine or a place. -/
def Command.Fits (names : Names) : Command → Prop
  | push .constant n => n.toNat ≤ maxInt
  | push segment i => Addressable names segment i
  | pop segment i => Addressable names segment i
  | _ => True

/-- An integer that the machine can hold. -/
def Lexeme.Fits : Lexeme → Prop
  | integer digits => Token.decimal digits.toList ≤ maxInt
  | _ => True

/-- A number stays below a limit, whether it is cut or not. -/
theorem toNat_ofNat_le {n largest : Nat} (le : n ≤ largest) : (UInt16.ofNat n).toNat ≤ largest :=
  Nat.le_trans (Nat.mod_le n _) le

/-! ## Pieces of code -/

variable {names : Names}

/-- The slot of a variable fits by being its slot. -/
theorem Command.fits_push_variable {name : String} {v : Symbol} (found : names name = some v) :
    (Command.push v.kind.segment v.index).Fits names := by
  have place := Addressable.named found
  cases kind : v.kind <;> rw [kind] at place <;> exact place

/-- The length of a string and its characters fit if the string does. -/
theorem stringCommands_fits {characters : List Char} (fits : FitsMachine characters) :
    ∀ command ∈ stringCommands characters, command.Fits names := by
  refine List.forall_mem_cons.mpr ⟨toNat_ofNat_le fits.1, List.forall_mem_cons.mpr ⟨trivial, ?_⟩⟩
  intro command member
  rcases List.mem_flatMap.mp member with ⟨c, inText, member⟩
  have append : ∀ command ∈ [Command.push .constant (UInt16.ofNat c.toNat),
      .call "String.appendChar" 2], command.Fits names :=
    List.forall_mem_cons.mpr
      ⟨toNat_ofNat_le (fits.2 c inText), List.forall_mem_singleton.mpr trivial⟩
  exact append command member

/-- Operators have two operands, and their routines are told so. -/
theorem BinaryOperator.command_fits (o : BinaryOperator) : o.command.Fits names := by
  cases o <;> exact trivial

theorem UnaryOperator.command_fits (o : UnaryOperator) : o.command.Fits names := by
  cases o <;> exact trivial

/-- Constant words are made of zero. -/
theorem KeywordConstant.commands_fits (k : KeywordConstant) :
    ∀ command ∈ k.commands, command.Fits names := by
  cases k with
  | true =>
      exact List.forall_mem_cons.mpr ⟨(by decide : (1 : UInt16).toNat ≤ maxInt),
        List.forall_mem_singleton.mpr trivial⟩
  | false => exact List.forall_mem_singleton.mpr (by decide : (0 : UInt16).toNat ≤ maxInt)
  | null => exact List.forall_mem_singleton.mpr (by decide : (0 : UInt16).toNat ≤ maxInt)
  | this => exact List.forall_mem_singleton.mpr .object

theorem loadCommands_fits : ∀ command ∈ loadCommands, command.Fits names :=
  List.forall_mem_cons.mpr ⟨.elementAddress, List.forall_mem_singleton.mpr .element⟩

theorem storeCommands_fits : ∀ command ∈ storeCommands, command.Fits names :=
  List.forall_mem_cons.mpr ⟨.scratch, List.forall_mem_cons.mpr ⟨.elementAddress,
    List.forall_mem_cons.mpr ⟨.scratch, List.forall_mem_singleton.mpr .element⟩⟩⟩

/-- The operands of pieces are in range, if the integers of the source are. -/
theorem CodePiece.fits {f : Frame} {command : Command}
    (piece : CodePiece names f Lexeme.Fits command) : command.Fits names := by
  cases piece with
  | integer isThere => exact toNat_ofNat_le isThere
  | string fits member => exact stringCommands_fits fits command member
  | constant member => exact KeywordConstant.commands_fits _ command member
  | unary o => exact o.command_fits
  | binary o => exact o.command_fits
  | read found => exact Command.fits_push_variable found
  | write found => exact .named found
  | load member => exact loadCommands_fits command member
  | store member => exact storeCommands_fits command member
  | object => exact .object
  | discard => exact .scratch
  | address => exact trivial
  | call areThere arguments => exact trivial
  | condition => exact trivial
  | label l => exact trivial
  | goto l => exact trivial
  | ifGoto l => exact trivial
  | finish => exact trivial

/-! ## Subroutines -/

/-- Besides its prologue, a subroutine pushes and pops what its statements do. -/
theorem Subroutine.code_fits (options : Options) {c : ClassTree} {s : Subroutine} (n : Nat)
    (integers : ∀ l ∈ s.statements.lexemes, l.Fits)
    (acceptable : s.statements.Acceptable (c.namesIn s)) :
    ∀ command ∈ s.inner options c n,
      command ∈ s.prologue c ∨ command.Fits (c.namesIn s) := by
  intro command member
  rcases List.mem_append.mp member with inPrologue | behind
  · exact .inl inPrologue
  refine .inr ?_
  rcases List.mem_append.mp behind with inStatements | behind
  · exact (s.statements.code_pieces _ _ integers acceptable command inStatements).fits
  rcases List.mem_append.mp behind with isLabel | closing
  · split at isLabel
    · rw [List.mem_singleton.mp isLabel]
      exact trivial
    · cases isLabel
  · unfold Subroutine.closing at closing
    split at closing
    · rw [List.mem_singleton.mp closing]
      exact (by decide : (0 : UInt16).toNat ≤ maxInt)
    · cases closing

end Jack
