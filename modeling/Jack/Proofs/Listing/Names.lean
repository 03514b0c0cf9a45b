import Jack.Proofs.Lexer.Printing
import Jack.Proofs.Listing.Reader
import Jack.Proofs.Names.Slots
import Jack.Proofs.Names.Written
import Jack.Proofs.Translation.Pieces

namespace Jack

/-!
# The names in a listing

Every name in compiled code is put together from words: a label is one word, and a routine is called
by the name of its class, a dot and its own name.  The words come from the identifiers of the
source, from the reserved words for types, from the routines that the compiler calls by itself and
from the stems of the labels.  None of them holds a dot, a space or a line feed.
-/

/-- Letters, digits and underscores, with no digit in front. -/
structure IsWord (text : String) : Prop where
  begins : ∃ first ∈ text.toList.head?, isLetter first = true
  goesOn : ∀ c ∈ text.toList, isWordCharacter c = true

instance (text : String) : Decidable (IsWord text) :=
  decidable_of_iff
    (text.toList.head?.any isLetter = true ∧ text.toList.all isWordCharacter = true)
    ⟨fun ⟨begins, goesOn⟩ => ⟨(Option.any_eq_true _ _).mp begins, List.all_eq_true.mp goesOn⟩,
      fun word => ⟨(Option.any_eq_true _ _).mpr word.begins, List.all_eq_true.mpr word.goesOn⟩⟩

/-- The name of a class, a dot and the name of a subroutine. -/
def IsRoutineName (name : String) : Prop :=
  ∃ className member, IsWord className ∧ IsWord member ∧ name = className ++ "." ++ member

/-- Labels are words, and routines have routine names. -/
def Command.WellNamed : Command → Prop
  | label name | goto name | ifGoto name => IsWord name
  | call name _ | function name _ => IsRoutineName name
  | push _ _ | pop _ _ | arithmetic _ | «return» => True

/-! ## Words -/

/-- A word has a first letter. -/
theorem IsWord.notEmpty {text : String} (word : IsWord text) : text ≠ "" := by
  rintro rfl
  rcases word.begins with ⟨first, isFirst, -⟩
  cases isFirst

/-- What is no letter, digit or underscore does not stand in a word. -/
theorem IsWord.not_mem {text : String} (word : IsWord text) {c : Char}
    (other : isWordCharacter c = false) : c ∉ text.toList := by
  intro member
  rw [word.goesOn c member] at other
  cases other

/-- A word holds no space and no line feed, so that it can be read back from a line. -/
theorem IsWord.isPlainWord {text : String} (word : IsWord text) : IsPlainWord text where
  notEmpty := word.notEmpty
  noSpace := word.not_mem (by decide)
  noLineFeed := word.not_mem (by decide)

/-- The dot in the name of a routine does no harm to reading it back. -/
theorem IsRoutineName.isPlainWord {name : String} (isName : IsRoutineName name) :
    IsPlainWord name := by
  rcases isName with ⟨className, member, classWord, memberWord, rfl⟩
  have apart {c : Char} (other : isWordCharacter c = false) (noDot : c ∉ ".".toList) :
      c ∉ (className ++ "." ++ member).toList := by
    simp only [String.toList_append, List.mem_append, classWord.not_mem other,
      memberWord.not_mem other, noDot, or_self, not_false_eq_true]
  constructor
  · intro empty
    have front := (String.append_eq_empty_iff.mp empty).1
    exact classWord.notEmpty (String.append_eq_empty_iff.mp front).1
  · exact apart (by decide) (by decide)
  · exact apart (by decide) (by decide)

/-- Commands with such names can be read back from their lines. -/
theorem Command.WellNamed.isPlain {c : Command} (wellNamed : c.WellNamed) : c.IsPlain := by
  intro name isName
  cases c with
  | label text | goto text | ifGoto text =>
      cases isName
      exact IsWord.isPlainWord wellNamed
  | call text number | function text number =>
      cases isName
      exact IsRoutineName.isPlainWord wellNamed
  | _ => cases isName

/-- A command without a name has nothing to be named badly. -/
theorem Command.wellNamed_of_nameless {c : Command} (nameless : c.name? = none) :
    c.WellNamed := by
  cases c with
  | label name | goto name | ifGoto name | call name number | function name number =>
      cases nameless
  | _ => exact trivial

/-- The text of an identifier is a word. -/
theorem IsTextOf.isWord {kind : TokenKind} {text : String} (isText : IsTextOf kind text.toList)
    (isIdentifier : kind = .identifier) : IsWord text := by
  generalize characters : text.toList = given at isText
  cases isText with
  | @identifier first more letter word notReserved =>
      constructor
      · exact ⟨first, by rw [characters]; rfl, letter⟩
      · rw [characters]
        exact List.forall_mem_cons.mpr ⟨by rw [isWordCharacter, letter, Bool.true_or], word⟩
  | _ => cases isIdentifier

/-- A label is its stem and a number, which make a word. -/
theorem LabelName.isWord_text (l : LabelName) : IsWord l.text := by
  have stem : ∀ f : LabelFamily, IsWord f.stem := by
    intro f
    cases f <;> decide
  constructor
  · rcases (stem l.family).begins with ⟨first, isFirst, letter⟩
    refine ⟨first, ?_, letter⟩
    rw [text, String.toList_append, List.head?_append, Option.mem_def.mp isFirst, Option.some_or]
    rfl
  · rw [text, String.toList_append, List.forall_mem_append]
    refine ⟨(stem l.family).goesOn, fun c member => ?_⟩
    rw [Nat.toList_repr] at member
    rw [isWordCharacter, Nat.isDigit_of_mem_toDigits (by decide) (by decide) member, Bool.or_true]

/-! ## Declared types -/

/-- If the lexeme is an identifier, it is a word. -/
def Lexeme.HasWord : Lexeme → Prop
  | identifier name => IsWord name
  | _ => True

/-- The text of a type is a word, whether it is reserved or names a class. -/
theorem TypeName.isWord_text {type : TypeName} (word : type.lexeme.HasWord) :
    IsWord type.text := by
  cases type with
  | int => decide
  | char => decide
  | boolean => decide
  | named className => exact word

/-- The type of a declaration that is written among words is a word. -/
theorem Declaration.WrittenIn.isWord_type {lexemes : List Lexeme} {d : Declaration}
    (written : d.WrittenIn lexemes) (words : ∀ l ∈ lexemes, l.HasWord) : IsWord d.type := by
  rcases written.type with ⟨type, text, isThere⟩
  rw [text]
  exact TypeName.isWord_text (words _ isThere)

theorem ClassTree.isWord_name {c : ClassTree} (words : ∀ l ∈ c.lexemes, l.HasWord) :
    IsWord c.name :=
  words (.identifier c.name) (List.mem_cons_of_mem _ List.mem_cons_self)

/-- The types of the variables of a subroutine.  The object of a method is of its class. -/
theorem Subroutine.isWord_type {s : Subroutine} {className : String} {d : Declaration}
    (ofClass : IsWord className) (words : ∀ l ∈ s.lexemes, l.HasWord)
    (member : d ∈ s.declarations className) : IsWord d.type := by
  rw [s.declarations_eq] at member
  rcases List.mem_append.mp member with isReceiver | isOwn
  · cases kind : s.kind <;> rw [kind] at isReceiver
    case method =>
      rw [List.mem_singleton.mp isReceiver]
      exact ofClass
    all_goals cases isReceiver
  · exact (writtenIn_of_mem isOwn).isWord_type words

/-- The type of a symbol is that of the declaration it comes from. -/
theorem isWord_type_of_latest? {declarations : List Declaration} {name : String} {v : Symbol}
    (words : ∀ d ∈ declarations, IsWord d.type) (found : latest? declarations name = some v) :
    IsWord v.type := by
  rcases exists_split_of_latest? found with ⟨before, d, after, rfl, -, rfl, -⟩
  exact words d (List.mem_append_right before List.mem_cons_self)

/-- The types of all visible variables are words. -/
theorem ClassTree.isWord_type_of_namesIn {c : ClassTree} {s : Subroutine} {name : String}
    {v : Symbol} (words : ∀ l ∈ c.lexemes, l.HasWord) (inClass : s ∈ c.subroutines)
    (found : c.namesIn s name = some v) : IsWord v.type := by
  rcases namesIn_eq_some_iff.mp found with inner | ⟨-, outer⟩
  · refine isWord_type_of_latest? (fun d member => ?_) inner
    exact s.isWord_type (isWord_name words)
      (fun l isThere => words l (mem_lexemes_of_mem_subroutines inClass isThere)) member
  · exact isWord_type_of_latest? (fun d member => (writtenIn_of_mem member).isWord_type words) outer

/-! ## Code -/

/-- What is called has the name of a class in front of its dot: the own one, the one that is written
there, or the type of the object.  The type may be a reserved word, as in calling a method of an
`int`; the machine has no routine of that name, but it can be written. -/
theorem CallTarget.isRoutineName {names : Names} {className : String} {target : CallTarget}
    (ofClass : IsWord className) (types : ∀ name, ∀ v ∈ names name, IsWord v.type)
    (words : ∀ l ∈ target.lexemes, l.HasWord) :
    IsRoutineName (target.routine names className) := by
  cases target with
  | own name => exact ⟨className, name, ofClass, words _ List.mem_cons_self, rfl⟩
  | qualified object member =>
      simp only [CallTarget.lexemes, List.forall_mem_cons] at words
      rcases words with ⟨objectWord, -, memberWord, -⟩
      cases found : names object with
      | some v =>
          simp only [routine, found]
          exact ⟨v.type, member, types object v found, memberWord, rfl⟩
      | none =>
          simp only [routine, found]
          exact ⟨object, member, objectWord, memberWord, rfl⟩

/-- The routines for strings are named as routines are. -/
theorem stringCommands_wellNamed (characters : List Char) :
    ∀ command ∈ stringCommands characters, command.WellNamed := by
  have newString : IsRoutineName "String.new" :=
    ⟨"String", "new", by decide, by decide, by decide⟩
  have append : IsRoutineName "String.appendChar" :=
    ⟨"String", "appendChar", by decide, by decide, by decide⟩
  refine List.forall_mem_cons.mpr ⟨trivial, List.forall_mem_cons.mpr ⟨newString, ?_⟩⟩
  intro command member
  rcases List.mem_flatMap.mp member with ⟨c, -, inPair⟩
  have pair : ∀ command ∈ [Command.push .constant (UInt16.ofNat c.toNat),
      .call "String.appendChar" 2], command.WellNamed :=
    List.forall_mem_cons.mpr ⟨trivial, List.forall_mem_singleton.mpr append⟩
  exact pair command inPair

/-- The commands for a constant word have no names. -/
theorem KeywordConstant.commands_nameless (k : KeywordConstant) :
    ∀ command ∈ k.commands, command.name? = none := by
  cases k <;> decide

/-- The routines for `*` and `/` are named as routines are; the other operators are commands of the
machine. -/
theorem BinaryOperator.command_wellNamed (o : BinaryOperator) : o.command.WellNamed := by
  cases o with
  | multiply => exact ⟨"Math", "multiply", by decide, by decide, by decide⟩
  | divide => exact ⟨"Math", "divide", by decide, by decide, by decide⟩
  | _ => exact trivial

/-- The names of pieces are in order, if those of the class and its variables are. -/
theorem CodePiece.wellNamed {names : Names} {f : Frame} {command : Command}
    (ofClass : IsWord f.className) (ofEnd : IsWord f.endLabel)
    (types : ∀ name, ∀ v ∈ names name, IsWord v.type)
    (piece : CodePiece names f Lexeme.HasWord command) : command.WellNamed := by
  cases piece with
  | string fits member => exact stringCommands_wellNamed _ command member
  | binary o => exact o.command_wellNamed
  | call areThere arguments => exact CallTarget.isRoutineName ofClass types areThere
  | label l => exact l.isWord_text
  | goto l => exact l.isWord_text
  | ifGoto l => exact l.isWord_text
  | finish => exact ofEnd
  | constant member =>
      exact Command.wellNamed_of_nameless (KeywordConstant.commands_nameless _ command member)
  | unary o => cases o <;> exact trivial
  | load member =>
      have nameless : ∀ command ∈ loadCommands, command.name? = none := by decide
      exact Command.wellNamed_of_nameless (nameless command member)
  | store member =>
      have nameless : ∀ command ∈ storeCommands, command.name? = none := by decide
      exact Command.wellNamed_of_nameless (nameless command member)
  | integer isThere => exact trivial
  | read found => exact trivial
  | write found => exact trivial
  | object => exact trivial
  | discard => exact trivial
  | address => exact trivial
  | condition => exact trivial

/-- The routine that allocates an object is named as routines are. -/
theorem Subroutine.prologue_wellNamed (c : ClassTree) (s : Subroutine) :
    ∀ command ∈ s.prologue c, command.WellNamed := by
  unfold Subroutine.prologue
  cases s.kind with
  | constructor =>
      have allocate : IsRoutineName Code.allocateRoutine :=
        ⟨"Memory", "alloc", by decide, by decide, by decide⟩
      exact List.forall_mem_cons.mpr ⟨trivial, List.forall_mem_cons.mpr
        ⟨allocate, List.forall_mem_singleton.mpr trivial⟩⟩
  | method => exact List.forall_mem_cons.mpr ⟨trivial, List.forall_mem_singleton.mpr trivial⟩
  | function => exact List.forall_mem_nil _

namespace ClassTree

variable {options : Options} {c : ClassTree} {s : Subroutine}

/-- All commands of an acceptable subroutine are well named, if the identifiers of its class are
words. -/
theorem subroutine_wellNamed (n : Nat) (words : ∀ l ∈ c.lexemes, l.HasWord)
    (inClass : s ∈ c.subroutines) (acceptable : s.Acceptable options c) :
    ∀ command ∈ s.code options c n, command.WellNamed := by
  have ofClass := isWord_name words
  have ofEnd : IsWord (Code.endLabel n) := (LabelName.mk .finish n).isWord_text
  have start : (s.start c).WellNamed :=
    ⟨c.name, s.name, ofClass, words (.identifier s.name) (mem_lexemes_of_mem_subroutines inClass
      (List.mem_cons_of_mem _ (List.mem_cons_of_mem _ List.mem_cons_self))), rfl⟩
  have statements : ∀ command ∈
      s.statements.code (c.namesIn s) (c.frame options n) options.foldTailReturn (n + 1),
      command.WellNamed := fun command member =>
    (s.statements.code_pieces _ _ (fun l isThere =>
      words l (mem_lexemes_of_mem_statements inClass isThere))
        acceptable.2 command member).wellNamed
        ofClass ofEnd (fun name v found => isWord_type_of_namesIn words inClass found)
  have label : ∀ command ∈ (if s.labelled options then [Command.label (Code.endLabel n)] else []),
      command.WellNamed := by
    split
    · exact List.forall_mem_singleton.mpr ofEnd
    · exact List.forall_mem_nil _
  have closing : ∀ command ∈ s.closing, command.WellNamed := by
    unfold Subroutine.closing
    split
    · exact List.forall_mem_singleton.mpr trivial
    · exact List.forall_mem_nil _
  simp only [s.code_eq_inner, Subroutine.inner, List.forall_mem_cons, List.forall_mem_append]
  exact ⟨start, ⟨s.prologue_wellNamed c, statements, label, closing⟩, trivial,
    List.forall_mem_nil _⟩

/-- All names in the code of an acceptable class are in order, if its identifiers are words. -/
theorem code_wellNamed (words : ∀ l ∈ c.lexemes, l.HasWord) (acceptable : c.Acceptable options) :
    ∀ command ∈ c.code options, command.WellNamed := by
  intro command member
  rw [c.code_eq_flatMap] at member
  rcases List.mem_flatMap.mp member with ⟨⟨n, s⟩, isBlock, inCode⟩
  have inClass := mem_of_numbered isBlock
  exact subroutine_wellNamed n words inClass (acceptable.2 s inClass) command inCode

end ClassTree

end Jack
