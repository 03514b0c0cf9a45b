import Jack.Machine.Listing
import Jack.Token.Basic

namespace Jack

/-!
# Reading listings

The text of a listing can be read back without knowing how it came about: it is split at line feeds,
each line is split at spaces, and the first word of a line tells how to read the others.  Only the
names of labels and routines are free, so nothing is lost as long as no name holds a space or a line
feed (`Listing.read?_text`).
-/

/-! ## Words -/

/-- The number of sixteen bits that a word writes in decimal digits. -/
def readNumber? (word : String) : Option UInt16 :=
  let digits := word.toList
  if digits ≠ [] ∧ digits.all Char.isDigit ∧ Token.decimal digits < UInt16.size then
    some (UInt16.ofNat (Token.decimal digits))
  else none

/-- The value of digits is the one that the library gives them. -/
theorem decimal_eq_ofDigitChars (digits : List Char) :
    Token.decimal digits = Nat.ofDigitChars 10 digits 0 := by
  unfold Token.decimal Nat.ofDigitChars
  simp only [Nat.mul_comm 10]

/-- A number is read back from its digits. -/
theorem readNumber?_toString (n : UInt16) : readNumber? (toString n.toNat) = some n := by
  have digits : (toString n.toNat).toList = Nat.toDigits 10 n.toNat := Nat.toList_repr
  have value : Token.decimal (Nat.toDigits 10 n.toNat) = n.toNat := by
    rw [decimal_eq_ofDigitChars, Nat.ofDigitChars_ten_toDigits]
  have areDigits : (Nat.toDigits 10 n.toNat).all Char.isDigit = true :=
    List.all_eq_true.mpr fun c member => Nat.isDigit_of_mem_toDigits (by decide) (by decide) member
  simp only [readNumber?, digits, value, areDigits]
  rw [if_pos ⟨Nat.toDigits_ne_nil, trivial, n.toNat_lt_size⟩, UInt16.ofNat_toNat]

/-- A segment is read back from its text by the table of texts, which is written apart from the one
for printing. -/
theorem Segment.ofText_text (s : Segment) : ofText s.text = .ok s := by
  rw [ofText, ofText?_eq_some_iff.mpr rfl]

/-- An operation is read back from its text by the table of texts, which is written apart from the
one for printing. -/
theorem Operation.ofText_text (o : Operation) : ofText o.text = .ok o := by
  rw [ofText, ofText?_eq_some_iff.mpr rfl]

/-! ## Lines -/

namespace Command

/-- The command that words tell. -/
def ofWords? : List String → Option Command
  | ["push", segment, index] => do
    return push (← (Segment.ofText segment).toOption) (← readNumber? index)
  | ["pop", segment, index] => do
    return pop (← (Segment.ofText segment).toOption) (← readNumber? index)
  | ["label", name] => some (label name)
  | ["goto", name] => some (goto name)
  | ["if-goto", name] => some (ifGoto name)
  | ["call", name, arguments] => (readNumber? arguments).map (call name)
  | ["function", name, locals] => (readNumber? locals).map (function name)
  | ["return"] => some «return»
  | [operation] => (Operation.ofText operation).toOption.map arithmetic
  | _ => none

/-- A command is read back from its words.  Its names may be any texts here; it is lines that need
plain words. -/
theorem ofWords?_words (c : Command) : ofWords? c.words = some c := by
  cases c with
  | push segment index =>
      simp only [words, ofWords?, Segment.ofText_text, readNumber?_toString]
      rfl
  | pop segment index =>
      simp only [words, ofWords?, Segment.ofText_text, readNumber?_toString]
      rfl
  | arithmetic operation =>
      have notReturn : operation.text ≠ "return" := by
        cases operation <;> decide
      rw [words, ofWords?, Operation.ofText_text]
      · rfl
      · exact notReturn
  | label name => rfl
  | goto name => rfl
  | ifGoto name => rfl
  | call name arguments => simp only [words, ofWords?, readNumber?_toString, Option.map_some]
  | function name locals => simp only [words, ofWords?, readNumber?_toString, Option.map_some]
  | «return» => rfl

/-- The command on a line. -/
def read? (line : List Char) : Option Command :=
  ofWords? ((line.splitOn ' ').map String.ofList)

end Command

/-! ## Plain words -/

/-- A word that is not torn where its line is split, and that does not vanish there. -/
structure IsPlainWord (word : String) : Prop where
  notEmpty : word ≠ ""
  noSpace : ' ' ∉ word.toList
  noLineFeed : '\n' ∉ word.toList

instance (word : String) : Decidable (IsPlainWord word) :=
  decidable_of_iff (word ≠ "" ∧ ' ' ∉ word.toList ∧ '\n' ∉ word.toList)
    ⟨fun ⟨notEmpty, noSpace, noLineFeed⟩ => ⟨notEmpty, noSpace, noLineFeed⟩,
      fun plain => ⟨plain.notEmpty, plain.noSpace, plain.noLineFeed⟩⟩

/-- Digits are no spaces. -/
theorem isPlainWord_number (n : Nat) : IsPlainWord (toString n) := by
  have digits : (toString n).toList = Nat.toDigits 10 n := Nat.toList_repr
  have isDigit : ∀ c ∈ (toString n).toList, c.isDigit = true := fun c member =>
    Nat.isDigit_of_mem_toDigits (by decide) (by decide) (digits ▸ member)
  constructor
  · intro empty
    rw [empty] at digits
    exact Nat.toDigits_ne_nil digits.symm
  · exact fun member => absurd (isDigit ' ' member) (by decide)
  · exact fun member => absurd (isDigit '\n' member) (by decide)

theorem Segment.isPlainWord_text (s : Segment) : IsPlainWord s.text := by
  cases s <;> decide

theorem Operation.isPlainWord_text (o : Operation) : IsPlainWord o.text := by
  cases o <;> decide

/-- What stands in a text that is put together stands in one of its parts or separates them. -/
theorem mem_or_mem_of_mem_intercalate {c : Char} {separator : List Char}
    {parts : List (List Char)} (member : c ∈ separator.intercalate parts) :
    c ∈ separator ∨ ∃ part ∈ parts, c ∈ part := by
  induction parts with
  | nil => cases member
  | cons first rest inductionHypothesis =>
      cases rest with
      | nil => exact .inr ⟨first, List.mem_singleton_self first, by simpa using member⟩
      | cons second rest =>
          rw [List.intercalate_cons_cons, List.mem_append, List.mem_append] at member
          rcases member with (inFirst | inSeparator) | inRest
          · exact .inr ⟨first, List.mem_cons_self, inFirst⟩
          · exact .inl inSeparator
          · rcases inductionHypothesis inRest with inSeparator | ⟨part, inParts, inPart⟩
            · exact .inl inSeparator
            · exact .inr ⟨part, List.mem_cons_of_mem first inParts, inPart⟩

namespace Command

/-- The label or routine that a command names. -/
def name? : Command → Option String
  | label name | goto name | ifGoto name | call name _ | function name _ => some name
  | push _ _ | pop _ _ | arithmetic _ | «return» => none

/-- If the command has a name, the name is a plain word. -/
def IsPlain (c : Command) : Prop := ∀ name ∈ c.name?, IsPlainWord name

instance (c : Command) : Decidable c.IsPlain :=
  inferInstanceAs (Decidable (∀ name ∈ c.name?, IsPlainWord name))

/-- The words of a command are plain if its names are. -/
theorem IsPlain.words {c : Command} (plain : c.IsPlain) : ∀ word ∈ c.words, IsPlainWord word := by
  cases c with
  | push segment index | pop segment index =>
      simp only [Command.words, List.forall_mem_cons]
      exact ⟨by decide, segment.isPlainWord_text, isPlainWord_number _, List.forall_mem_nil _⟩
  | arithmetic operation =>
      simp only [Command.words, List.forall_mem_cons]
      exact ⟨operation.isPlainWord_text, List.forall_mem_nil _⟩
  | label name | goto name | ifGoto name =>
      simp only [Command.words, List.forall_mem_cons]
      exact ⟨by decide, plain name rfl, List.forall_mem_nil _⟩
  | call name number | function name number =>
      simp only [Command.words, List.forall_mem_cons]
      exact ⟨by decide, plain name rfl, isPlainWord_number _, List.forall_mem_nil _⟩
  | «return» => decide

/-- Every command has a first word. -/
theorem words_ne_nil (c : Command) : c.words ≠ [] := by
  cases c <;> exact List.cons_ne_nil _ _

/-- The text of a command has one space between two words. -/
theorem toList_text (c : Command) : c.text.toList = [' '].intercalate (c.words.map String.toList) :=
  String.toList_intercalate

/-- A command is read back from its line. -/
theorem IsPlain.read?_text {c : Command} (plain : c.IsPlain) : read? c.text.toList = some c := by
  have apart : ∀ word ∈ c.words.map String.toList, ' ' ∉ word := by
    intro word member
    rcases List.mem_map.mp member with ⟨word, inWords, rfl⟩
    exact (plain.words word inWords).noSpace
  have read : c.text.toList.splitOn ' ' = c.words.map String.toList := by
    rw [toList_text, List.splitOn_intercalate ' ' apart (by simpa using c.words_ne_nil)]
  rw [read?, read, List.map_map, String.ofList_comp_toList, List.map_id, ofWords?_words]

/-- A command is written on one line. -/
theorem IsPlain.not_mem_text {c : Command} (plain : c.IsPlain) : '\n' ∉ c.text.toList := by
  intro member
  rw [toList_text] at member
  rcases mem_or_mem_of_mem_intercalate member with isSpace | ⟨characters, isWord, inWord⟩
  · exact absurd isSpace (by decide)
  · rcases List.mem_map.mp isWord with ⟨word, inWords, rfl⟩
    exact (plain.words word inWords).noLineFeed inWord

end Command

/-! ## Listings -/

namespace Listing

/-- The listing with a given text, in which a line feed stands behind every command. -/
def read? (text : String) : Option Listing :=
  let lines := text.toList.splitOn '\n'
  if lines.getLast? = some [] then (lines.dropLast.mapM Command.read?).map List.toArray else none

/-- The text of a listing has a line feed behind each command, the last one included. -/
theorem toList_text (listing : Listing) :
    listing.text.toList = ['\n'].intercalate (listing.toList.map (·.text.toList) ++ [[]]) := by
  have behind : ∀ (commands : List Command) (written : String),
      (commands.foldl (fun written c => written ++ c.text ++ "\n") written).toList =
        written.toList ++ ['\n'].intercalate (commands.map (·.text.toList) ++ [[]]) := by
    intro commands
    induction commands with
    | nil => intro written; simp
    | cons c commands inductionHypothesis =>
        intro written
        rw [List.foldl_cons, inductionHypothesis]
        cases commands <;> simp [List.intercalate_cons_cons]
  rw [text, ← Array.foldl_toList, behind]
  rfl

/-- Every listing of plain commands is read back from its text. -/
theorem read?_text {listing : Listing} (plain : ∀ c ∈ listing, c.IsPlain) :
    read? listing.text = some listing := by
  have lines : listing.text.toList.splitOn '\n' = listing.toList.map (·.text.toList) ++ [[]] := by
    rw [toList_text]
    refine List.splitOn_intercalate '\n' (fun line member => ?_) (by simp)
    rcases List.mem_append.mp member with inLines | isLast
    · rcases List.mem_map.mp inLines with ⟨c, inListing, rfl⟩
      exact (plain c (Array.mem_toList_iff.mp inListing)).not_mem_text
    · rw [List.mem_singleton.mp isLast]
      exact List.not_mem_nil
  have commands : ∀ (written : List Command), (∀ c ∈ written, c.IsPlain) →
      (written.map (·.text.toList)).mapM Command.read? = some written := by
    intro written plain
    induction written with
    | nil => rfl
    | cons c rest inductionHypothesis =>
        rcases List.forall_mem_cons.mp plain with ⟨first, others⟩
        rw [List.map_cons, List.mapM_cons, first.read?_text, inductionHypothesis others]
        rfl
  simp only [read?, lines, List.getLast?_concat, if_pos, List.dropLast_concat]
  rw [commands listing.toList fun c member => plain c (Array.mem_toList_iff.mp member),
    Option.map_some, Array.toArray_toList]

end Listing

end Jack
