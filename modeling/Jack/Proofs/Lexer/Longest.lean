import Jack.Proofs.Lexer.Gap
import Jack.Token.Lexer
import Mathlib.Data.List.TakeWhile

namespace Jack

/-!
# The longest token

What the lexer may find behind a gap: a token that the text behind it does not carry on, one of five
faults, or the end of the source.  One of them is always there (`exists_reading`), and reading gives
exactly what is there (`Cursor.next_of_token`, `Cursor.next_of_end`, `Cursor.next_of_fault`).
-/

/-- A token with a given text, in front of the text `rest` by which it is ended. -/
inductive LongestToken (rest : List Char) : TokenKind → List Char → Prop
  /-- A slash that opens a comment is no token. -/
  | symbol (p : Punctuation) (alone : p = .slash → ∀ c ∈ rest.head?, c ≠ '/' ∧ c ≠ '*') :
    LongestToken rest (.symbol p) [p.char]
  | keyword (k : Keyword) (ends : Ends isWordCharacter rest) :
    LongestToken rest (.keyword k) k.text.toList
  | identifier {first : Char} {more : List Char} (letter : isLetter first = true)
    (word : ∀ c ∈ more, isWordCharacter c = true)
    (notReserved : ∀ k : Keyword, k.text.toList ≠ first :: more)
    (ends : Ends isWordCharacter rest) : LongestToken rest .identifier (first :: more)
  /-- Leading zeros are allowed. -/
  | integer {first : Char} {more : List Char} (digits : ∀ c ∈ first :: more, c.isDigit = true)
    (ends : Ends Char.isDigit rest) (fits : Token.decimal (first :: more) ≤ maxInt) :
    LongestToken rest .integer (first :: more)
  | string {body : List Char} (inside : ∀ c ∈ body, isStringCharacter c = true) :
    LongestToken rest .string ('"' :: (body ++ ['"']))

/-- A character with which a token, a gap or a string begins. -/
def isKnown (c : Char) : Bool :=
  isBlank c || c = '"' || isLetter c || c.isDigit || (Punctuation.ofChar? c).isSome

/-- A text that begins with a fault. -/
inductive Faulty : LexicalFault → List Char → Prop
  | unknownCharacter {c : Char} (unknown : isKnown c = false) (rest : List Char) :
    Faulty (.unknownCharacter c) (c :: rest)
  | unterminatedString {body : List Char} (inside : ∀ c ∈ body, isStringCharacter c = true) :
    Faulty .unterminatedString ('"' :: body)
  | newlineInString {body : List Char} (inside : ∀ c ∈ body, isStringCharacter c = true)
    {lineEnd : Char} (isEnd : isLineEnd lineEnd = true) (rest : List Char) :
    Faulty .newlineInString ('"' :: (body ++ lineEnd :: rest))
  | unterminatedComment {body : List Char} (unclosed : ¬ Closes body) :
    Faulty .unterminatedComment ('/' :: '*' :: body)
  | integerOverflow {first : Char} {more rest : List Char}
    (digits : ∀ c ∈ first :: more, c.isDigit = true) (ends : Ends Char.isDigit rest)
    (large : maxInt < Token.decimal (first :: more)) :
    Faulty .integerOverflow (first :: more ++ rest)

/-! ## Runs of characters -/

/-- A run of characters of one kind is taken up to its end. -/
theorem Ends.takeWhile_append {p : Char → Bool} {run rest : List Char} (ends : Ends p rest)
    (inside : ∀ c ∈ run, p c = true) : (run ++ rest).takeWhile p = run := by
  rw [List.takeWhile_append_of_pos inside]
  cases rest with
  | nil => rw [List.takeWhile_nil, List.append_nil]
  | cons c rest =>
      rw [List.takeWhile_cons_of_neg (Bool.eq_false_iff.mp (ends_cons.mp ends)), List.append_nil]

/-- What is dropped with a run ends where the run does. -/
theorem Ends.dropWhile_append {p : Char → Bool} {run rest : List Char} (ends : Ends p rest)
    (inside : ∀ c ∈ run, p c = true) : (run ++ rest).dropWhile p = rest := by
  rw [List.dropWhile_append_of_pos inside]
  cases rest with
  | nil => rw [List.dropWhile_nil]
  | cons c rest => rw [List.dropWhile_cons_of_neg (Bool.eq_false_iff.mp (ends_cons.mp ends))]

/-- A text consists of its longest run and what ends it. -/
theorem exists_run (p : Char → Bool) (text : List Char) :
    ∃ run rest, text = run ++ rest ∧ (∀ c ∈ run, p c = true) ∧ Ends p rest := by
  refine ⟨text.takeWhile p, text.dropWhile p, List.takeWhile_append_dropWhile.symm,
    fun c member => List.mem_takeWhile_imp member, fun c member => ?_⟩
  have stops := List.head?_dropWhile_not p text
  rw [Option.mem_def] at member
  rwa [member] at stops

/-! ## Kinds of first characters -/

/-- No letter, digit or symbol is blank. -/
theorem isBlank_eq_false {p : Char → Bool}
    (none : [' ', '\t', '\n', '\r', '\u00A0', '\uFEFF'].any p = false) {c : Char}
    (holds : p c = true) : isBlank c = false := by
  rw [Bool.eq_false_iff]
  intro blank
  simp only [isBlank, Bool.or_eq_true, decide_eq_true_eq] at blank
  have member : c ∈ [' ', '\t', '\n', '\r', '\u00A0', '\uFEFF'] := by
    rcases blank with ((((rfl | rfl) | rfl) | rfl) | rfl) | rfl <;> decide
  exact List.any_eq_false.mp none c member holds

/-- A letter is no quote, no slash and no blank, so that none of the earlier branches of the lexer
takes it. -/
theorem isLetter_kinds {c : Char} (letter : isLetter c = true) :
    c ≠ '"' ∧ c ≠ '/' ∧ isBlank c = false := by
  refine ⟨?_, ?_, isBlank_eq_false (by decide) letter⟩
  · rintro rfl
    exact absurd letter (by decide)
  · rintro rfl
    exact absurd letter (by decide)

/-- A digit is none of the characters that the earlier branches of the lexer take. -/
theorem isDigit_kinds {c : Char} (digit : c.isDigit = true) :
    c ≠ '"' ∧ c ≠ '/' ∧ isBlank c = false ∧ isLetter c = false := by
  refine ⟨?_, ?_, isBlank_eq_false (by decide) digit, ?_⟩
  · rintro rfl
    exact absurd digit (by decide)
  · rintro rfl
    exact absurd digit (by decide)
  · have atMost : c.val.toNat ≤ 57 := of_decide_eq_true (Bool.and_eq_true_iff.mp digit).2
    rw [Bool.eq_false_iff]
    intro letter
    rcases Bool.or_eq_true_iff.mp letter with alpha | underscore
    · rcases Bool.or_eq_true_iff.mp alpha with upper | lower
      · have atLeast : 65 ≤ c.val.toNat := (of_decide_eq_true upper).1
        omega
      · have atLeast : 97 ≤ c.val.toNat := of_decide_eq_true (Bool.and_eq_true_iff.mp lower).1
        omega
    · rw [of_decide_eq_true underscore] at digit
      exact absurd digit (by decide)

/-- A symbol is no quote, letter, digit or blank.  A slash may still begin a comment, which is
skipped before. -/
theorem Punctuation.char_kinds (p : Punctuation) :
    p.char ≠ '"' ∧ isLetter p.char = false ∧ p.char.isDigit = false ∧ isBlank p.char = false := by
  cases p <;> decide

/-- A word begins with a letter, and so does every reserved word. -/
theorem Keyword.text_eq_cons (k : Keyword) :
    ∃ first more, k.text.toList = first :: more ∧ isLetter first = Bool.true ∧
      ∀ c ∈ more, isWordCharacter c = Bool.true := by
  cases k <;> exact ⟨_, _, rfl, by decide, List.all_eq_true.mp (by decide)⟩

/-! ## Reading what is there -/

namespace Cursor

variable {here : Location} {rest : List Char}

/-- Letters, digits and underscores are read to their end, and the whole word tells whether it is
reserved. -/
theorem readToken_word {first : Char} {more : List Char} (letter : isLetter first = true)
    (word : ∀ c ∈ more, isWordCharacter c = true) (ends : Ends isWordCharacter rest) :
    readToken ⟨here, first :: more ++ rest⟩ =
      (.ok ⟨wordKind (String.ofList (first :: more)), String.ofList (first :: more), here⟩,
        ⟨here.after (first :: more), rest⟩) := by
  rcases isLetter_kinds letter with ⟨notQuote, -, -⟩
  simp only [readToken, List.cons_append, notQuote, letter, if_true, if_false,
    ends.takeWhile_append word, ends.dropWhile_append word, takeToken]

/-- The digits that a number begins with decide whether it is read. -/
theorem readToken_number {first : Char} {more : List Char}
    (digits : ∀ c ∈ first :: more, c.isDigit = true) (ends : Ends Char.isDigit rest) :
    readToken ⟨here, first :: more ++ rest⟩ =
      if Token.decimal (first :: more) ≤ maxInt then
        (.ok ⟨.integer, String.ofList (first :: more), here⟩, ⟨here.after (first :: more), rest⟩)
      else stopAtLast ⟨here, first :: more ++ rest⟩ .integerOverflow (first :: more) rest := by
  rcases List.forall_mem_cons.mp digits with ⟨digit, others⟩
  rcases isDigit_kinds digit with ⟨notQuote, -, -, notLetter⟩
  simp only [readToken, readNumber, List.cons_append, notQuote, notLetter, digit, if_true, if_false,
    Bool.false_eq_true, ends.takeWhile_append others, ends.dropWhile_append others, takeToken]

/-- A token is read, and nothing behind it. -/
theorem readToken_of_token {kind : TokenKind} {text : List Char}
    (token : LongestToken rest kind text) :
    readToken ⟨here, text ++ rest⟩ =
      (.ok ⟨kind, String.ofList text, here⟩, ⟨here.after text, rest⟩) := by
  cases token with
  | symbol p alone =>
      rcases p.char_kinds with ⟨notQuote, notLetter, notDigit, -⟩
      simp only [readToken, List.singleton_append, notQuote, notLetter, notDigit, if_false,
        Bool.false_eq_true, Punctuation.ofChar?_char, takeToken]
  | keyword k ends =>
      rcases k.text_eq_cons with ⟨first, more, text, letter, word⟩
      have kind : wordKind (String.ofList (first :: more)) = .keyword k := by
        rw [← text, String.ofList_toList, wordKind, Keyword.ofText?_text]
      rw [text, readToken_word letter word ends, kind]
  | @identifier first more letter word notReserved ends =>
      have kind : wordKind (String.ofList (first :: more)) = .identifier := by
        unfold wordKind
        cases found : Keyword.ofText? (String.ofList (first :: more)) with
        | none => rfl
        | some k =>
            refine absurd ?_ (notReserved k)
            rw [Keyword.text_of_ofText? found, String.toList_ofList]
      rw [readToken_word letter word ends, kind]
  | integer digits ends fits => rw [readToken_number digits ends, if_pos fits]
  | @string body inside =>
      have ends : Ends isStringCharacter ('"' :: rest) := ends_cons.mpr (by decide)
      simp only [readToken, readString, List.cons_append, List.append_assoc, List.nil_append,
        if_true, ends.takeWhile_append inside, ends.dropWhile_append inside,
        takeToken]

/-- A fault behind a gap is found at its first character. -/
theorem readToken_of_fault {fault : LexicalFault} {text : List Char} (faulty : Faulty fault text)
    (stops : ¬ OpensGap text) : (readToken ⟨here, text⟩).1 = .error (fault, here) := by
  cases faulty with
  | @unknownCharacter c unknown rest =>
      simp only [isKnown, Bool.or_eq_false_iff, decide_eq_false_iff_not, Option.isSome_eq_false_iff,
        Option.isNone_iff_eq_none] at unknown
      rcases unknown with ⟨⟨⟨⟨-, notQuote⟩, notLetter⟩, notDigit⟩, noSymbol⟩
      simp only [readToken, notQuote, notLetter, notDigit, noSymbol, if_false, Bool.false_eq_true]
  | @unterminatedString body inside =>
      have whole := (ends_nil isStringCharacter).dropWhile_append inside
      rw [List.append_nil] at whole
      simp only [readToken, readString, if_true, whole, stopAtLast]
  | @newlineInString body inside lineEnd isEnd rest =>
      have ends : Ends isStringCharacter (lineEnd :: rest) := by
        rcases Bool.or_eq_true_iff.mp isEnd with isFeed | isReturn
        · rw [of_decide_eq_true isFeed]
          exact ends_cons.mpr (by decide)
        · rw [of_decide_eq_true isReturn]
          exact ends_cons.mpr (by decide)
      have notQuote : lineEnd ≠ '"' := by
        rintro rfl
        exact absurd isEnd (by decide)
      simp only [readToken, readString, if_true, ends.dropWhile_append inside]
      split
      · rename_i closed
        exact absurd (List.cons.inj closed).1 notQuote
      · rename_i ended
        cases ended
      · rfl
  | unterminatedComment unclosed => exact absurd (.inr (.inr ⟨_, rfl⟩)) stops
  | integerOverflow digits ends large =>
      rw [readToken_number digits ends, if_neg (Nat.not_le_of_lt large)]
      rfl

end Cursor

/-! ## One of them is there -/

/-- A text that begins no gap is empty or begins with a token or a fault. -/
theorem exists_token_or_fault {text : List Char} (stops : ¬ OpensGap text) :
    text = [] ∨ (∃ kind run rest, LongestToken rest kind run ∧ text = run ++ rest) ∨
      ∃ fault, Faulty fault text := by
  cases text with
  | nil => exact .inl rfl
  | cons first behind =>
    refine .inr ?_
    -- The cases are the branches of the lexer, in the same order.
    by_cases isQuote : first = '"'
    · subst isQuote
      rcases exists_run isStringCharacter behind with ⟨body, rest, rfl, inside, ends⟩
      cases rest with
      | nil =>
          rw [List.append_nil]
          exact .inr ⟨_, .unterminatedString inside⟩
      | cons c rest =>
          by_cases closing : c = '"'
          · subst closing
            refine .inl ⟨_, _, rest, .string inside, ?_⟩
            rw [List.cons_append, List.append_assoc, List.singleton_append]
          · have isEnd : isLineEnd c = true := by
              have stopsHere := ends_cons.mp ends
              simp only [isStringCharacter, ne_eq, closing, not_false_eq_true, decide_true,
                Bool.true_and, Bool.and_eq_false_iff, decide_eq_false_iff_not, not_not]
                at stopsHere
              simpa only [isLineEnd, Bool.or_eq_true, decide_eq_true_eq] using stopsHere
            exact .inr ⟨_, .newlineInString inside isEnd rest⟩
    by_cases letter : isLetter first = true
    · rcases exists_run isWordCharacter behind with ⟨more, rest, rfl, word, ends⟩
      by_cases reserved : ∃ k : Keyword, k.text.toList = first :: more
      · rcases reserved with ⟨k, text⟩
        exact .inl ⟨_, _, rest, .keyword k ends, by rw [text, List.cons_append]⟩
      · exact .inl ⟨_, _, rest, .identifier letter word (not_exists.mp reserved) ends, rfl⟩
    by_cases digit : first.isDigit = true
    · rcases exists_run Char.isDigit behind with ⟨more, rest, rfl, others, ends⟩
      have digits : ∀ c ∈ first :: more, c.isDigit = true :=
        List.forall_mem_cons.mpr ⟨digit, others⟩
      rcases Nat.lt_or_ge maxInt (Token.decimal (first :: more)) with large | fits
      · exact .inr ⟨_, .integerOverflow digits ends large⟩
      · exact .inl ⟨_, _, rest, .integer digits ends fits, rfl⟩
    cases found : Punctuation.ofChar? first with
    | some p =>
        rw [← Punctuation.char_of_ofChar? found] at stops ⊢
        refine .inl ⟨_, _, behind, .symbol p ?_, rfl⟩
        -- A slash that opens a comment would begin a gap.
        rintro rfl c member
        cases behind with
        | nil => cases member
        | cons d rest =>
            cases Option.some.inj member
            refine ⟨?_, ?_⟩
            · rintro rfl
              exact stops (.inr (.inl ⟨rest, rfl⟩))
            · rintro rfl
              exact stops (.inr (.inr ⟨rest, rfl⟩))
    | none =>
        have notBlank : isBlank first = false :=
          Bool.eq_false_iff.mpr fun blank => stops (.inl ⟨first, behind, rfl, blank⟩)
        refine .inr ⟨_, .unknownCharacter ?_ behind⟩
        simp only [isKnown, notBlank, isQuote, letter, digit, found, decide_false, Bool.or_self,
          Option.isSome_none]

/-- A text consists of a gap and of what the lexer finds behind it. -/
theorem exists_reading (text : List Char) :
    ∃ gap rest, text = gap ++ rest ∧ IsGap rest gap ∧
      (rest = [] ∨ (∃ kind run more, LongestToken more kind run ∧ rest = run ++ more) ∨
        ∃ fault, Faulty fault rest) := by
  have gives := skipGap_gives .blank .start text
  generalize skipGap .blank .start text = result at gives
  rcases result with ⟨behind, _ | opened⟩
  · rcases gives with ⟨gap, same, isGap, -, stops⟩
    exact ⟨gap, behind.rest, same, isGap, exists_token_or_fault stops⟩
  · rcases gives with ⟨-, ⟨isBlock, -⟩ | ⟨gap, body, same, isGap, unclosed, -⟩⟩
    · cases isBlock
    · exact ⟨gap, _, same, isGap, .inr (.inr ⟨_, .unterminatedComment unclosed⟩)⟩

/-! ## Reading behind a gap -/

/-- A gap begins with a blank or a slash. -/
theorem not_opensGap_cons {first : Char} {rest : List Char} (notSlash : first ≠ '/')
    (notBlank : isBlank first = false) : ¬ OpensGap (first :: rest) := by
  rintro (⟨c, others, same, blank⟩ | ⟨others, same⟩ | ⟨others, same⟩)
  · cases same
    rw [notBlank] at blank
    cases blank
  · exact notSlash (List.cons.inj same).1
  · exact notSlash (List.cons.inj same).1

theorem not_opensGap_nil : ¬ OpensGap [] := by
  rintro (⟨c, others, same, -⟩ | ⟨others, same⟩ | ⟨others, same⟩) <;> cases same

/-- No gap begins with a token: only a symbol can be a slash. -/
theorem LongestToken.not_opensGap {kind : TokenKind} {text rest : List Char}
    (token : LongestToken rest kind text) : ¬ OpensGap (text ++ rest) := by
  cases token with
  | symbol p alone =>
      by_cases slash : p = .slash
      · subst slash
        have apart := alone rfl
        rintro (⟨c, others, same, blank⟩ | ⟨others, same⟩ | ⟨others, same⟩)
        · cases same
          exact absurd blank (by decide)
        · cases same
          exact (apart _ rfl).1 rfl
        · cases same
          exact (apart _ rfl).2 rfl
      · refine not_opensGap_cons ?_ p.char_kinds.2.2.2
        intro same
        have found := Punctuation.ofChar?_char p
        rw [same] at found
        exact slash (Option.some.inj found).symm
  | keyword k ends =>
      rcases k.text_eq_cons with ⟨first, more, text, letter, -⟩
      rw [text]
      exact not_opensGap_cons (isLetter_kinds letter).2.1 (isLetter_kinds letter).2.2
  | identifier letter =>
      exact not_opensGap_cons (isLetter_kinds letter).2.1 (isLetter_kinds letter).2.2
  | integer digits =>
      have kinds := isDigit_kinds (digits _ List.mem_cons_self)
      exact not_opensGap_cons kinds.2.1 kinds.2.2.1
  | string inside => exact not_opensGap_cons (by decide) (by decide)

/-- Of the faults, only an unclosed comment begins a gap. -/
theorem Faulty.not_opensGap {fault : LexicalFault} {text : List Char} (faulty : Faulty fault text)
    (notComment : fault ≠ .unterminatedComment) : ¬ OpensGap text := by
  cases faulty with
  | unknownCharacter unknown rest =>
      simp only [isKnown, Bool.or_eq_false_iff, Option.isSome_eq_false_iff,
        Option.isNone_iff_eq_none] at unknown
      refine not_opensGap_cons ?_ unknown.1.1.1.1
      rintro rfl
      cases unknown.2
  | unterminatedString inside => exact not_opensGap_cons (by decide) (by decide)
  | newlineInString inside isEnd rest => exact not_opensGap_cons (by decide) (by decide)
  | unterminatedComment unclosed => exact absurd rfl notComment
  | integerOverflow digits ends large =>
      have kinds := isDigit_kinds (digits _ List.mem_cons_self)
      exact not_opensGap_cons kinds.2.1 kinds.2.2.1

namespace Cursor

variable {here : Location} {gap rest : List Char}

/-- Behind a gap that nothing carries on, the next item is read. -/
theorem next_eq_readToken (isGap : IsGap rest gap) (stops : ¬ OpensGap rest) :
    next ⟨here, gap ++ rest⟩ = readToken ⟨here.after gap, rest⟩ := by
  rw [next, skipGap, isGap.skip, skipGap_of_not_opensGap stops]

/-- Behind a gap, the lexer reads the longest token, and leaves what is behind it. -/
theorem next_of_token {kind : TokenKind} {text : List Char} (isGap : IsGap (text ++ rest) gap)
    (token : LongestToken rest kind text) :
    next ⟨here, gap ++ (text ++ rest)⟩ =
      (.ok ⟨kind, String.ofList text, here.after gap⟩, ⟨here.after (gap ++ text), rest⟩) := by
  rw [next_eq_readToken isGap token.not_opensGap, readToken_of_token token, Location.after_append]

/-- If there is only a gap left, the lexer comes to the end of file. -/
theorem next_of_end (isGap : IsGap [] gap) :
    next ⟨here, gap⟩ = (.ok ⟨.endOfFile, "", here.after gap⟩, ⟨here.after gap, []⟩) := by
  have read : next ⟨here, gap ++ []⟩ = _ := next_eq_readToken isGap not_opensGap_nil
  rw [List.append_nil] at read
  rw [read]
  rfl

/-- Behind a gap, the lexer reports the fault at the place where it begins.  Where the lexer stands
afterwards is not told here. -/
theorem next_of_fault {fault : LexicalFault} (isGap : IsGap rest gap) (faulty : Faulty fault rest) :
    (next ⟨here, gap ++ rest⟩).1 = .error (fault, here.after gap) := by
  by_cases isComment : fault = .unterminatedComment
  · subst isComment
    cases faulty with
    | @unterminatedComment body unclosed =>
      have skipped : Jack.skipGap .blank (here.after gap) ('/' :: '*' :: body) =
          (⟨here.after (gap ++ '/' :: '*' :: body), []⟩, some (here.after gap)) := by
        rw [Jack.skipGap, skipGap_unclosed unclosed, Location.after_append]
        rfl
      rw [next, skipGap, isGap.skip, skipped]
  · have stops := faulty.not_opensGap isComment
    rw [next_eq_readToken isGap stops, readToken_of_fault faulty stops]

end Cursor

end Jack
