import Jack.Proofs.Lexer.Successive
import Jack.Proofs.Text.Span

namespace Jack

/-!
# Lexing with spans

The lexer may hand on a kind and a span in the place of a text.  It then looks at the source through
spans alone: a word is reserved, and a number small enough, if the characters in its span say so, a
fault is located from the offset of its span, and the end of a source inside of a string constant is
told from an offset that is a word.  If that offset has been cut off, the end is never noticed, and
the lexer does not come back.

What is read is the same for every source whose offsets are words (`IsAddressable.readsInSpans`).
-/

/-- A token by its span. -/
structure SpannedToken where
  kind : TokenKind
  span : Span
deriving DecidableEq

/-- A token by its span, or the diagnostic of a fault. -/
abbrev SpannedItem := Except LexError SpannedToken

/-- The token by its span. -/
def Token.spanned (t : Token) : SpannedToken := ⟨t.kind, t.span⟩

/-- The item, in which a token is kept by its span. -/
def Item.spanned : Item → SpannedItem
  | .ok t => .ok t.spanned
  | .error e => .error e

namespace Cursor

/-- The span of a run of characters that starts at the cursor. -/
def spanOf (c : Cursor) (run : List Char) : Span :=
  .between c.here.offset (c.here.after run).offset

/-- Take a run of characters from the cursor as a token, by its span. -/
def takeSpan (c : Cursor) (kind : TokenKind) (run rest : List Char) : SpannedItem × Cursor :=
  (.ok ⟨kind, c.spanOf run⟩, ⟨c.here.after run, rest⟩)

/-- Report a fault at an offset, which has to be one of the source. -/
def faultAt (source : List Char) (fault : LexicalFault) (index : UInt32) (behind : Cursor) :
    Option (SpannedItem × Cursor) :=
  ((Span.mk index 0).fragment? source).map fun _ =>
    (.error (.locate source fault (.ofOffset source index.toNat)), behind)

/-- Read an integer constant that starts with the digit `first`.  Its value is that of the
characters in its span. -/
def readNumberSpan (source : List Char) (c : Cursor) (first : Char) (rest : List Char) :
    Option (SpannedItem × Cursor) :=
  let run := first :: rest.takeWhile Char.isDigit
  let behind := rest.dropWhile Char.isDigit
  ((c.spanOf run).fragment? source).bind fun digits =>
    if (Token.word? digits).any (·.toNat ≤ maxInt) then some (c.takeSpan .integer run behind)
    else
      faultAt source .integerOverflow (c.spanOf run).index
        (c.stopAtLast .integerOverflow run behind).2

/-- Read a string constant whose opening quote stands in front of `rest`.  Behind the last character
of the source the lexer looks on, unless the offset there, as a word, reaches the size of the
source.  There is no answer if it looks on for ever. -/
def readStringSpan (source : List Char) (c : Cursor) (rest : List Char) :
    Option (SpannedItem × Cursor) :=
  let run := '"' :: rest.takeWhile isStringCharacter
  match rest.dropWhile isStringCharacter with
  | '"' :: behind => some (c.takeSpan .string (run ++ ['"']) behind)
  | [] =>
    if byteSize source ≤ (UInt32.ofNat (c.here.after run).offset).toNat then
      faultAt source .unterminatedString (c.spanOf run).index
        (c.stopAtLast .unterminatedString run []).2
    else none
  | behind =>
    faultAt source .newlineInString (c.spanOf run).index
      (c.stopAtLast .newlineInString run behind).2

/-- Read the token that starts at the cursor, by its span. -/
def readSpan (source : List Char) (c : Cursor) : Option (SpannedItem × Cursor) :=
  match c.rest with
  | [] => some (c.takeSpan .endOfFile [] [])
  | first :: rest =>
    if first = '"' then c.readStringSpan source rest
    else if isLetter first then
      let run := first :: rest.takeWhile isWordCharacter
      ((c.spanOf run).fragment? source).map fun word =>
        c.takeSpan (wordKind (String.ofList word)) run (rest.dropWhile isWordCharacter)
    else if first.isDigit then c.readNumberSpan source first rest
    else
      match Punctuation.ofChar? first with
      | some p => some (c.takeSpan (.symbol p) [first] rest)
      | none => faultAt source (.unknownCharacter first) (c.spanOf [first]).index c

/-- Read the next token behind the gap at the cursor, by its span.  There is no answer if the lexer
does not come back, or asks for characters that are not there. -/
def nextSpan (source : List Char) (c : Cursor) : Option (SpannedItem × Cursor) :=
  match c.skipGap with
  | (behind, none) => behind.readSpan source
  | (behind, some opened) =>
    faultAt source .unterminatedComment (UInt32.ofNat opened.offset) behind

end Cursor

namespace Lexer

/-- Where a number of calls leaves the lexer, if each of them comes back. -/
def cursorBehind? (source : List Char) : Nat → Option Cursor
  | 0 => some (.ofSource source)
  | n + 1 => (cursorBehind? source n).bind fun c => (c.nextSpan source).map (·.2)

/-- What a call of the lexer hands on, counted from zero, if it and all earlier ones come back. -/
def spannedResult? (source : List Char) (n : Nat) : Option SpannedItem :=
  (cursorBehind? source n).bind fun c => (c.nextSpan source).map (·.1)

end Lexer

/-! ## Runs and their spans -/

namespace Lexer.StandsBehind

variable {source before run rest : List Char} {c : Cursor}

/-- The span of a run behind the cursor goes from the bytes before the run to those behind it.  Both
ends are cut to words here. -/
theorem span_eq (stands : (Lexer.mk source c).StandsBehind before) (run : List Char) :
    c.spanOf run = .between (byteSize before) (byteSize (before ++ run)) := by
  rw [Cursor.spanOf, Location.offset_after, stands.offset_eq, byteSize_append]

/-- In a source whose offsets are words, the span of a run gives the run back. -/
theorem fragment?_spanOf (stands : (Lexer.mk source c).StandsBehind before)
    (addressable : IsAddressable source) (text : c.rest = run ++ rest) :
    (c.spanOf run).fragment? source = some run := by
  have split : source = before ++ (run ++ rest) := text ▸ stands.source_eq
  rw [stands.span_eq, split]
  exact Span.fragment?_between (split ▸ addressable)

/-- A fault behind a part of the source is located there. -/
theorem faultAt_eq (before behind : List Char) (addressable : IsAddressable (before ++ behind))
    (fault : LexicalFault) (d : Cursor) :
    Cursor.faultAt (before ++ behind) fault (UInt32.ofNat (byteSize before)) d =
      some (.error (.locate (before ++ behind) fault (Location.start.after before)), d) := by
  have empty := @Span.fragment?_between before [] behind addressable
  have small : byteSize before < UInt32.size := by
    rw [IsAddressable, byteSize_append] at addressable
    omega
  have index : (UInt32.ofNat (byteSize before)).toNat = byteSize before :=
    UInt32.toNat_ofNat_of_lt small
  rw [List.append_nil, Span.between, UInt32.sub_self, List.nil_append] at empty
  rw [Cursor.faultAt, empty, Option.map_some, index, Location.ofOffset_append]

/-- In a source whose offsets are words, a fault is told at the place where it is. -/
theorem faultAt_spanOf (stands : (Lexer.mk source c).StandsBehind before)
    (addressable : IsAddressable source) (run : List Char) (fault : LexicalFault) (d : Cursor) :
    Cursor.faultAt source fault (c.spanOf run).index d =
      some (.error (.locate source fault c.here), d) := by
  rw [stands.span_eq, stands.here_eq]
  have split : source = before ++ c.rest := stands.source_eq
  rw [split] at addressable ⊢
  exact faultAt_eq before c.rest addressable fault d

end Lexer.StandsBehind

namespace Cursor

variable {source before : List Char} {c : Cursor}

/-- Taking a token by its span is taking the token and keeping the span only.  This holds of any
source, since nothing is read by a span here. -/
theorem takeSpan_eq (source : List Char) (c : Cursor) (kind : TokenKind) (run rest : List Char) :
    c.takeSpan kind run rest =
      ((Item.locate source (c.takeToken kind run rest).1).spanned,
        (c.takeToken kind run rest).2) := by
  have stop : (Token.mk kind (String.ofList run) c.here).stop = (c.here.after run).offset := by
    rw [Token.stop, Token.size, Location.offset_after, byteSize]
  rw [takeSpan, takeToken, Item.locate, Item.spanned, Token.spanned, Token.span, stop, spanOf]

/-- Digits spell a word that is small enough exactly if their value is. -/
theorem any_word?_digits {first : Char} {more : List Char}
    (digits : (first :: more).all Char.isDigit = true) :
    (Token.word? (first :: more)).any (·.toNat ≤ maxInt) =
      decide (Token.decimal (first :: more) ≤ maxInt) := by
  have inWord : maxInt < UInt16.size := by decide
  by_cases small : Token.decimal (first :: more) < UInt16.size
  · rw [Token.word?_digits digits small, Option.any_some, UInt16.toNat_ofNat_of_lt' small]
  · have none : Token.word? (first :: more) = none := by
      rw [Token.word?, Token.decimal_unsigned, if_neg fun holds => small holds.2.2]
    have large : ¬ Token.decimal (first :: more) ≤ maxInt := by omega
    rw [none, Option.any_none, decide_eq_false large]

/-- A string constant that goes on behind its line is a fault. -/
theorem readString_of_open {c : Cursor} {rest : List Char}
    (notClosed : ∀ behind, rest.dropWhile isStringCharacter = '"' :: behind → False)
    (notEnded : rest.dropWhile isStringCharacter = [] → False) :
    c.readString rest =
      c.stopAtLast .newlineInString ('"' :: rest.takeWhile isStringCharacter)
        (rest.dropWhile isStringCharacter) := by
  rw [readString]
  split
  · rename_i behind closed
    exact (notClosed behind closed).elim
  · rename_i ended
    exact (notEnded ended).elim
  · rfl

section Reading

variable (stands : (Lexer.mk source c).StandsBehind before) (addressable : IsAddressable source)

include stands addressable

/-- A number is read by its span before it is compared with the largest one.  In a source whose
offsets are words, this is the number itself. -/
theorem readNumberSpan_eq {first : Char} {rest : List Char} (text : c.rest = first :: rest)
    (digit : first.isDigit = true) :
    c.readNumberSpan source first rest = some
      ((Item.locate source (c.readNumber first rest).1).spanned, (c.readNumber first rest).2) := by
  have run : c.rest =
      (first :: rest.takeWhile Char.isDigit) ++ rest.dropWhile Char.isDigit := by
    rw [text, List.cons_append, List.takeWhile_append_dropWhile]
  have digits : (first :: rest.takeWhile Char.isDigit).all Char.isDigit = true := by
    rw [List.all_cons, digit, Bool.true_and]
    exact List.all_takeWhile
  simp only [readNumberSpan, readNumber, stands.fragment?_spanOf addressable run,
    Option.bind_some, any_word?_digits digits, decide_eq_true_eq]
  split
  · rw [takeSpan_eq source]
  · rw [stands.faultAt_spanOf addressable]
    rfl

/-- In the source the offset of its end is a word that is not cut off, so a string constant without
an end is noticed. -/
theorem readStringSpan_eq {rest : List Char} (text : c.rest = '"' :: rest) :
    c.readStringSpan source rest = some
      ((Item.locate source (c.readString rest).1).spanned, (c.readString rest).2) := by
  have run : c.rest =
      ('"' :: rest.takeWhile isStringCharacter) ++ rest.dropWhile isStringCharacter := by
    rw [text, List.cons_append, List.takeWhile_append_dropWhile]
  rw [readStringSpan]
  split
  · rename_i behind closed
    have read : c.readString rest =
        c.takeToken .string ('"' :: rest.takeWhile isStringCharacter ++ ['"']) behind := by
      simp only [readString, closed]
    rw [read, takeSpan_eq source]
  · rename_i ended
    have read : c.readString rest =
        c.stopAtLast .unterminatedString ('"' :: rest.takeWhile isStringCharacter) [] := by
      simp only [readString, ended]
    have whole : source = before ++ ('"' :: rest.takeWhile isStringCharacter) := by
      rw [ended, List.append_nil] at run
      exact run ▸ stands.source_eq
    have size : (c.here.after ('"' :: rest.takeWhile isStringCharacter)).offset =
        byteSize source := by
      rw [Location.offset_after, stands.offset_eq, whole, byteSize_append]
    have noticed : byteSize source ≤ (UInt32.ofNat (byteSize source)).toNat :=
      Nat.le_of_eq (UInt32.toNat_ofNat_of_lt addressable).symm
    rw [read, size, if_pos noticed, stands.faultAt_spanOf addressable]
    rfl
  · rename_i notClosed notEnded
    rw [readString_of_open notClosed notEnded, stands.faultAt_spanOf addressable]
    rfl

/-- A cursor that stands in the source reads the same by spans. -/
theorem readSpan_eq :
    c.readSpan source = some ((Item.locate source c.readToken.1).spanned, c.readToken.2) := by
  cases text : c.rest with
  | nil =>
      simp only [readSpan, readToken, text]
      rw [takeSpan_eq source]
  | cons first rest =>
      simp only [readSpan, readToken, text]
      by_cases isQuote : first = '"'
      · subst isQuote
        exact readStringSpan_eq stands addressable text
      by_cases letter : isLetter first = true
      · have run : c.rest =
            (first :: rest.takeWhile isWordCharacter) ++ rest.dropWhile isWordCharacter := by
          rw [text, List.cons_append, List.takeWhile_append_dropWhile]
        simp only [isQuote, letter, if_false, if_true,
          stands.fragment?_spanOf addressable run, Option.map_some]
        rw [takeSpan_eq source]
      by_cases digit : first.isDigit = true
      · simp only [isQuote, letter, digit, if_false, if_true, Bool.false_eq_true]
        exact readNumberSpan_eq stands addressable text digit
      simp only [isQuote, letter, digit, if_false, Bool.false_eq_true]
      cases Punctuation.ofChar? first with
      | some p =>
          dsimp only
          rw [takeSpan_eq source]
      | none =>
          dsimp only
          rw [stands.faultAt_spanOf addressable]
          rfl

end Reading

end Cursor

namespace Lexer

/-- A lexer that stands in its source goes on in the same way by spans. -/
theorem nextSpan_eq {l : Lexer} {before : List Char} (stands : l.StandsBehind before)
    (addressable : IsAddressable l.source) :
    l.cursor.nextSpan l.source = some (l.next.1.spanned, l.next.2.cursor) := by
  have skips := Cursor.goesTo_skipGap .blank l.cursor.here l.cursor.rest
  cases skipped : l.cursor.skipGap with
  | mk behind comment =>
      unfold Cursor.skipGap at skipped
      rw [skipped] at skips
      rcases skips with ⟨gap, left, place⟩
      cases comment with
      | none =>
          have read := Cursor.readSpan_eq (stands.pass left place) addressable
          simp only [Cursor.nextSpan, Lexer.next, Cursor.next, Cursor.skipGap, skipped]
          exact read
      | some opened =>
          -- The place of the comment is one of the source, because it is found there.
          have result : l.next = (.error (.locate l.source .unterminatedComment opened),
              ⟨l.source, behind⟩) := by
            simp only [Lexer.next, Cursor.next, Cursor.skipGap, skipped]
            rfl
          rcases next_finds stands with ⟨gap, passed, found, standsNext⟩
          rw [result] at found standsNext ⊢
          have opensThere : opened = Location.start.after (before ++ gap) := found
          have split : l.source = (before ++ gap) ++ (passed ++ behind.rest) := by
            have whole : l.source = before ++ (gap ++ passed) ++ behind.rest :=
              standsNext.source_eq
            rw [whole]
            simp only [List.append_assoc]
          have reported := StandsBehind.faultAt_eq (before ++ gap) (passed ++ behind.rest)
            (split ▸ addressable) .unterminatedComment behind
          rw [← split, ← opensThere] at reported
          have offset : opened.offset = byteSize (before ++ gap) := by
            rw [opensThere, Location.offset_after_start]
          simp only [Cursor.nextSpan, Cursor.skipGap, skipped, offset]
          exact reported

variable {source : List Char}

/-- In a source whose offsets are words, every call of the lexer by spans gives the span of what the
lexer gives, and both go on from the same cursor. -/
theorem nextSpan_behind (addressable : IsAddressable source) (n : Nat) :
    ((ofSource source).behind n).cursor.nextSpan source =
      some (((ofSource source).result n).spanned, ((ofSource source).behind (n + 1)).cursor) := by
  rcases exists_standsBehind source n with ⟨before, stands⟩
  have same : ((ofSource source).behind n).source = source := source_behind _ n
  have next := nextSpan_eq stands (same.symm ▸ addressable)
  rw [same] at next
  exact next

/-- However often it is called, the lexer comes back to where it would stand without spans. -/
theorem cursorBehind?_eq (addressable : IsAddressable source) (n : Nat) :
    cursorBehind? source n = some ((ofSource source).behind n).cursor := by
  induction n with
  | zero => rfl
  | succ n inductionHypothesis =>
      rw [cursorBehind?, inductionHypothesis, Option.bind_some, nextSpan_behind addressable,
        Option.map_some]

/-- In a source whose offsets are words, the lexer by spans always comes back. -/
theorem spannedResult?_eq (addressable : IsAddressable source) (n : Nat) :
    spannedResult? source n = some ((ofSource source).result n).spanned := by
  rw [spannedResult?, cursorBehind?_eq addressable, Option.bind_some, nextSpan_behind addressable,
    Option.map_some]

end Lexer

/-- The end of file has the size of the source for its offset, cut to a word. -/
theorem TokenStream.span_endToken (source : List Char) :
    (endToken source).span = ⟨UInt32.ofNat (byteSize source), 0⟩ := by
  have stop : (endToken source).stop = (endToken source).start.offset := Nat.add_zero _
  have offset : (endToken source).start.offset = byteSize source :=
    Location.offset_after_start source
  rw [Token.span, stop, offset, Span.between, UInt32.sub_self]

/-- The source can be read by spans.  Every call of the lexer comes back, also behind faults and
behind the end, and hands on what is read without spans.  The first of these results are the items
of the source.  The span of every token tells its place, its size and its text, and so does that of
the end of file, which also stands behind a fault. -/
structure ReadsInSpans (source : List Char) : Prop where
  result : ∀ n, Lexer.spannedResult? source n = some ((Lexer.ofSource source).result n).spanned
  item : ∀ n item, (Lexer.ofSource source).items[n]? = some item →
    (Lexer.ofSource source).result n = item
  tells : ∀ n t, (Lexer.ofSource source).result n = .ok t → t.SpanTells source
  last : (TokenStream.endToken source).SpanTells source

namespace ReadsInSpans

variable {source : List Char} (reads : ReadsInSpans source)

include reads

/-- The spans of all tokens give back their texts. -/
theorem spanTells_of_mem {t : Token} (member : .ok t ∈ (Lexer.ofSource source).items) :
    t.SpanTells source := by
  rcases List.mem_iff_getElem?.mp member with ⟨n, found⟩
  exact reads.tells n t (reads.item n _ found)

/-- The items of a source are what the lexer by spans gives, one after the other, up to the first
fault. -/
theorem spannedResult?_of_getElem? {n : Nat} {item : Item}
    (found : (Lexer.ofSource source).items[n]? = some item) :
    Lexer.spannedResult? source n = some item.spanned := by
  rw [reads.result, reads.item n item found]

end ReadsInSpans

/-- Spans are good enough for every source whose offsets are words. -/
theorem IsAddressable.readsInSpans {source : List Char} (addressable : IsAddressable source) :
    ReadsInSpans source where
  result := Lexer.spannedResult?_eq addressable
  item _ _ := Lexer.result_of_getElem?_items
  tells n t isToken := by
    rcases (Lexer.standsIn_of_result isToken).between with ⟨before, behind, split, place, -, -⟩
    exact Token.spanTells_of_between addressable split place
  last := by
    have split : source = source ++ ((TokenStream.endToken source).text.toList ++ []) :=
      (List.append_nil source).symm
    exact Token.spanTells_of_between addressable split rfl

/-! ## Longer sources -/

/-- The bound cannot be dropped.  If a string constant is opened and not closed, then the end of the
source is noticed only if its offset is a word; otherwise the first call does not come back. -/
theorem Lexer.spannedResult?_openString {text : List Char}
    (inside : ∀ c ∈ text, isStringCharacter c = true) :
    (spannedResult? ('"' :: text) 0).isSome ↔ IsAddressable ('"' :: text) := by
  refine ⟨fun comesBack => ?_, fun addressable => ?_⟩
  · have whole : text.takeWhile isStringCharacter = text :=
      List.takeWhile_eq_self_iff.mpr inside
    have nothing : text.dropWhile isStringCharacter = [] :=
      List.dropWhile_eq_nil_iff.mpr inside
    have stops : ¬ OpensGap ('"' :: text) := by
      rintro (⟨c, rest, opens, blank⟩ | ⟨rest, opens⟩ | ⟨rest, opens⟩)
      · cases opens
        exact absurd blank (by decide)
      · cases opens
      · cases opens
    have noGap : Cursor.skipGap (.ofSource ('"' :: text)) = (.ofSource ('"' :: text), none) :=
      skipGap_of_not_opensGap stops _
    have size : (Location.start.after ('"' :: text)).offset = byteSize ('"' :: text) :=
      Location.offset_after_start _
    rw [spannedResult?, cursorBehind?, Option.bind_some, Option.isSome_map, Cursor.nextSpan,
      noGap] at comesBack
    simp only [Cursor.readSpan, Cursor.ofSource, Cursor.readStringSpan, if_true, whole, nothing,
      size] at comesBack
    split at comesBack
    · rename_i noticed
      exact Nat.lt_of_le_of_lt noticed (UInt32.toNat_lt_size _)
    · cases comesBack
  · rw [spannedResult?_eq addressable, Option.isSome_some]

end Jack
