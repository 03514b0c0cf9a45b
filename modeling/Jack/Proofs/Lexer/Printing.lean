import Jack.Proofs.Lexer.Longest
import Jack.Proofs.Lexer.Spans
import Jack.Proofs.Stream.Items

namespace Jack

/-!
# Lexing what has been printed

Tokens are printed with a separator between any two of them.  A separator begins with a blank, and
behind it blanks and comments may follow in any order.  Unlike a gap, which is described together
with the text behind it, a separator has an end of its own: its line comments have their line ends
and its block comments their closing markers.  So no separator carries a token on, and none is
carried on by a token; the lexer gives back what has been printed (`Lexer.items_joined`).
-/

/-! ## Separators -/

/-- Blanks, line comments with the line end behind them, and block comments. -/
inductive IsSpacing : List Char → Prop
  | nil : IsSpacing []
  | blank {c : Char} {more : List Char} (isBlank : isBlank c = true) (spacing : IsSpacing more) :
    IsSpacing (c :: more)
  | lineComment {body more : List Char} {lineEnd : Char} (line : ∀ c ∈ body, isLineEnd c = false)
    (isEnd : isLineEnd lineEnd = true) (spacing : IsSpacing more) :
    IsSpacing ('/' :: '/' :: (body ++ lineEnd :: more))
  | blockComment {body more : List Char} (first : ¬ Closes body) (spacing : IsSpacing more) :
    IsSpacing ('/' :: '*' :: (body ++ '*' :: '/' :: more))

/-- Spacing is a gap in front of any text. -/
theorem IsSpacing.isGap {text : List Char} (spacing : IsSpacing text) (rest : List Char) :
    IsGap rest text := by
  induction spacing with
  | nil => exact .nil
  | blank isBlank _ inductionHypothesis => exact .blank isBlank inductionHypothesis
  | lineComment line isEnd _ inductionHypothesis =>
      -- In a gap, the line end counts as a blank behind the comment.
      refine .lineComment line ?_ (.blank (isBlank_of_isLineEnd isEnd) inductionHypothesis)
      exact ends_cons.mpr (by rw [isEnd]; rfl)
  | blockComment first _ inductionHypothesis => exact .blockComment first inductionHypothesis

/-- What is printed between two tokens. -/
structure Separator where
  text : List Char
  spacing : IsSpacing text
  begins : ∃ c ∈ text.head?, isBlank c = true

/-! ## Spellings -/

/-- The texts of the tokens of each kind. -/
inductive IsTextOf : TokenKind → List Char → Prop
  | symbol (p : Punctuation) : IsTextOf (.symbol p) [p.char]
  | keyword (k : Keyword) : IsTextOf (.keyword k) k.text.toList
  | identifier {first : Char} {more : List Char} (letter : isLetter first = true)
    (word : ∀ c ∈ more, isWordCharacter c = true)
    (notReserved : ∀ k : Keyword, k.text.toList ≠ first :: more) :
    IsTextOf .identifier (first :: more)
  /-- Leading zeros are allowed. -/
  | integer {first : Char} {more : List Char} (digits : ∀ c ∈ first :: more, c.isDigit = true)
    (fits : Token.decimal (first :: more) ≤ maxInt) : IsTextOf .integer (first :: more)
  | string {body : List Char} (inside : ∀ c ∈ body, isStringCharacter c = true) :
    IsTextOf .string ('"' :: (body ++ ['"']))

/-- A kind of tokens and one of its texts. -/
structure Spelling where
  kind : TokenKind
  text : List Char
  isText : IsTextOf kind text

/-- A blank carries on no word, no number and no slash. -/
theorem ends_of_isBlank {p : Char → Bool}
    (none : [' ', '\t', '\n', '\r', '\u00A0', '\uFEFF'].any p = false) {rest : List Char}
    (blank : ∀ c ∈ rest.head?, isBlank c = true) : Ends p rest := by
  intro c member
  cases holds : p c with
  | false => rfl
  | true =>
      have notBlank := isBlank_eq_false none holds
      rw [blank c member] at notBlank
      cases notBlank

/-- In front of a blank, and at the end of a source, a text is the longest token. -/
theorem IsTextOf.longestToken {kind : TokenKind} {text rest : List Char}
    (isText : IsTextOf kind text) (blank : ∀ c ∈ rest.head?, isBlank c = true) :
    LongestToken rest kind text := by
  cases isText with
  | symbol p =>
      refine .symbol p fun _ c member => ⟨?_, ?_⟩
      · rintro rfl
        exact absurd (blank '/' member) (by decide)
      · rintro rfl
        exact absurd (blank '*' member) (by decide)
  | keyword k => exact .keyword k (ends_of_isBlank (by decide) blank)
  | identifier letter word notReserved =>
      exact .identifier letter word notReserved (ends_of_isBlank (by decide) blank)
  | integer digits fits => exact .integer digits (ends_of_isBlank (by decide) blank) fits
  | string inside => exact .string inside

/-! ## Printed sources -/

/-- Spellings one behind the other, where `separator n` is printed behind the spelling with the
number `n` if another one follows. -/
def joined (separator : Nat → Separator) : List Spelling → List Char
  | [] => []
  | [s] => s.text
  | s :: next :: rest =>
    s.text ++ ((separator 0).text ++ joined (fun n => separator (n + 1)) (next :: rest))

/-- The kind and the text of a token. -/
def Token.spelled (t : Token) : TokenKind × List Char := (t.kind, t.text.toList)

/-- The kind and the text of a spelling. -/
def Spelling.spelled (s : Spelling) : TokenKind × List Char := (s.kind, s.text)

namespace Lexer

variable {lead : List Char}

/-- A spelling is split off together with the spacing in front of it. -/
theorem items_of_spelling (source : List Char) (here : Location) (spacing : IsSpacing lead)
    (s : Spelling) {rest : List Char} (blank : ∀ c ∈ rest.head?, isBlank c = true) :
    (Lexer.mk source ⟨here, lead ++ (s.text ++ rest)⟩).items =
      .ok ⟨s.kind, String.ofList s.text, here.after lead⟩ ::
        (Lexer.mk source ⟨here.after (lead ++ s.text), rest⟩).items := by
  have longest := s.isText.longestToken blank
  have read : Cursor.next ⟨here, lead ++ (s.text ++ rest)⟩ = _ :=
    Cursor.next_of_token (spacing.isGap _) longest
  have kind : s.kind ≠ .endOfFile := by
    intro last
    have isText := s.isText
    rw [last] at isText
    cases isText
  refine items_of_more (t := ⟨s.kind, String.ofList s.text, here.after lead⟩) ?_ kind
  rw [Lexer.next, read]
  rfl

/-- Behind the last spelling comes the end of the source. -/
theorem items_of_spacing (source : List Char) (here : Location) (spacing : IsSpacing lead) :
    (Lexer.mk source ⟨here, lead⟩).items = [.ok ⟨.endOfFile, "", here.after lead⟩] := by
  have next : Lexer.next ⟨source, ⟨here, lead⟩⟩ =
      (.ok ⟨.endOfFile, "", here.after lead⟩, ⟨source, ⟨here.after lead, []⟩⟩) := by
    rw [Lexer.next, Cursor.next_of_end (spacing.isGap [])]
    rfl
  exact items_of_last next rfl

/-- What has been printed is read from any place of a source. -/
theorem items_joined_from (source : List Char) (here : Location) (spacing : IsSpacing lead)
    (separator : Nat → Separator) (spellings : List Spelling) :
    ∃ tokens : List Token,
      (Lexer.mk source ⟨here, lead ++ joined separator spellings⟩).items = tokens.map .ok ++
        [.ok ⟨.endOfFile, "", here.after (lead ++ joined separator spellings)⟩] ∧
      tokens.map Token.spelled = spellings.map Spelling.spelled := by
  induction spellings generalizing here lead separator with
  | nil =>
      rw [joined, List.append_nil]
      exact ⟨[], items_of_spacing source here spacing, rfl⟩
  | cons s rest inductionHypothesis =>
      -- The text behind the spelling is printed as well: nothing, or a separator and the others.
      have behind : ∃ gap separator', IsSpacing gap ∧
          joined separator (s :: rest) = s.text ++ (gap ++ joined separator' rest) ∧
          ∀ c ∈ (gap ++ joined separator' rest).head?, isBlank c = true := by
        cases rest with
        | nil =>
            exact ⟨[], separator, .nil, (List.append_nil _).symm, fun c member => nomatch member⟩
        | cons next rest =>
            refine ⟨(separator 0).text, fun n => separator (n + 1), (separator 0).spacing, rfl, ?_⟩
            rcases (separator 0).begins with ⟨c, first, blank⟩
            intro d member
            rw [List.head?_append, Option.mem_def.mp first, Option.some_or] at member
            exact Option.some.inj member ▸ blank
      rcases behind with ⟨gap, separator', gapSpacing, text, blank⟩
      rcases inductionHypothesis (here.after (lead ++ s.text)) gapSpacing separator' with
        ⟨tokens, items, spelled⟩
      refine ⟨⟨s.kind, String.ofList s.text, here.after lead⟩ :: tokens, ?_, ?_⟩
      · rw [text, items_of_spelling source here spacing s blank, items, ← Location.after_append,
          List.append_assoc]
        rfl
      · rw [List.map_cons, List.map_cons, spelled, Token.spelled, Spelling.spelled,
          String.toList_ofList]

/-- The results of the lexer by spans are the spellings, in the kinds of the tokens and in the
characters of their spans, and behind them the end of file. -/
structure SpellsInSpans (source : List Char) (spellings : List Spelling) : Prop where
  spelled : ∀ n s, spellings[n]? = some s →
    ∃ span, spannedResult? source n = some (.ok ⟨s.kind, span⟩) ∧
      span.fragment? source = some s.text
  ended : spannedResult? source spellings.length =
    some (.ok ⟨.endOfFile, ⟨UInt32.ofNat (byteSize source), 0⟩⟩)

/-- The lexer by spans gives the kinds and texts of the items.  They are those that were printed. -/
theorem spellsInSpans {source : List Char} {tokens : List Token} {spellings : List Spelling}
    (reads : ReadsInSpans source)
    (items : (ofSource source).items =
      tokens.map .ok ++ [.ok (TokenStream.endToken source)])
    (spelled : tokens.map Token.spelled = spellings.map Spelling.spelled) :
    SpellsInSpans source spellings where
  spelled n s found := by
    have written : (tokens.map Token.spelled)[n]? = some s.spelled := by
      rw [spelled, List.getElem?_map, found, Option.map_some]
    rw [List.getElem?_map] at written
    rcases Option.map_eq_some_iff.mp written with ⟨t, isToken, same⟩
    rcases Prod.mk.inj same with ⟨kind, text⟩
    have isItem : (ofSource source).items[n]? = some (.ok t) := by
      have inside : n < (tokens.map (.ok : Token → Item)).length := by
        rw [List.length_map]
        exact (List.getElem?_eq_some_iff.mp isToken).1
      rw [items, List.getElem?_append_left inside, List.getElem?_map, isToken, Option.map_some]
    refine ⟨t.span, ?_, ?_⟩
    · rw [reads.spannedResult?_of_getElem? isItem, Item.spanned, Token.spanned, kind]
    · rw [(reads.spanTells_of_mem (List.mem_of_getElem? isItem)).text, text]
  ended := by
    have sameLength : (tokens.map (.ok : Token → Item)).length = spellings.length := by
      rw [List.length_map, ← List.length_map (f := Token.spelled), spelled, List.length_map]
    have isItem : (ofSource source).items[spellings.length]? =
        some (.ok (TokenStream.endToken source)) := by
      rw [items, ← sameLength, List.getElem?_concat_length]
    rw [reads.spannedResult?_of_getElem? isItem, Item.spanned, Token.spanned,
      TokenStream.span_endToken]
    rfl

end Lexer

end Jack
