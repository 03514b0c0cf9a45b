import Jack.Proofs.Lexer.Exact
import Jack.Proofs.Lexer.Printing

namespace Jack

/-!
# The spelling of lexemes

Every lexeme of a source, apart from the end of file, is one of the spellings of its kind.  The
converse holds as well: any sequence of spelled lexemes is read from some source, since it can be
printed.  So the texts that occur in sources are described by `IsTextOf` alone.
-/

/-- The characters of a lexeme. -/
def Lexeme.text : Lexeme → List Char
  | symbol p => [p.char]
  | keyword k => k.text.toList
  | identifier name => name.toList
  | integer digits => digits.toList
  | string text => text.toList
  | endOfFile => []

/-- The text of a lexeme is one of its kind. -/
def Lexeme.IsSpelled (l : Lexeme) : Prop := IsTextOf l.kind l.text

/-- A token that the lexer reads is a text of its kind.  That it was the longest one is forgotten.
-/
theorem LongestToken.isTextOf {rest : List Char} {kind : TokenKind} {text : List Char}
    (token : LongestToken rest kind text) : IsTextOf kind text := by
  cases token with
  | symbol p alone => exact .symbol p
  | keyword k ends => exact .keyword k
  | identifier letter word notReserved ends => exact .identifier letter word notReserved
  | integer digits ends fits => exact .integer digits fits
  | string inside => exact .string inside

/-! ## Sources -/

/-- The tokens of a source in front of its end are spelled. -/
theorem Lexer.isTextOf_of_mem_items {source : List Char} {t : Token}
    (member : .ok t ∈ (Lexer.ofSource source).items) :
    t.kind = .endOfFile ∨ IsTextOf t.kind t.text.toList := by
  rcases Lexer.items_of_source source with ⟨pieces, gap, rest, last, items, -, stand, -, ended⟩
  rw [items] at member
  rcases List.mem_append.mp member with isOfPiece | isLast
  · rcases List.mem_map.mp isOfPiece with ⟨p, inPieces, same⟩
    cases same
    rcases List.append_of_mem inPieces with ⟨before, after, rfl⟩
    exact .inr stand.of_append.longest.isTextOf
  · rw [← List.mem_singleton.mp isLast] at ended
    rcases ended with ⟨-, same⟩ | ⟨fault, -, same⟩
    · cases same
      exact .inl rfl
    · cases same

/-- The grammar sees all of a token that is spelled. -/
theorem Token.isSpelled_lexeme {t : Token} (isText : IsTextOf t.kind t.text.toList) :
    t.lexeme.IsSpelled := by
  cases kind : t.kind with
  | symbol p =>
      rw [lexeme_eq_symbol kind]
      exact .symbol p
  | keyword k =>
      rw [lexeme_eq_keyword kind]
      exact .keyword k
  | identifier =>
      rw [lexeme_eq_identifier kind]
      rwa [kind] at isText
  | integer =>
      rw [lexeme_eq_integer kind]
      rwa [kind] at isText
  | string =>
      rw [lexeme_eq_string kind]
      rwa [kind] at isText
  | endOfFile =>
      rw [kind] at isText
      cases isText

/-- All lexemes that a source spells are spelled as their kinds ask for, apart from the end of file,
which is not spelled at all. -/
theorem Lexes.isSpelled {source : List Char} {lexemes : List Lexeme} (lexes : Lexes source lexemes)
    {l : Lexeme} (member : l ∈ lexemes) : l = .endOfFile ∨ l.IsSpelled := by
  rcases lexes with ⟨tokens, items, rfl⟩
  rcases List.mem_map.mp member with ⟨t, inTokens, rfl⟩
  have item : .ok t ∈ (Lexer.ofSource source).items := by
    rw [items]
    exact List.mem_map_of_mem inTokens
  rcases Lexer.isTextOf_of_mem_items item with isEnd | isText
  · refine .inl ?_
    simp only [Token.lexeme, isEnd]
  · exact .inr (Token.isSpelled_lexeme isText)

/-- Only the last lexeme of a source can be the end of file. -/
theorem Lexes.isSpelled_of_mem_dropLast {source : List Char} {lexemes : List Lexeme}
    (lexes : Lexes source lexemes) {l : Lexeme} (member : l ∈ lexemes.dropLast) : l.IsSpelled := by
  rcases lexes with ⟨tokens, items, rfl⟩
  rcases Lexer.items_of_source source with ⟨pieces, gap, rest, last, split, -, stand, -, -⟩
  have inFront : tokens.dropLast.map Except.ok = pieces.map fun p => (.ok p.token : Item) := by
    rw [List.map_dropLast, ← items, split, List.dropLast_concat]
  rw [← List.map_dropLast] at member
  rcases List.mem_map.mp member with ⟨t, inTokens, rfl⟩
  have item : (.ok t : Item) ∈ pieces.map fun p => .ok p.token := by
    rw [← inFront]
    exact List.mem_map_of_mem inTokens
  rcases List.mem_map.mp item with ⟨p, inPieces, same⟩
  cases same
  rcases List.append_of_mem inPieces with ⟨before, after, rfl⟩
  exact Token.isSpelled_lexeme stand.of_append.longest.isTextOf

/-! ## Printing -/

/-- The kind and the text of a lexeme. -/
def Lexeme.spelled (l : Lexeme) : TokenKind × List Char := (l.kind, l.text)

/-- A token that is spelled like a lexeme has this lexeme. -/
theorem Token.lexeme_eq_of_spelled {t : Token} {l : Lexeme} (isSpelled : l.IsSpelled)
    (same : t.spelled = l.spelled) : t.lexeme = l := by
  rcases Prod.mk.inj same with ⟨kind, text⟩
  cases l with
  | symbol p => exact lexeme_eq_symbol kind
  | keyword k => exact lexeme_eq_keyword kind
  | identifier name => rw [lexeme_eq_identifier kind, String.toList_inj.mp text]
  | integer digits => rw [lexeme_eq_integer kind, String.toList_inj.mp text]
  | string characters => rw [lexeme_eq_string kind, String.toList_inj.mp text]
  | endOfFile => cases isSpelled

/-- Tokens with the kinds and texts of lexemes are tokens of these lexemes. -/
theorem map_lexeme_eq_of_spelled {lexemes : List Lexeme} {tokens : List Token}
    (isSpelled : ∀ l ∈ lexemes, l.IsSpelled)
    (same : tokens.map Token.spelled = lexemes.map Lexeme.spelled) :
    tokens.map Token.lexeme = lexemes := by
  induction lexemes generalizing tokens with
  | nil => rw [List.map_eq_nil_iff.mp same, List.map_nil]
  | cons l more inductionHypothesis =>
      rcases List.forall_mem_cons.mp isSpelled with ⟨first, others⟩
      rcases List.map_eq_cons_iff.mp same with ⟨t, behind, rfl, sameFirst, sameOthers⟩
      rw [List.map_cons, Token.lexeme_eq_of_spelled first sameFirst,
        inductionHypothesis others sameOthers]

/-- A single space. -/
def Separator.space : Separator where
  text := [' ']
  spacing := .blank rfl .nil
  begins := ⟨' ', rfl, rfl⟩

/-- Lexemes that can be spelled can be printed. -/
theorem exists_spellings {lexemes : List Lexeme} (isSpelled : ∀ l ∈ lexemes, l.IsSpelled) :
    ∃ spellings : List Spelling, spellings.map Spelling.spelled = lexemes.map Lexeme.spelled := by
  induction lexemes with
  | nil => exact ⟨[], rfl⟩
  | cons l more inductionHypothesis =>
      rcases List.forall_mem_cons.mp isSpelled with ⟨first, others⟩
      rcases inductionHypothesis others with ⟨spellings, same⟩
      refine ⟨⟨l.kind, l.text, first⟩ :: spellings, ?_⟩
      rw [List.map_cons, List.map_cons, same]
      rfl

/-- Spelled lexemes are read from a source in which they are printed. -/
theorem exists_lexes {lexemes : List Lexeme} (isSpelled : ∀ l ∈ lexemes, l.IsSpelled) :
    ∃ source, Lexes source (lexemes ++ [.endOfFile]) := by
  rcases exists_spellings isSpelled with ⟨spellings, asSpelled⟩
  let source := joined (fun _ => .space) spellings
  rcases Lexer.items_joined_from source .start .nil (fun _ => .space) spellings with
    ⟨tokens, items, same⟩
  refine ⟨source, tokens ++ [⟨.endOfFile, "", Location.start.after source⟩], ?_, ?_⟩
  · rw [List.map_append]
    exact items
  · rw [List.map_append, map_lexeme_eq_of_spelled isSpelled (same.trans asSpelled)]
    rfl

end Jack
