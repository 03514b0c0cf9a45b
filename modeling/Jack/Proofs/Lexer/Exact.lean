import Jack.Proofs.Lexer.Longest
import Jack.Proofs.Stream.Items
import Jack.Proofs.Text.Location

namespace Jack

/-!
# Lexing loses nothing

A source is put together from its tokens, the gaps in front of them, and a rest that is a gap at the
end of the source or in front of a fault (`Lexer.items_lossless`).  Every source has such pieces
(`exists_pieces`), and whatever pieces a source has, the lexer finds them (`Lexer.items_of_pieces`),
so the tokens are exactly those that the description of gaps and longest tokens admits.
-/

/-! ## Pieces of a source -/

/-- A token of a source and the gap in front of it. -/
structure SourcePiece where
  gap : List Char
  token : Token

namespace SourcePiece

/-- The characters of the token. -/
def text (p : SourcePiece) : List Char := p.token.text.toList

/-- The characters of a piece: a gap and the token behind it. -/
def written (p : SourcePiece) : List Char := p.gap ++ p.text

/-- The piece stands between two parts of a source. -/
structure StandsIn (p : SourcePiece) (before behind : List Char) : Prop where
  isGap : IsGap (p.text ++ behind) p.gap
  longest : LongestToken behind p.token.kind p.text
  start : p.token.start = Location.start.after (before ++ p.gap)

end SourcePiece

/-- Pieces one behind the other. -/
def writtenBy (pieces : List SourcePiece) : List Char := pieces.flatMap SourcePiece.written

theorem writtenBy_cons (p : SourcePiece) (pieces : List SourcePiece) :
    writtenBy (p :: pieces) = p.written ++ writtenBy pieces :=
  List.flatMap_cons

/-- Pieces stand one behind the other between two parts of a source. -/
def PiecesStand (before behind : List Char) : List SourcePiece → Prop
  | [] => True
  | p :: more => p.StandsIn before (writtenBy more ++ behind) ∧
      PiecesStand (before ++ p.written) behind more

/-- Each piece of a source stands behind what is written by those before it. -/
theorem PiecesStand.of_append {before behind : List Char} {p : SourcePiece}
    {earlier later : List SourcePiece}
    (stand : PiecesStand before behind (earlier ++ p :: later)) :
    p.StandsIn (before ++ writtenBy earlier) (writtenBy later ++ behind) := by
  induction earlier generalizing before with
  | nil =>
      rw [writtenBy, List.flatMap_nil, List.append_nil]
      exact stand.1
  | cons first earlier inductionHypothesis =>
      rw [writtenBy_cons, ← List.append_assoc]
      exact inductionHypothesis stand.2

/-- A token other than the end of file has characters. -/
theorem LongestToken.ne_nil {kind : TokenKind} {text rest : List Char}
    (token : LongestToken rest kind text) : text ≠ [] := by
  cases token with
  | keyword k ends =>
      rcases k.text_eq_cons with ⟨first, more, text, -, -⟩
      rw [text]
      exact List.cons_ne_nil first more
  | _ => exact List.cons_ne_nil _ _

/-- The end of file is no text of the source. -/
theorem LongestToken.ne_endOfFile {kind : TokenKind} {text rest : List Char}
    (token : LongestToken rest kind text) : kind ≠ .endOfFile := by
  cases token <;> exact TokenKind.noConfusion

/-- A text has pieces up to its end or up to a fault. -/
theorem exists_pieces (before text : List Char) :
    ∃ pieces gap rest, text = writtenBy pieces ++ (gap ++ rest) ∧
      PiecesStand before (gap ++ rest) pieces ∧ IsGap rest gap ∧
      (rest = [] ∨ ∃ fault, Faulty fault rest) := by
  rcases exists_reading text with
    ⟨gap, rest, rfl, isGap, ended | ⟨kind, run, more, token, rfl⟩ | fault⟩
  · exact ⟨[], gap, rest, rfl, trivial, isGap, .inl ended⟩
  · -- The token has a character, so less is left behind it.
    have shorter : more.length < (gap ++ (run ++ more)).length := by
      have positive := List.length_pos_iff.mpr token.ne_nil
      simp only [List.length_append]
      omega
    let p : SourcePiece := ⟨gap, kind, String.ofList run, Location.start.after (before ++ gap)⟩
    have text : p.text = run := String.toList_ofList
    have written : p.written = gap ++ run := by rw [SourcePiece.written, text]
    rcases exists_pieces (before ++ p.written) more with
      ⟨pieces, lastGap, rest, rfl, stand, isLastGap, ended⟩
    refine ⟨p :: pieces, lastGap, rest, ?_, ⟨⟨?_, ?_, rfl⟩, stand⟩, isLastGap, ended⟩
    · rw [writtenBy_cons, written, List.append_assoc, List.append_assoc]
    · rw [text]
      exact isGap
    · rw [text]
      exact token
  · exact ⟨[], gap, rest, rfl, trivial, isGap, .inr fault⟩
termination_by text.length

namespace Lexer

/-- The lexer finds the pieces of a source. -/
theorem items_of_pieces (source : List Char) {pieces : List SourcePiece} {before behind : List Char}
    (stand : PiecesStand before behind pieces) :
    (Lexer.mk source ⟨Location.start.after before, writtenBy pieces ++ behind⟩).items =
      pieces.map (fun p => .ok p.token) ++
        (Lexer.mk source ⟨Location.start.after (before ++ writtenBy pieces), behind⟩).items := by
  induction pieces generalizing before with
  | nil =>
      rw [writtenBy, List.flatMap_nil, List.append_nil]
      rfl
  | cons p pieces inductionHypothesis =>
      rcases stand with ⟨standsIn, others⟩
      have token : (⟨p.token.kind, String.ofList p.text,
          (Location.start.after before).after p.gap⟩ : Token) = p.token := by
        rw [← Location.after_append, ← standsIn.start, SourcePiece.text, String.ofList_toList]
      have read : Cursor.next ⟨Location.start.after before,
          p.gap ++ (p.text ++ (writtenBy pieces ++ behind))⟩ = _ :=
        Cursor.next_of_token standsIn.isGap standsIn.longest
      rw [token, ← Location.after_append] at read
      have whole : writtenBy (p :: pieces) ++ behind =
          p.gap ++ (p.text ++ (writtenBy pieces ++ behind)) := by
        rw [writtenBy_cons, SourcePiece.written, List.append_assoc, List.append_assoc]
      have next : Lexer.next ⟨source, ⟨Location.start.after before,
          writtenBy (p :: pieces) ++ behind⟩⟩ = (.ok p.token,
            ⟨source, ⟨Location.start.after (before ++ p.written),
              writtenBy pieces ++ behind⟩⟩) := by
        rw [Lexer.next, whole, read]
        rfl
      rw [items_of_more next standsIn.longest.ne_endOfFile, inductionHypothesis others,
        writtenBy_cons, List.append_assoc]
      rfl

/-- Behind the last token comes the end of the source or a fault. -/
theorem items_of_gap (source before : List Char) {gap rest : List Char} (isGap : IsGap rest gap)
    (ended : rest = [] ∨ ∃ fault, Faulty fault rest) :
    ∃ last, (Lexer.mk source ⟨Location.start.after before, gap ++ rest⟩).items = [last] ∧
      (rest = [] ∧ last = .ok ⟨.endOfFile, "", Location.start.after (before ++ gap)⟩ ∨
        ∃ fault, Faulty fault rest ∧
          last = .error (.locate source fault (Location.start.after (before ++ gap)))) := by
  rcases ended with rfl | ⟨fault, faulty⟩
  · rw [List.append_nil]
    have next : Lexer.next ⟨source, ⟨Location.start.after before, gap⟩⟩ =
        (.ok ⟨.endOfFile, "", Location.start.after (before ++ gap)⟩,
          ⟨source, ⟨Location.start.after (before ++ gap), []⟩⟩) := by
      rw [Lexer.next, Cursor.next_of_end isGap, ← Location.after_append]
      rfl
    exact ⟨_, items_of_last next rfl, .inl ⟨rfl, rfl⟩⟩
  · have item : (Lexer.next ⟨source, ⟨Location.start.after before, gap ++ rest⟩⟩).1 =
        .error (.locate source fault (Location.start.after (before ++ gap))) := by
      rw [Lexer.next, Cursor.next_of_fault isGap faulty, ← Location.after_append]
      rfl
    exact ⟨_, items_of_error (Prod.ext item rfl), .inr ⟨fault, faulty, rfl⟩⟩

/-- The items of a source are the tokens of its pieces, and one more. -/
theorem items_of_source (source : List Char) :
    ∃ (pieces : List SourcePiece) (gap rest : List Char) (last : Item),
      (Lexer.ofSource source).items = pieces.map (fun p => .ok p.token) ++ [last] ∧
      source = writtenBy pieces ++ (gap ++ rest) ∧ PiecesStand [] (gap ++ rest) pieces ∧
      IsGap rest gap ∧
      (rest = [] ∧ last = .ok ⟨.endOfFile, "", Location.start.after (writtenBy pieces ++ gap)⟩ ∨
        ∃ fault, Faulty fault rest ∧
          last =
            .error (.locate source fault (Location.start.after (writtenBy pieces ++ gap)))) := by
  rcases exists_pieces [] source with ⟨pieces, gap, rest, written, stand, isGap, ended⟩
  rcases items_of_gap source (writtenBy pieces) isGap ended with ⟨last, lastItem, isLast⟩
  refine ⟨pieces, gap, rest, last, ?_, written, stand, isGap, isLast⟩
  have items := items_of_pieces source stand
  rw [← written] at items
  rw [← lastItem]
  exact items

/-- A token of a source is the longest one at its place, unless it is the end of file. -/
theorem longest_of_mem {source : List Char} {t : Token}
    (member : .ok t ∈ (Lexer.ofSource source).items) (more : t.kind ≠ .endOfFile) :
    ∃ behind, LongestToken behind t.kind t.text.toList := by
  rcases items_of_source source with ⟨pieces, gap, rest, last, items, -, stand, -, isLast⟩
  rw [items, List.mem_append, List.mem_singleton] at member
  rcases member with isPiece | rfl
  · rcases List.mem_map.mp isPiece with ⟨p, inPieces, same⟩
    rcases List.mem_iff_append.mp inPieces with ⟨earlier, later, rfl⟩
    cases same
    exact ⟨_, stand.of_append.longest⟩
  · rcases isLast with ⟨-, isEnd⟩ | ⟨fault, -, isFault⟩
    · cases isEnd
      exact absurd rfl more
    · cases isFault

end Lexer

/-! ## Lexemes of a text -/

/-- Wherever the text stands at the end of a source, the lexer splits it into tokens with the given
lexemes. -/
def LexesAt (text : List Char) (lexemes : List Lexeme) : Prop :=
  ∀ source here, ∃ tokens : List Token,
    (Lexer.mk source ⟨here, text⟩).items = tokens.map .ok ∧ tokens.map Token.lexeme = lexemes

namespace LexesAt

variable {text rest : List Char} {lexemes : List Lexeme}

/-- A text that can be read from any place can be read as a source. -/
theorem lexes (lexesAt : LexesAt text lexemes) : Lexes text lexemes := lexesAt text .start

/-- The end of file at the end of the text. -/
theorem nil : LexesAt [] [.endOfFile] := fun _ here =>
  ⟨[⟨.endOfFile, "", here⟩], Lexer.items_of_last rfl rfl, rfl⟩

/-- A blank in front of a text changes nothing but places. -/
theorem blank {c : Char} (isBlank : isBlank c = true) (lexesAt : LexesAt rest lexemes) :
    LexesAt (c :: rest) lexemes := by
  intro source here
  rcases lexesAt source (here.advance c) with ⟨tokens, items, written⟩
  refine ⟨tokens, ?_, written⟩
  have next : Lexer.next ⟨source, ⟨here, c :: rest⟩⟩ =
      Lexer.next ⟨source, ⟨here.advance c, rest⟩⟩ := by
    simp only [Lexer.next, Cursor.next, Cursor.skipGap, skipGap_blank isBlank]
  rw [Lexer.items, Lexer.itemsBehind] at items ⊢
  rw [next]
  exact items

/-- The longest token is split off. -/
theorem token {kind : TokenKind} {run : List Char} (longest : LongestToken rest kind run)
    (lexesAt : LexesAt rest lexemes) :
    LexesAt (run ++ rest) (Token.lexeme ⟨kind, String.ofList run, .start⟩ :: lexemes) := by
  intro source here
  rcases lexesAt source (here.after run) with ⟨tokens, items, written⟩
  have read : Cursor.next ⟨here, [] ++ (run ++ rest)⟩ = _ := Cursor.next_of_token .nil longest
  have next : Lexer.next ⟨source, ⟨here, run ++ rest⟩⟩ =
      (.ok ⟨kind, String.ofList run, here⟩, ⟨source, ⟨here.after run, rest⟩⟩) := by
    rw [List.nil_append] at read
    rw [Lexer.next, read]
    rfl
  refine ⟨⟨kind, String.ofList run, here⟩ :: tokens, ?_, ?_⟩
  · rw [Lexer.items_of_more next longest.ne_endOfFile, items]
    rfl
  · rw [List.map_cons, written]
    rfl

/-- A symbol in front of a text.  The slash is left out, since it may open a comment there. -/
theorem symbol (p : Punctuation) (notSlash : p ≠ .slash) (lexesAt : LexesAt rest lexemes) :
    LexesAt (p.char :: rest) (.symbol p :: lexemes) :=
  lexesAt.token (.symbol p fun isSlash => absurd isSlash notSlash)

/-- A reserved word in front of a text that does not go on with the word. -/
theorem keyword (k : Keyword) (ends : Ends isWordCharacter rest)
    (lexesAt : LexesAt rest lexemes) :
    LexesAt (k.text.toList ++ rest) (.keyword k :: lexemes) :=
  lexesAt.token (.keyword k ends)

/-- An identifier in front of a text that does not go on with the word. -/
theorem identifier (name : String) (longest : LongestToken rest .identifier name.toList)
    (lexesAt : LexesAt rest lexemes) :
    LexesAt (name.toList ++ rest) (.identifier name :: lexemes) := by
  have lexesAt := lexesAt.token longest
  rwa [String.ofList_toList] at lexesAt

end LexesAt

end Jack
