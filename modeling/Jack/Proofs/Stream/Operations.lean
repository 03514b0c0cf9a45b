import Jack.Proofs.Lexer.Exact

namespace Jack

/-!
# Streams are lists with a position

A stream reads its source bit by bit, keeps an end of file that it has reached, and replaces a
diagnostic that it has passed.  Seen from outside, it is the list of all items of its source, with
the end of file behind them again and again, and a position in this list: `performAt` tells
from the list and the position alone what an operation answers and how far it moves.
-/

/-- What can be asked of a stream. -/
inductive StreamOperation
  | peek
  | peekNext
  | peekKind
  | next
  | accept (kind : TokenKind)
  | consume (kind : TokenKind)
  | consumeAny (kinds : List TokenKind)

/-- What a stream answers, if it does not fail. -/
inductive StreamAnswer
  | token (t : Token)
  | kind (k : TokenKind)
  /-- Whether a token has been passed. -/
  | passed (found : Bool)
deriving DecidableEq

/-- An answer, or why there is none. -/
abbrev StreamResult := Except TokenError StreamAnswer

/-- The item is handed on as it is. -/
def Item.result : Item → StreamResult
  | .ok t => .ok (.token t)
  | .error e => .error (.lexical e)

/-- Only the kind of the item is handed on. -/
def Item.kindResult : Item → StreamResult
  | .ok t => .ok (.kind t.kind)
  | .error e => .error (.lexical e)

/-- The results of operations one behind the other. -/
def results {σ : Type} (perform : StreamOperation → σ → StreamResult × σ) :
    List StreamOperation → σ → List StreamResult
  | [], _ => []
  | operation :: others, s =>
    (perform operation s).1 :: results perform others (perform operation s).2

/-- What is kept from one state to the next decides about all results. -/
theorem results_eq {σ τ : Type} {perform : StreamOperation → σ → StreamResult × σ}
    {perform' : StreamOperation → τ → StreamResult × τ} (related : σ → τ → Prop)
    (step : ∀ operation s s', related s s' →
      (perform operation s).1 = (perform' operation s').1 ∧
        related (perform operation s).2 (perform' operation s').2)
    (operations : List StreamOperation) {s : σ} {s' : τ} (start : related s s') :
    results perform operations s = results perform' operations s' := by
  induction operations generalizing s s' with
  | nil => rfl
  | cons operation others inductionHypothesis =>
      rcases step operation s s' start with ⟨same, behind⟩
      rw [results, results, same, inductionHypothesis behind]

namespace TokenStream

/-- The result of an operation, and the stream behind it. -/
def perform : StreamOperation → TokenStream → StreamResult × TokenStream
  | .peek, s => (s.peek.result, s)
  | .peekNext, s => (s.peekNext.result, s)
  | .peekKind, s => (s.peek.kindResult, s)
  | .next, s => (s.next.1.result, s.next.2)
  | .accept kind, s =>
    match s.accept kind with
    | .ok (found, behind) => (.ok (.passed found), behind)
    | .error e => (.error (.lexical e), s)
  | .consume kind, s => consumed s (s.consume kind)
  | .consumeAny kinds, s => consumed s (s.consumeAny kinds)
where
  /-- A stream stays where it is if a token cannot be consumed. -/
  consumed (s : TokenStream) : Except TokenError (Token × TokenStream) → StreamResult × TokenStream
    | .ok (t, behind) => (.ok (.token t), behind)
    | .error e => (.error e, s)

end TokenStream

/-! ## The list of all items -/

/-- The item at a position of a source.  Behind its items a source has the end of file without end.
-/
def endlessItem (source : List Char) (position : Nat) : Item :=
  (Lexer.ofSource source).items.getD position (.ok (TokenStream.endToken source))

/-- The item behind the one at a position.  Behind the end of file comes the end of file, and a
diagnostic hides what comes behind it. -/
def itemBehind (source : List Char) (position : Nat) : Item :=
  match endlessItem source position with
  | .ok t => if t.kind = .endOfFile then .ok t else endlessItem source (position + 1)
  | .error e => .error e

/-- The token at a position is consumed if its kind is one of those expected. -/
def consumeAt (source : List Char) (position : Nat) (kinds : List TokenKind) (expected : String) :
    StreamResult × Nat :=
  match endlessItem source position with
  | .ok t =>
    if t.kind ∈ kinds then (.ok (.token t), position + 1)
    else (.error (.syntactic (.locate source expected t)), position)
  | .error e => (.error (.lexical e), position)

/-- The result of an operation at a position of a source, and the position behind it. -/
def performAt (source : List Char) : StreamOperation → Nat → StreamResult × Nat
  | .peek, position => ((endlessItem source position).result, position)
  | .peekNext, position => ((itemBehind source position).result, position)
  | .peekKind, position => ((endlessItem source position).kindResult, position)
  | .next, position => ((endlessItem source position).result, position + 1)
  | .accept kind, position =>
    match endlessItem source position with
    | .ok t =>
      if t.kind = kind then (.ok (.passed true), position + 1)
      else (.ok (.passed false), position)
    | .error e => (.error (.lexical e), position)
  | .consume kind, position => consumeAt source position [kind] kind.name
  | .consumeAny kinds, position =>
    consumeAt source position kinds ("one of " ++ ", ".intercalate (kinds.map TokenKind.name))

namespace Lexer

/-- The end of file is found at the end of the source. -/
theorem eq_endToken_of_mem {source : List Char} {t : Token}
    (member : .ok t ∈ (ofSource source).items) (last : t.kind = .endOfFile) :
    t = TokenStream.endToken source := by
  rcases exists_pieces [] source with ⟨pieces, gap, rest, written, stand, isGap, ended⟩
  rcases items_of_gap source (writtenBy pieces) isGap ended with ⟨lastItem, isLast, endOrFault⟩
  have items := items_of_pieces source stand
  rw [← written, List.nil_append, isLast] at items
  have whole : (ofSource source).items = _ := items
  rw [whole, List.mem_append, List.mem_singleton] at member
  -- All items but the last are tokens that are written in the source.
  rcases member with isPiece | rfl
  · rcases List.mem_map.mp isPiece with ⟨p, inPieces, same⟩
    rcases List.mem_iff_append.mp inPieces with ⟨earlier, later, rfl⟩
    cases same
    exact absurd last stand.of_append.longest.ne_endOfFile
  · rcases endOrFault with ⟨rfl, isEnd⟩ | ⟨fault, -, isFault⟩
    · rw [List.append_nil] at written
      rw [Except.ok.inj isEnd, ← written]
      rfl
    · cases isFault

end Lexer

/-! ## The stream at a position -/

namespace TokenStream

variable {source : List Char} {position : Nat} {s : TokenStream}

/-- The stream stands at a position of the source: either the items from this position on are still
to be read, or all of them have been passed. -/
structure StandsAtPosition (source : List Char) (s : TokenStream) (position : Nat) : Prop where
  sameSource : s.source = source
  rest : (∃ l, s.StandsAt l ∧ (Lexer.ofSource source).items.drop position = l.items) ∨
    ((Lexer.ofSource source).items.drop position = [] ∧ s.current = .ok (endToken source))

/-- At first, the stream stands at the first item. -/
theorem standsAtPosition_ofSource (source : List Char) :
    (ofSource source).StandsAtPosition source 0 :=
  ⟨rfl, .inl ⟨_, standsAt_ofSource source, rfl⟩⟩

namespace StandsAtPosition

/-- The current item is the one at the position. -/
theorem current (stands : s.StandsAtPosition source position) :
    s.current = endlessItem source position := by
  rw [endlessItem, List.getD_eq_getElem?_getD, ← List.head?_drop]
  rcases stands.rest with ⟨l, standsAt, left⟩ | ⟨passed, isEnd⟩
  · rw [left, l.head?_items, standsAt.2.1]
    rfl
  · rw [passed, isEnd]
    rfl

/-- The stream goes on by one position, also behind the last item, where every item is the end of
file. -/
theorem advance (stands : s.StandsAtPosition source position) :
    s.advance.StandsAtPosition source (position + 1) := by
  have isSource : s.advance.source = source := by
    rw [← stands.sameSource]
    unfold TokenStream.advance
    split
    · split <;> rfl
    · rfl
  refine ⟨isSource, ?_⟩
  rw [← List.tail_drop]
  rcases stands.rest with ⟨l, standsAt, left⟩ | ⟨passed, isEnd⟩
  · rw [left]
    cases item : s.current with
    | error e =>
        right
        rw [standsAt.items_of_error item]
        refine ⟨rfl, ?_⟩
        simp only [TokenStream.advance, item, stands.sameSource]
    | ok t =>
        have read : l.next = (.ok t, l.next.2) := by rw [← item, standsAt.2.1]
        by_cases last : t.kind = .endOfFile
        -- The stream keeps its last item, and the list goes on with the same token.
        · right
          have member : .ok t ∈ (Lexer.ofSource source).items.drop position := by
            rw [left, Lexer.items_of_last read last]
            exact List.mem_singleton.mpr rfl
          have isEnd := Lexer.eq_endToken_of_mem (List.mem_of_mem_drop member) last
          rw [Lexer.items_of_last read last]
          refine ⟨rfl, ?_⟩
          simp only [TokenStream.advance, item, last, if_true]
          rw [isEnd]
        · left
          rw [Lexer.items_of_more read last]
          exact ⟨_, standsAt.advance item last, rfl⟩
  · right
    rw [passed]
    refine ⟨rfl, ?_⟩
    have isLast : (endToken source).kind = .endOfFile := rfl
    simp only [TokenStream.advance, isEnd, isLast, if_true]

/-- The item behind the current one is looked at without going on. -/
theorem peekNext (stands : s.StandsAtPosition source position) :
    s.peekNext = itemBehind source position := by
  rw [itemBehind, ← stands.current, ← stands.advance.current]
  cases item : s.current with
  | error e => rw [TokenStream.peekNext, item]
  | ok t =>
      by_cases last : t.kind = .endOfFile
      · simp only [TokenStream.peekNext, item, last, if_true]
      · rw [peekNext_eq item last]
        simp only [last, if_false]

/-- A token of one of the kinds is passed, and otherwise the position stays and there is a
complaint. -/
theorem consumed (stands : s.StandsAtPosition source position) (kinds : List TokenKind)
    (expected : String) :
    (perform.consumed s (s.consumeIf kinds expected)).1 =
        (consumeAt source position kinds expected).1 ∧
      (perform.consumed s (s.consumeIf kinds expected)).2.StandsAtPosition source
        (consumeAt source position kinds expected).2 := by
  rw [consumeAt, ← stands.current, consumeIf]
  cases s.current with
  | error e => exact ⟨rfl, stands⟩
  | ok t =>
      by_cases isExpected : t.kind ∈ kinds
      · simp only [isExpected, if_true]
        exact ⟨rfl, stands.advance⟩
      · simp only [isExpected, if_false]
        refine ⟨?_, stands⟩
        rw [perform.consumed, unexpected, stands.sameSource]

/-- An operation has the result that the list and the position tell, and moves as far. -/
theorem perform (stands : s.StandsAtPosition source position) (operation : StreamOperation) :
    (TokenStream.perform operation s).1 = (performAt source operation position).1 ∧
      (TokenStream.perform operation s).2.StandsAtPosition source
        (performAt source operation position).2 := by
  have item := stands.current
  cases operation with
  | peek => exact ⟨congrArg Item.result item, stands⟩
  | peekNext => exact ⟨congrArg Item.result stands.peekNext, stands⟩
  | peekKind => exact ⟨congrArg Item.kindResult item, stands⟩
  | next => exact ⟨congrArg Item.result item, stands.advance⟩
  | accept kind =>
      rw [TokenStream.perform, performAt, ← item, TokenStream.accept]
      cases s.current with
      | error e => exact ⟨rfl, stands⟩
      | ok t =>
          by_cases same : t.kind = kind
          · simp only [same, if_true]
            exact ⟨trivial, stands.advance⟩
          · simp only [same, if_false]
            exact ⟨trivial, stands⟩
  | consume kind => exact stands.consumed [kind] kind.name
  | consumeAny kinds => exact stands.consumed kinds _

end StandsAtPosition

end TokenStream

end Jack
