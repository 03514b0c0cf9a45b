import Mathlib
import Jack.Proofs.Lexer.Spans
import Jack.Proofs.Stream.Operations

namespace Jack

/-!
# Streams on top of a look-ahead

A stream can be had from any iterator over the items of a source, if a look-ahead stands between the
two.  It keeps the items that have been looked at and not yet taken.  Each look goes one item
further than the last one, until the next item is taken or the looks are told to start over.
`LookAhead` states no more than this, so it leaves open when the items are read and where they are
kept.

The operations on such a stream start every look over, before they look and again behind it, so
looks never add up.  Hence it gives the same results as the stream that holds its current item, and
both give those of a list with a position (`TokenStream.results_eq_atPosition`).
-/

/-- The item is the last of its source. -/
def Item.isLast : Item → Bool
  | .ok t => t.kind = .endOfFile
  | .error _ => true

/-- An iterator over the items of a source.  It ends behind the first end of file or diagnostic. -/
structure ItemIterator where
  lexer : Lexer
  done : Bool

namespace ItemIterator

/-- The iterator over the items of a source, of which none has been read. -/
def ofSource (source : List Char) : ItemIterator := ⟨.ofSource source, false⟩

/-- The next item, if there is one, and the iterator behind it. -/
def next (i : ItemIterator) : Option Item × ItemIterator :=
  if i.done then (none, i) else (some i.lexer.next.1, ⟨i.lexer.next.2, i.lexer.next.1.isLast⟩)

/-- The iterator yields the items one after the other, and then nothing any more. -/
inductive Yields : ItemIterator → List Item → Prop
  | ended {i : ItemIterator} (next : i.next = (none, i)) : Yields i []
  | item {i behind : ItemIterator} {item : Item} {more : List Item}
    (next : i.next = (some item, behind)) (yields : Yields behind more) : Yields i (item :: more)

/-- An iterator that has ended yields nothing. -/
theorem yields_done (l : Lexer) : Yields ⟨l, true⟩ [] := .ended rfl

/-- The iterator yields just the items of its source. -/
theorem yields_items (l : Lexer) : Yields ⟨l, false⟩ l.items := by
  have step : next ⟨l, false⟩ = (some l.next.1, ⟨l.next.2, l.next.1.isLast⟩) := rfl
  cases read : l.next with
  | mk result behind =>
      rw [read] at step
      cases result with
      | error e =>
          rw [Lexer.items_of_error read]
          exact .item step (yields_done behind)
      | ok t =>
          by_cases last : t.kind = .endOfFile
          · rw [Lexer.items_of_last read last]
            rw [Item.isLast, decide_eq_true last] at step
            exact .item step (yields_done behind)
          · have shorter := Lexer.length_next_lt read last
            rw [Lexer.items_of_more read last]
            rw [Item.isLast, decide_eq_false last] at step
            exact .item step (yields_items behind)
termination_by l.cursor.rest.length

end ItemIterator

/-- A look-ahead in front of an iterator.  A state of it has the items that are still to be taken,
and has looked at a number of them.  Looks may go beyond the last item. -/
structure LookAhead where
  State : Type
  ofIterator : ItemIterator → State
  peek : State → Option Item × State
  resetPeek : State → State
  next : State → Option Item × State
  Has : State → List Item → Nat → Prop
  ofIterator_has : ∀ {i : ItemIterator} {items : List Item}, i.Yields items →
    Has (ofIterator i) items 0
  peek_item : ∀ {s : State} {items : List Item} {looked : Nat}, Has s items looked →
    (peek s).1 = items[looked]?
  peek_has : ∀ {s : State} {items : List Item} {looked : Nat}, Has s items looked →
    Has (peek s).2 items (looked + 1)
  resetPeek_has : ∀ {s : State} {items : List Item} {looked : Nat}, Has s items looked →
    Has (resetPeek s) items 0
  next_item : ∀ {s : State} {items : List Item} {looked : Nat}, Has s items looked →
    (next s).1 = items.head?
  next_has : ∀ {s : State} {items : List Item} {looked : Nat}, Has s items looked →
    Has (next s).2 items.tail 0

/-- A queue of the items that have been looked at and not yet taken, in front of the iterator that
yields the others.  The next look goes to the item behind those that have been looked at. -/
structure LookAheadQueue where
  iterator : ItemIterator
  queue : List Item
  looked : Nat

namespace LookAheadQueue

/-- An empty queue. -/
def ofIterator (i : ItemIterator) : LookAheadQueue := ⟨i, [], 0⟩

/-- A look beyond the queue reads one item more, if there is one. -/
def peek (s : LookAheadQueue) : Option Item × LookAheadQueue :=
  match s.queue[s.looked]? with
  | some item => (some item, { s with looked := s.looked + 1 })
  | none =>
    match s.iterator.next with
    | (some item, behind) => (some item, ⟨behind, s.queue ++ [item], s.looked + 1⟩)
    | (none, behind) => (none, { s with iterator := behind })

/-- The next look goes to the first item again.  The queue is kept. -/
def resetPeek (s : LookAheadQueue) : LookAheadQueue := { s with looked := 0 }

/-- Take the first item, from the queue if it has been looked at. -/
def next (s : LookAheadQueue) : Option Item × LookAheadQueue :=
  match s.queue with
  | item :: queue => (some item, ⟨s.iterator, queue, 0⟩)
  | [] => (s.iterator.next.1, ⟨s.iterator.next.2, [], 0⟩)

/-- Looks that find no item do not count. -/
structure Has (s : LookAheadQueue) (items : List Item) (looked : Nat) : Prop where
  split : ∃ rest, s.iterator.Yields rest ∧ items = s.queue ++ rest
  looked : s.looked = min looked items.length
  inQueue : s.looked ≤ s.queue.length

variable {s : LookAheadQueue} {items : List Item} {looked : Nat}

/-- All items are still to be taken. -/
theorem ofIterator_has {i : ItemIterator} (yields : i.Yields items) : Has (ofIterator i) items 0 :=
  ⟨⟨items, yields, rfl⟩, (Nat.zero_min _).symm, Nat.le_refl 0⟩

namespace Has

/-- A look shows the item that is next to be looked at, or nothing behind the last one. -/
theorem peek (has : Has s items looked) :
    s.peek.1 = items[looked]? ∧ Has s.peek.2 items (looked + 1) := by
  rcases has with ⟨⟨rest, yields, rfl⟩, isLooked, inQueue⟩
  rw [List.length_append] at isLooked
  rw [LookAheadQueue.peek]
  cases queued : s.queue[s.looked]? with
  | some item =>
      have within := (List.getElem?_eq_some_iff.mp queued).1
      have same : s.looked = looked := by omega
      refine ⟨?_, ⟨rest, yields, rfl⟩, ?_, within⟩
      · rw [List.getElem?_append_left (same ▸ within), ← same, queued]
      · rw [List.length_append]
        show s.looked + 1 = _
        omega
  | none =>
      -- Everything in the queue has been looked at, so the look goes to the iterator.
      have beyond := List.getElem?_eq_none_iff.mp queued
      have atEnd : s.looked = s.queue.length := Nat.le_antisymm inQueue beyond
      cases yields with
      | ended nothing =>
          rw [List.length_nil] at isLooked
          simp only [nothing]
          refine ⟨?_, ⟨[], .ended nothing, rfl⟩, ?_, inQueue⟩
          · rw [List.append_nil, List.getElem?_eq_none (by omega)]
          · rw [List.append_nil]
            show s.looked = _
            omega
      | @item _ behind item more read yields =>
          rw [List.length_cons] at isLooked
          have same : s.looked = looked := by omega
          simp only [read]
          refine ⟨?_, ⟨more, yields, ?_⟩, ?_, ?_⟩
          · rw [← same, atEnd, List.getElem?_append_right (Nat.le_refl _), Nat.sub_self]
            rfl
          · rw [List.append_assoc, List.singleton_append]
          · rw [List.length_append, List.length_cons]
            show s.looked + 1 = _
            omega
          · rw [List.length_append, List.length_singleton]
            show s.looked + 1 ≤ _
            omega

/-- Starting over loses no items. -/
theorem resetPeek (has : Has s items looked) : Has s.resetPeek items 0 :=
  ⟨has.split, (Nat.zero_min _).symm, Nat.zero_le _⟩

/-- The first item is taken, and looks start over behind it. -/
theorem next (has : Has s items looked) : s.next.1 = items.head? ∧ Has s.next.2 items.tail 0 := by
  rcases has with ⟨⟨rest, yields, rfl⟩, -, -⟩
  rw [LookAheadQueue.next]
  cases s.queue with
  | cons item queue =>
      exact ⟨rfl, ⟨rest, yields, rfl⟩, (Nat.zero_min _).symm, Nat.zero_le _⟩
  | nil =>
      cases yields with
      | ended nothing =>
          simp only [nothing]
          exact ⟨rfl, ⟨[], .ended nothing, rfl⟩, (Nat.zero_min _).symm, Nat.le_refl 0⟩
      | item read yields =>
          simp only [read]
          exact ⟨rfl, ⟨_, yields, rfl⟩, (Nat.zero_min _).symm, Nat.le_refl 0⟩

end Has

end LookAheadQueue

/-- The look-ahead that queues what it has looked at. -/
def LookAhead.queue : LookAhead where
  State := LookAheadQueue
  ofIterator := LookAheadQueue.ofIterator
  peek := LookAheadQueue.peek
  resetPeek := LookAheadQueue.resetPeek
  next := LookAheadQueue.next
  Has := LookAheadQueue.Has
  ofIterator_has := LookAheadQueue.ofIterator_has
  peek_item has := has.peek.1
  peek_has has := has.peek.2
  resetPeek_has has := has.resetPeek
  next_item has := has.next.1
  next_has has := has.next.2

/-- A stream of the items of a source, on top of a look-ahead. -/
structure LookAheadStream (a : LookAhead) where
  source : List Char
  state : a.State

namespace LookAheadStream

variable {a : LookAhead}

/-- The stream over a source, with its place for the end of file. -/
def ofSource (a : LookAhead) (source : List Char) : LookAheadStream a :=
  ⟨source, a.ofIterator (.ofSource source)⟩

/-- Where the look-ahead has nothing any more, the end of file stands. -/
def orEnd (s : LookAheadStream a) (found : Option Item) : Item :=
  found.getD (.ok (TokenStream.endToken s.source))

/-- The current item. -/
def peek (s : LookAheadStream a) : Item × LookAheadStream a :=
  let looked := a.peek (a.resetPeek s.state)
  (s.orEnd looked.1, { s with state := a.resetPeek looked.2 })

/-- The item behind the current one, with two looks. -/
def peekNext (s : LookAheadStream a) : Item × LookAheadStream a :=
  let first := a.peek (a.resetPeek s.state)
  let second := a.peek first.2
  let found : Item :=
    match s.orEnd first.1 with
    | .ok t => if t.kind = .endOfFile then .ok t else s.orEnd second.1
    | .error e => .error e
  (found, { s with state := a.resetPeek second.2 })

/-- Take the current item. -/
def next (s : LookAheadStream a) : Item × LookAheadStream a :=
  let taken := a.next (a.resetPeek s.state)
  (s.orEnd taken.1, { s with state := taken.2 })

/-- Take the current token if its kind is one of those expected. -/
def consumeIf (s : LookAheadStream a) (kinds : List TokenKind) (expected : String) :
    StreamResult × LookAheadStream a :=
  match s.peek with
  | (.ok t, s) =>
    if t.kind ∈ kinds then (s.next.1.result, s.next.2)
    else (.error (.syntactic (.locate s.source expected t)), s)
  | (.error e, s) => (.error (.lexical e), s)

/-- The result of an operation, and the stream behind it. -/
def perform : StreamOperation → LookAheadStream a → StreamResult × LookAheadStream a
  | .peek, s => (s.peek.1.result, s.peek.2)
  | .peekNext, s => (s.peekNext.1.result, s.peekNext.2)
  | .peekKind, s => (s.peek.1.kindResult, s.peek.2)
  | .next, s => (s.next.1.result, s.next.2)
  | .accept kind, s =>
    match s.peek with
    | (.ok t, s) =>
      if t.kind = kind then
        match s.next with
        | (.ok _, s) => (.ok (.passed true), s)
        | (.error e, s) => (.error (.lexical e), s)
      else (.ok (.passed false), s)
    | (.error e, s) => (.error (.lexical e), s)
  | .consume kind, s => s.consumeIf [kind] kind.name
  | .consumeAny kinds, s =>
    s.consumeIf kinds ("one of " ++ ", ".intercalate (kinds.map TokenKind.name))

/-- The stream stands at a position of the source. -/
structure StandsAtPosition (source : List Char) (s : LookAheadStream a) (position : Nat) :
    Prop where
  sameSource : s.source = source
  rest : ∃ looked, a.Has s.state ((Lexer.ofSource source).items.drop position) looked

variable {source : List Char} {position : Nat} {s : LookAheadStream a}

theorem standsAtPosition_ofSource (a : LookAhead) (source : List Char) :
    (ofSource a source).StandsAtPosition source 0 :=
  ⟨rfl, 0, a.ofIterator_has (ItemIterator.yields_items (.ofSource source))⟩

/-- What is found some items ahead stands there in the list. -/
theorem orEnd_getElem? (sameSource : s.source = source) (ahead : Nat) :
    s.orEnd ((Lexer.ofSource source).items.drop position)[ahead]? =
      endlessItem source (position + ahead) := by
  rw [orEnd, sameSource, List.getElem?_drop, endlessItem, List.getD_eq_getElem?_getD]

namespace StandsAtPosition

/-- A look shows the item at the position.  Behind the last one this is the end of file, which the
stream makes up by itself. -/
theorem peek (stands : s.StandsAtPosition source position) :
    s.peek.1 = endlessItem source position ∧ s.peek.2.StandsAtPosition source position := by
  rcases stands.rest with ⟨looked, has⟩
  have start := a.resetPeek_has has
  refine ⟨?_, stands.sameSource, 0, a.resetPeek_has (a.peek_has start)⟩
  rw [LookAheadStream.peek, a.peek_item start, orEnd_getElem? stands.sameSource, Nat.add_zero]

/-- A look shows the item behind the position. -/
theorem peekNext (stands : s.StandsAtPosition source position) :
    s.peekNext.1 = itemBehind source position ∧
      s.peekNext.2.StandsAtPosition source position := by
  rcases stands.rest with ⟨looked, has⟩
  have start := a.resetPeek_has has
  have second := a.peek_has start
  refine ⟨?_, stands.sameSource, 0, a.resetPeek_has (a.peek_has second)⟩
  rw [LookAheadStream.peekNext, a.peek_item start, a.peek_item second,
    orEnd_getElem? stands.sameSource, orEnd_getElem? stands.sameSource, itemBehind]
  rfl

/-- Taking an item goes on by one position. -/
theorem next (stands : s.StandsAtPosition source position) :
    s.next.1 = endlessItem source position ∧
      s.next.2.StandsAtPosition source (position + 1) := by
  rcases stands.rest with ⟨looked, has⟩
  have start := a.resetPeek_has has
  have behind := a.next_has start
  rw [List.tail_drop] at behind
  refine ⟨?_, stands.sameSource, 0, behind⟩
  rw [LookAheadStream.next, a.next_item start, List.head?_eq_getElem?,
    orEnd_getElem? stands.sameSource, Nat.add_zero]

/-- Consuming asks for the item at the position first, and takes it only if it fits. -/
theorem consumeIf (stands : s.StandsAtPosition source position) (kinds : List TokenKind)
    (expected : String) :
    (s.consumeIf kinds expected).1 = (consumeAt source position kinds expected).1 ∧
      (s.consumeIf kinds expected).2.StandsAtPosition source
        (consumeAt source position kinds expected).2 := by
  rcases stands.peek with ⟨item, looked⟩
  rcases looked.next with ⟨taken, behind⟩
  rw [LookAheadStream.consumeIf, consumeAt]
  generalize s.peek = found at item looked taken behind
  rcases found with ⟨current, s⟩
  dsimp only at item looked taken behind
  subst item
  cases isItem : endlessItem source position with
  | error e => exact ⟨rfl, looked⟩
  | ok t =>
      rw [isItem] at taken
      by_cases isExpected : t.kind ∈ kinds
      · simp only [isExpected, if_true]
        exact ⟨congrArg Item.result taken, behind⟩
      · simp only [isExpected, if_false]
        exact ⟨by rw [looked.sameSource], looked⟩

/-- An operation has the result that the list and the position tell, and moves as far. -/
theorem perform (stands : s.StandsAtPosition source position) (operation : StreamOperation) :
    (LookAheadStream.perform operation s).1 = (performAt source operation position).1 ∧
      (LookAheadStream.perform operation s).2.StandsAtPosition source
        (performAt source operation position).2 := by
  cases operation with
  | peek => exact ⟨congrArg Item.result stands.peek.1, stands.peek.2⟩
  | peekNext => exact ⟨congrArg Item.result stands.peekNext.1, stands.peekNext.2⟩
  | peekKind => exact ⟨congrArg Item.kindResult stands.peek.1, stands.peek.2⟩
  | next => exact ⟨congrArg Item.result stands.next.1, stands.next.2⟩
  | accept kind =>
      rcases stands.peek with ⟨item, looked⟩
      rcases looked.next with ⟨taken, behind⟩
      rw [LookAheadStream.perform, performAt]
      generalize s.peek = found at item looked taken behind
      rcases found with ⟨current, s⟩
      dsimp only at item looked taken behind
      subst item
      cases isItem : endlessItem source position with
      | error e => exact ⟨rfl, looked⟩
      | ok t =>
          rw [isItem] at taken
          by_cases same : t.kind = kind
          · simp only [same, if_true]
            generalize s.next = passed at taken behind
            rcases passed with ⟨t', s⟩
            cases taken
            exact ⟨rfl, behind⟩
          · simp only [same, if_false]
            exact ⟨trivial, looked⟩
  | consume kind => exact stands.consumeIf [kind] kind.name
  | consumeAny kinds => exact stands.consumeIf kinds _

end StandsAtPosition

end LookAheadStream

/-- Every token of the endless list is told by its span. -/
theorem ReadsInSpans.spanTells_of_endlessItem {source : List Char} (reads : ReadsInSpans source)
    {position : Nat} {t : Token} (isToken : endlessItem source position = .ok t) :
    t.SpanTells source := by
  rw [endlessItem, List.getD_eq_getElem?_getD] at isToken
  cases found : (Lexer.ofSource source).items[position]? with
  | none =>
      rw [found] at isToken
      cases isToken
      exact reads.last
  | some item =>
      rw [found] at isToken
      cases isToken
      exact reads.spanTells_of_mem (List.mem_of_getElem? found)

/-- Operations on the stream of a source have the results that the list of the items and a position
tell.  So have operations on a stream on top of any look-ahead.

The offsets of the source have to be words.  Then the items are read as well by spans, the end of
file has the size of the source for its offset, and whatever token the list holds at a position is
told by its span.  Nothing is said about longer sources. -/
theorem TokenStream.results_eq_atPosition {source : List Char}
    (addressable : IsAddressable source) (operations : List StreamOperation) :
    results TokenStream.perform operations (.ofSource source) =
        results (performAt source) operations 0 ∧
      (∀ a : LookAhead, results LookAheadStream.perform operations (.ofSource a source) =
        results (performAt source) operations 0) ∧
      ReadsInSpans source ∧
      (endToken source).span.index.toNat = byteSize source ∧ (endToken source).span.size = 0 ∧
      ∀ position t, endlessItem source position = .ok t → t.SpanTells source := by
  have reads := addressable.readsInSpans
  refine ⟨?_, fun a => ?_, reads, ?_, ?_, fun _ _ => reads.spanTells_of_endlessItem⟩
  · exact results_eq (fun s position => s.StandsAtPosition source position)
      (fun operation _ _ stands => stands.perform operation) operations
      (standsAtPosition_ofSource source)
  · exact results_eq (fun s position => s.StandsAtPosition source position)
      (fun operation _ _ stands => stands.perform operation) operations
      (LookAheadStream.standsAtPosition_ofSource a source)
  · rw [span_endToken]
    exact UInt32.toNat_ofNat_of_lt addressable
  · rw [span_endToken]

/-- Behind a token and a diagnostic comes the end of file.  Neither looks nor a token of another
kind move the stream. -/
theorem TokenStream.results_atPosition_unknownCharacter :
    let operations := [.peekNext, .accept .integer, .peek, .next, .consume .identifier, .next, .next]
    let answers : List StreamResult :=
      [.error (.lexical ⟨.unknownCharacter '$', ⟨2, 1, 3⟩, "a $\n  ^"⟩), .ok (.passed false),
        .ok (.token ⟨.identifier, "a", ⟨0, 1, 1⟩⟩), .ok (.token ⟨.identifier, "a", ⟨0, 1, 1⟩⟩),
        .error (.lexical ⟨.unknownCharacter '$', ⟨2, 1, 3⟩, "a $\n  ^"⟩),
        .error (.lexical ⟨.unknownCharacter '$', ⟨2, 1, 3⟩, "a $\n  ^"⟩),
        .ok (.token ⟨.endOfFile, "", ⟨3, 1, 4⟩⟩)]
    IsAddressable "a $".toList ∧
      results TokenStream.perform operations (.ofSource "a $".toList) = answers ∧
      results LookAheadStream.perform operations (.ofSource .queue "a $".toList) = answers ∧
      Lexer.spannedResult? "a $".toList 0 = some (.ok ⟨.identifier, ⟨0, 1⟩⟩) ∧
      (endToken "a $".toList).span = ⟨3, 0⟩ := by
  intro operations answers
  have atPosition : results (performAt "a $".toList) operations 0 = answers := by cbv
  have addressable : IsAddressable "a $".toList := by decide
  rcases results_eq_atPosition addressable operations with ⟨stream, lookAhead, reads, -, -, -⟩
  refine ⟨addressable, stream.trans atPosition, (lookAhead .queue).trans atPosition, ?_, ?_⟩
  · have first : (Lexer.ofSource "a $".toList).items[0]? =
        some (.ok ⟨.identifier, "a", ⟨0, 1, 1⟩⟩) := by
      cbv
    exact reads.spannedResult?_of_getElem? first
  · decide +kernel

end Jack
