import Jack.Proofs.Stream.Reading

namespace Jack

/-!
# The items of a source and its stream

The lexer reads a source into the list of its items; a stream reads item after item on demand.  Both
see the same lexemes: `lexes_iff_reads` relates a source without lexical faults to a stream that
reaches its end.
-/

namespace Lexer

variable {l l' : Lexer} {t : Token}

/-- Another token is read and kept. -/
theorem itemsBehind_of_more (done : List Item) (read : l.next = (.ok t, l'))
    (more : t.kind ≠ .endOfFile) : itemsBehind done l = itemsBehind (.ok t :: done) l' := by
  rw [itemsBehind]
  split
  · rename_i u m found
    rw [read] at found
    cases found
    rw [dif_neg more]
  · rename_i e m found
    rw [read] at found
    cases found

theorem itemsBehind_of_last (done : List Item) (read : l.next = (.ok t, l'))
    (last : t.kind = .endOfFile) : itemsBehind done l = done.reverse ++ [.ok t] := by
  rw [itemsBehind]
  split
  · rename_i u m found
    rw [read] at found
    cases found
    rw [dif_pos last, List.reverse_cons]
  · rename_i e m found
    rw [read] at found
    cases found

/-- Nothing is read behind a fault. -/
theorem itemsBehind_of_error (done : List Item) {e : LexError} (read : l.next = (.error e, l')) :
    itemsBehind done l = done.reverse ++ [.error e] := by
  rw [itemsBehind]
  split
  · rename_i u m found
    rw [read] at found
    cases found
  · rename_i e' m found
    rw [read] at found
    cases found
    rw [List.reverse_cons]

/-- The items in front stay in front. -/
theorem itemsBehind_append (done before : List Item) (l : Lexer) :
    itemsBehind (done ++ before) l = before.reverse ++ itemsBehind done l := by
  induction done, l using itemsBehind.induct with
  | case1 done l t l' read last =>
      rw [itemsBehind_of_last _ read last, itemsBehind_of_last _ read last, List.reverse_append,
        List.append_assoc]
  | case2 done l t l' read more inductionHypothesis =>
      rw [itemsBehind_of_more _ read more, itemsBehind_of_more _ read more]
      exact inductionHypothesis
  | case3 done l e l' read =>
      rw [itemsBehind_of_error _ read, itemsBehind_of_error _ read, List.reverse_append,
        List.append_assoc]

/-- A token, and the items behind it. -/
theorem items_of_more (read : l.next = (.ok t, l')) (more : t.kind ≠ .endOfFile) :
    l.items = .ok t :: l'.items := by
  rw [items, itemsBehind_of_more [] read more]
  exact itemsBehind_append [] [.ok t] l'

/-- The end of file is the last item. -/
theorem items_of_last (read : l.next = (.ok t, l')) (last : t.kind = .endOfFile) :
    l.items = [.ok t] :=
  itemsBehind_of_last [] read last

/-- A fault is the last item. -/
theorem items_of_error {e : LexError} (read : l.next = (.error e, l')) : l.items = [.error e] :=
  itemsBehind_of_error [] read

/-- The first item is the next one, and the others are those behind it, unless it is the last. -/
theorem next_of_items_eq_cons {rest : List Item} (items : l.items = .ok t :: rest) :
    l.next = (.ok t, l.next.2) ∧
      rest = if t.kind = .endOfFile then [] else l.next.2.items := by
  cases read : l.next with
  | mk result behind =>
      cases result with
      | error e =>
          rw [items_of_error read] at items
          cases items
      | ok u =>
          by_cases last : u.kind = .endOfFile
          · rw [items_of_last read last] at items
            cases items
            exact ⟨rfl, by rw [if_pos last]⟩
          · rw [items_of_more read last] at items
            cases items
            exact ⟨rfl, by rw [if_neg last]⟩

/-- The next item is the first of those that are left. -/
theorem head?_items (l : Lexer) : l.items.head? = some l.next.1 := by
  cases read : l.next with
  | mk result behind =>
      cases result with
      | error e =>
          rw [items_of_error read]
          rfl
      | ok t =>
          by_cases last : t.kind = .endOfFile
          · rw [items_of_last read last]
            rfl
          · rw [items_of_more read last]
            rfl

/-- Every source has an item. -/
theorem items_ne_nil (l : Lexer) : l.items ≠ [] := by
  intro empty
  have first := l.head?_items
  rw [empty] at first
  cases first

end Lexer

/-- The lexer splits the whole source into tokens with the given lexemes, the end of file last. -/
def Lexes (source : List Char) (lexemes : List Lexeme) : Prop :=
  ∃ tokens : List Token, (Lexer.ofSource source).items = tokens.map .ok ∧
    tokens.map Token.lexeme = lexemes

/-- What the grammar sees of an item, if it is a token. -/
def Item.lexeme? : Item → Option Lexeme
  | .ok t => some t.lexeme
  | .error _ => none

/-- Evaluation of the items tells the lexemes. -/
theorem lexes_of_items {source : List Char} {lexemes : List Lexeme}
    (same : (Lexer.ofSource source).items.map Item.lexeme? = lexemes.map some) :
    Lexes source lexemes := by
  unfold Lexes
  generalize (Lexer.ofSource source).items = items at same ⊢
  induction items generalizing lexemes with
  | nil => exact ⟨[], rfl, (List.map_eq_nil_iff.mp same.symm).symm⟩
  | cons item rest inductionHypothesis =>
      cases lexemes with
      | nil => cases same
      | cons l others =>
          rw [List.map_cons, List.map_cons, List.cons.injEq] at same
          rcases inductionHypothesis same.2 with ⟨tokens, rfl, rfl⟩
          cases item with
          | ok t =>
              refine ⟨t :: tokens, rfl, ?_⟩
              rw [List.map_cons, Option.some.inj same.1]
          | error e => cases same.1

namespace TokenStream

/-- The stream stands where the lexer reads its next item. -/
def StandsAt (s : TokenStream) (l : Lexer) : Prop :=
  s.source = l.source ∧ s.current = l.next.1 ∧ s.ahead = l.next.2.cursor

/-- At first, the stream stands where the lexer does. -/
theorem standsAt_ofSource (source : List Char) :
    (ofSource source).StandsAt (Lexer.ofSource source) :=
  ⟨rfl, rfl, rfl⟩

/-- Passing a token moves the stream and the lexer together. -/
theorem StandsAt.advance {s : TokenStream} {l : Lexer} {t : Token} (stands : s.StandsAt l)
    (current : s.current = .ok t) (more : t.kind ≠ .endOfFile) :
    s.advance.StandsAt l.next.2 := by
  rcases stands with ⟨sameSource, -, sameAhead⟩
  simp only [StandsAt, TokenStream.advance, current, more, if_false, sameSource, sameAhead]
  exact ⟨rfl, rfl, rfl⟩

/-- The item at which the stream stands is the first of those that are left. -/
theorem StandsAt.items_of_ok {s : TokenStream} {l : Lexer} {t : Token} (stands : s.StandsAt l)
    (current : s.current = .ok t) : ∃ rest, l.items = .ok t :: rest := by
  have read : l.next = (.ok t, l.next.2) := by rw [← current, stands.2.1]
  by_cases last : t.kind = .endOfFile
  · exact ⟨[], Lexer.items_of_last read last⟩
  · exact ⟨_, Lexer.items_of_more read last⟩

/-- A stream that stands at a fault has no items behind it. -/
theorem StandsAt.items_of_error {s : TokenStream} {l : Lexer} {e : LexError}
    (stands : s.StandsAt l) (fault : s.current = .error e) : l.items = [.error e] := by
  have read : l.next = (.error e, l.next.2) := by rw [← fault, stands.2.1]
  exact Lexer.items_of_error read

/-- Going on is counted, also behind the last item. -/
theorem position_advance (s : TokenStream) : s.advance.position = s.position + 1 := by
  unfold advance
  split
  · split <;> rfl
  · rfl

/-- A stream counts what it reads. -/
theorem Reads.position_eq {s s' : TokenStream} {lexemes : List Lexeme}
    (reads : s.Reads lexemes s') : s'.position = s.position + lexemes.length := by
  induction reads with
  | nil s => rfl
  | @cons s s' t rest current more _ inductionHypothesis =>
      rw [inductionHypothesis, position_advance, List.length_cons, Nat.add_assoc,
        Nat.add_comm 1]

/-- What is read on the way from one stream to another is determined. -/
theorem Reads.lexemes_unique {s s' : TokenStream} {lexemes lexemes' : List Lexeme}
    (reads : s.Reads lexemes s') (reads' : s.Reads lexemes' s') : lexemes = lexemes' := by
  have sameLength : lexemes.length = lexemes'.length :=
    Nat.add_left_cancel (reads.position_eq.symm.trans reads'.position_eq)
  induction reads generalizing lexemes' with
  | nil s => exact (List.length_eq_zero_iff.mp sameLength.symm).symm
  | cons current more _ inductionHypothesis =>
      cases reads' with
      | nil => cases sameLength
      | cons current' _ behind' =>
          cases current.symm.trans current'
          rw [inductionHypothesis behind' (Nat.succ.inj sameLength)]

/-- A stream that reads lexemes sees the items of the lexer. -/
theorem Reads.exists_items {s s' : TokenStream} {lexemes : List Lexeme} {l : Lexer}
    (reads : s.Reads lexemes s') (stands : s.StandsAt l) :
    ∃ (tokens : List Token) (l' : Lexer), l.items = tokens.map .ok ++ l'.items ∧
      tokens.map Token.lexeme = lexemes ∧ s'.StandsAt l' := by
  induction reads generalizing l with
  | nil s => exact ⟨[], l, rfl, rfl, stands⟩
  | @cons s s' t rest current more _ inductionHypothesis =>
      rcases inductionHypothesis (stands.advance current more) with
        ⟨tokens, l', items, written, stands'⟩
      have read : l.next = (.ok t, l.next.2) := by rw [← current, stands.2.1]
      refine ⟨t :: tokens, l', ?_, ?_, stands'⟩
      · rw [Lexer.items_of_more read more, items, List.map_cons, List.cons_append]
      · rw [List.map_cons, written]

/-- A stream that reads lexemes up to the end of file sees the items of the lexer. -/
theorem items_of_reads {s s' : TokenStream} {lexemes : List Lexeme} {l : Lexer}
    (reads : s.Reads lexemes s') (stands : s.StandsAt l)
    (last : s'.Shows (· = .endOfFile)) :
    ∃ tokens : List Token, l.items = tokens.map .ok ∧
      tokens.map Token.lexeme = lexemes ++ [.endOfFile] := by
  rcases reads.exists_items stands with ⟨tokens, l', items, written, stands'⟩
  rcases last with ⟨t, current, kind⟩
  have isLast : t.kind = .endOfFile := of_decide_eq_true kind
  have read : l'.next = (.ok t, l'.next.2) := by rw [← current, stands'.2.1]
  refine ⟨tokens ++ [t], ?_, ?_⟩
  · rw [items, Lexer.items_of_last read isLast, List.map_append, List.map_singleton]
  · rw [List.map_append, written, List.map_singleton, Token.lexeme, isLast]

/-- A stream reads the lexemes that the lexer splits off, up to the end of file. -/
theorem reads_of_items {tokens : List Token} {lexemes : List Lexeme} {s : TokenStream} {l : Lexer}
    (items : l.items = tokens.map .ok)
    (written : tokens.map Token.lexeme = lexemes ++ [.endOfFile]) (stands : s.StandsAt l) :
    ∃ s', s.Reads lexemes s' ∧ s'.Shows (· = .endOfFile) := by
  induction lexemes generalizing tokens s l with
  | nil =>
      rcases List.map_eq_cons_iff.mp written with ⟨t, rest, rfl, same, -⟩
      rw [List.map_cons] at items
      rcases Lexer.next_of_items_eq_cons items with ⟨read, -⟩
      have current : s.current = .ok t := by rw [stands.2.1, read]
      exact ⟨s, .nil s, t, current, decide_eq_true (Token.kind_of_lexeme_eq same)⟩
  | cons first others inductionHypothesis =>
      rcases List.map_eq_cons_iff.mp written with ⟨t, rest, rfl, same, writtenRest⟩
      rw [List.map_cons] at items
      rcases Lexer.next_of_items_eq_cons items with ⟨read, behind⟩
      have current : s.current = .ok t := by rw [stands.2.1, read]
      have more : t.kind ≠ .endOfFile := by
        intro last
        rw [if_pos last, List.map_eq_nil_iff] at behind
        rw [behind, List.map_nil] at writtenRest
        exact List.append_ne_nil_of_right_ne_nil others (List.cons_ne_nil _ _) writtenRest.symm
      rw [if_neg more] at behind
      rcases inductionHypothesis behind.symm writtenRest (stands.advance current more) with
        ⟨s', reads, last⟩
      exact ⟨s', same ▸ .cons current more reads, last⟩

end TokenStream

/-- The lexer splits a source without a fault exactly if a stream reads its lexemes up to the end of
file. -/
theorem lexes_iff_reads {source : List Char} {lexemes : List Lexeme} :
    Lexes source (lexemes ++ [.endOfFile]) ↔
      ∃ s, (TokenStream.ofSource source).Reads lexemes s ∧ s.Shows (· = .endOfFile) := by
  constructor
  · rintro ⟨tokens, items, written⟩
    exact TokenStream.reads_of_items items written (TokenStream.standsAt_ofSource source)
  · rintro ⟨s, reads, last⟩
    exact TokenStream.items_of_reads reads (TokenStream.standsAt_ofSource source) last

end Jack
