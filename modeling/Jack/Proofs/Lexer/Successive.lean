import Mathlib
import Jack.Proofs.Lexer.Exact
import Jack.Token.Stream

namespace Jack

/-!
# Reading on behind faults and behind the end

The items of a source end with its first fault.  The lexer itself may be asked again, as often as
one likes: a fault leaves it in the middle of a string or a number, at the faulty character, or at
the end of the source, and the next result is looked for from there.  Some characters are then read
twice, but the lexer never goes back.

The argument follows the characters.  The lexer always stands behind a part of its source.  A result
is found behind some more characters, and reading it passes some more (`Lexer.next_finds`).  What is
said about offsets compares parts of one source (`Lexer.results_inOrder`).
-/

/-- Where an item begins: a token at its first character, a fault where it is reported. -/
def Item.start : Item → Location
  | .ok t => t.start
  | .error e => e.place

/-- The item is found behind the characters `before` of the source.  A token consists of the
characters `passed`, and it has none exactly if it is the end of file, at the end of the source. -/
def Item.FoundIn (source before passed : List Char) : Item → Prop
  | .ok t => t.start = Location.start.after before ∧ t.text.toList = passed ∧
      (t.kind = .endOfFile ↔ passed = []) ∧ (t.kind = .endOfFile → before = source)
  | .error e => e.place = Location.start.after before

/-- The token stands in the source between two characters, so that slicing the source gives its
text.  Only the end of file is empty, and it stands at the end of the source. -/
structure Token.StandsIn (source : List Char) (t : Token) : Prop where
  between : ∃ before behind, source = before ++ (t.text.toList ++ behind) ∧
    t.start = Location.start.after before ∧ t.start.offset = byteSize before ∧
    t.stop = byteSize (before ++ t.text.toList)
  stop_le : t.stop ≤ byteSize source
  slice_eq : slice source t.start.offset t.size = t.text.toList
  empty_iff : t.size = 0 ↔ t.kind = .endOfFile
  last : t.kind = .endOfFile → t.start.offset = byteSize source

theorem Token.size_eq_byteSize (t : Token) : t.size = byteSize t.text.toList := by
  rw [size, byteSize, String.ofList_toList]

namespace Item.FoundIn

variable {source before passed : List Char} {item : Item} {t : Token}

/-- The offset of an item is the number of bytes in front of it. -/
theorem offset_eq (found : item.FoundIn source before passed) :
    item.start.offset = byteSize before := by
  have place : item.start = Location.start.after before := by
    cases item with
    | ok t => exact found.1
    | error e => exact found
  rw [place, Location.offset_after_start]

/-- A token ends at the number of bytes up to its last character. -/
theorem stop_eq (found : FoundIn source before passed (.ok t)) :
    t.stop = byteSize (before ++ passed) := by
  rw [Token.stop, found.1, Location.offset_after_start, Token.size_eq_byteSize, found.2.1,
    byteSize_append]

/-- The end of file is found at the end of the source, and nothing belongs to it. -/
theorem eq_endToken (found : FoundIn source before passed (.ok t)) (last : t.kind = .endOfFile) :
    t = TokenStream.endToken source := by
  rcases found with ⟨place, text, empty, atEnd⟩
  have noText : t.text = "" := by
    rw [← String.ofList_toList (s := t.text), text, empty.mp last]
  rw [atEnd last] at place
  rcases t with ⟨kind, text, start⟩
  cases last
  cases noText
  cases place
  rfl

end Item.FoundIn

/-! ## What reading passes -/

/-- Reading from the first cursor on passes a part of what is left and ends at the second one. -/
def Cursor.GoesTo (c d : Cursor) : Prop :=
  ∃ passed, c.rest = passed ++ d.rest ∧ d.here = c.here.after passed

namespace Cursor

theorem goesTo_refl (c : Cursor) : c.GoesTo c := ⟨[], rfl, rfl⟩

theorem GoesTo.trans {c d e : Cursor} (first : c.GoesTo d) (second : d.GoesTo e) : c.GoesTo e := by
  rcases first with ⟨passed, left, place⟩
  rcases second with ⟨more, left', place'⟩
  refine ⟨passed ++ more, ?_, ?_⟩
  · rw [left, left', List.append_assoc]
  · rw [place', place, Location.after_append]

/-- Characters are passed one after the other. -/
theorem GoesTo.step {here : Location} {text : List Char} {d : Cursor} (passed : List Char)
    (goes : GoesTo ⟨here.after passed, text⟩ d) : GoesTo ⟨here, passed ++ text⟩ d :=
  GoesTo.trans ⟨passed, rfl, rfl⟩ goes

/-- Skipping a gap passes characters, also if a comment has no end. -/
theorem goesTo_skipGap (part : GapPart) (here : Location) (text : List Char) :
    GoesTo ⟨here, text⟩ (Jack.skipGap part here text).1 := by
  fun_induction Jack.skipGap part here text with
  | case1 here rest inductionHypothesis => exact .step ['/', '/'] inductionHypothesis
  | case2 here rest inductionHypothesis => exact .step ['/', '*'] inductionHypothesis
  | case3 here c rest _ _ _ inductionHypothesis => exact .step [c] inductionHypothesis
  | case4 here c rest => exact goesTo_refl _
  | case5 here => exact goesTo_refl _
  | case6 here c rest inductionHypothesis => exact .step [c] inductionHypothesis
  | case7 here => exact goesTo_refl _
  | case8 opened here rest inductionHypothesis => exact .step ['*', '/'] inductionHypothesis
  | case9 opened here c rest _ inductionHypothesis => exact .step [c] inductionHypothesis
  | case10 opened here => exact goesTo_refl _

/-- A fault stops the cursor at the last character of a run, which is not passed. -/
theorem goesTo_stopAtLast (c : Cursor) (fault : LexicalFault) {run rest : List Char}
    (text : c.rest = run ++ rest) : c.GoesTo (c.stopAtLast fault run rest).2 := by
  refine ⟨run.dropLast, ?_, rfl⟩
  rw [text, stopAtLast, List.dropLast_eq_take, ← List.append_assoc, List.take_append_drop]

/-- Reading a token passes characters, also if there is a fault. -/
theorem goesTo_readToken (c : Cursor) : c.GoesTo c.readToken.2 := by
  unfold readToken
  split
  · rename_i ended
    exact ⟨[], ended, rfl⟩
  · rename_i first rest text
    have split (p : Char → Bool) : c.rest = first :: rest.takeWhile p ++ rest.dropWhile p := by
      rw [text, List.cons_append, List.takeWhile_append_dropWhile]
    split
    · rename_i isQuote
      have quoted := split isStringCharacter
      rw [isQuote] at quoted
      unfold readString
      dsimp only
      split
      · rename_i behind closed
        refine ⟨_, ?_, rfl⟩
        rw [quoted, closed, takeToken, List.append_assoc, List.singleton_append]
      · rename_i ended
        rw [ended] at quoted
        exact goesTo_stopAtLast c _ quoted
      · exact goesTo_stopAtLast c _ quoted
    · split
      · exact ⟨_, split isWordCharacter, rfl⟩
      · split
        · unfold readNumber
          dsimp only
          split
          · exact ⟨_, split Char.isDigit, rfl⟩
          · exact goesTo_stopAtLast c _ (split Char.isDigit)
        · split
          · exact ⟨[first], text, rfl⟩
          · exact goesTo_refl c

/-- The lexer never goes back, and it never leaves out a character without counting it. -/
theorem goesTo_next (c : Cursor) : c.GoesTo c.next.2 := by
  have skipped := goesTo_skipGap .blank c.here c.rest
  unfold next skipGap
  split
  · rename_i behind noComment
    rw [noComment] at skipped
    exact skipped.trans (goesTo_readToken behind)
  · rename_i behind opened unclosed
    rw [unclosed] at skipped
    exact skipped

/-- The result is the same from behind the gap in front of it. -/
theorem next_append_gap {gap rest : List Char} (isGap : IsGap rest gap) (here : Location) :
    next ⟨here, gap ++ rest⟩ = next ⟨here.after gap, rest⟩ := by
  rw [next, skipGap, isGap.skip]
  rfl

end Cursor

namespace Lexer

/-! ## Single results -/

/-- The lexer stands behind the characters `before` of its source. -/
structure StandsBehind (l : Lexer) (before : List Char) : Prop where
  source_eq : l.source = before ++ l.cursor.rest
  here_eq : l.cursor.here = Location.start.after before

theorem standsBehind_ofSource (source : List Char) : (ofSource source).StandsBehind [] :=
  ⟨rfl, rfl⟩

namespace StandsBehind

variable {l : Lexer} {before : List Char}

/-- The offset of the lexer is the number of bytes that it has passed. -/
theorem offset_eq (stands : l.StandsBehind before) : l.cursor.here.offset = byteSize before := by
  rw [stands.here_eq, Location.offset_after_start]

/-- Where the lexer stands after it has passed more characters. -/
theorem pass {d : Cursor} {passed : List Char} (stands : l.StandsBehind before)
    (left : l.cursor.rest = passed ++ d.rest) (place : d.here = l.cursor.here.after passed) :
    (Lexer.mk l.source d).StandsBehind (before ++ passed) where
  source_eq := by rw [stands.source_eq, left, List.append_assoc]
  here_eq := by rw [place, stands.here_eq, Location.after_append]

end StandsBehind

/-- The next result is found behind a gap, and reading it passes a part of what comes behind the
gap. -/
theorem next_finds {l : Lexer} {before : List Char} (stands : l.StandsBehind before) :
    ∃ gap passed, l.next.1.FoundIn l.source (before ++ gap) passed ∧
      l.next.2.StandsBehind (before ++ (gap ++ passed)) := by
  rcases l with ⟨source, here, text⟩
  have place : here = Location.start.after before := stands.here_eq
  rcases exists_reading text with
    ⟨gap, rest, rfl, isGap, rfl | ⟨kind, run, more, token, rfl⟩ | ⟨fault, faulty⟩⟩
  · have read : Lexer.next ⟨source, ⟨here, gap ++ []⟩⟩ =
        (.ok ⟨.endOfFile, "", here.after gap⟩, ⟨source, ⟨here.after gap, []⟩⟩) := by
      rw [Lexer.next, List.append_nil, Cursor.next_of_end isGap]
      rfl
    have whole : source = before ++ (gap ++ []) := stands.source_eq
    rw [List.append_nil] at whole
    have behind := stands.pass (d := ⟨here.after gap, []⟩) rfl rfl
    refine ⟨gap, [], ?_, ?_⟩
    · rw [read, place, ← Location.after_append]
      exact ⟨rfl, rfl, iff_of_true rfl rfl, fun _ => whole.symm⟩
    · rw [read, List.append_nil]
      exact behind
  · have read : Lexer.next ⟨source, ⟨here, gap ++ (run ++ more)⟩⟩ =
        (.ok ⟨kind, String.ofList run, here.after gap⟩,
          ⟨source, ⟨here.after (gap ++ run), more⟩⟩) := by
      rw [Lexer.next, Cursor.next_of_token isGap token]
      rfl
    have behind := stands.pass (d := ⟨here.after (gap ++ run), more⟩)
      (List.append_assoc gap run more).symm rfl
    refine ⟨gap, run, ?_, ?_⟩
    · rw [read, place, ← Location.after_append]
      exact ⟨rfl, String.toList_ofList, iff_of_false token.ne_endOfFile token.ne_nil,
        fun last => absurd last token.ne_endOfFile⟩
    · rw [read]
      exact behind
  · have reported : (Lexer.next ⟨source, ⟨here, gap ++ rest⟩⟩).1 =
        .error (.locate source fault (here.after gap)) := by
      rw [Lexer.next, Cursor.next_of_fault isGap faulty]
      rfl
    -- How far a fault lets the cursor go depends on the fault, but it never falls behind the gap.
    rcases Cursor.goesTo_next ⟨here.after gap, rest⟩ with ⟨passed, left, placeBehind⟩
    rw [← Cursor.next_append_gap isGap] at left placeBehind
    refine ⟨gap, passed, ?_, stands.pass ?_ ?_⟩
    · rw [reported, place, ← Location.after_append]
      rfl
    · rw [List.append_assoc]
      exact congrArg (gap ++ ·) left
    · rw [Location.after_append]
      exact placeBehind

/-! ## Successive results -/

/-- The lexer behind a number of results, whatever they are. -/
def behind (l : Lexer) : Nat → Lexer
  | 0 => l
  | n + 1 => (l.behind n).next.2

/-- The result of a call, counted from zero. -/
def result (l : Lexer) (n : Nat) : Item := (l.behind n).next.1

/-- Calls of the lexer are counted from either end. -/
theorem behind_next (l : Lexer) (n : Nat) : l.next.2.behind n = l.behind (n + 1) := by
  induction n with
  | zero => rfl
  | succ n inductionHypothesis => rw [behind, inductionHypothesis, ← behind]

/-- The first results are the items of what the lexer still has to read. -/
theorem result_of_getElem?_items {l : Lexer} {n : Nat} {item : Item}
    (found : l.items[n]? = some item) : l.result n = item := by
  induction n generalizing l with
  | zero =>
      rw [← List.head?_eq_getElem?, l.head?_items] at found
      exact Option.some.inj found
  | succ n inductionHypothesis =>
      have later : l.next.2.items[n]? = some item := by
        cases read : l.next with
        | mk result behind =>
            cases result with
            | error e =>
                rw [items_of_error read] at found
                cases found
            | ok t =>
                by_cases last : t.kind = .endOfFile
                · rw [items_of_last read last] at found
                  cases found
                · rw [items_of_more read last] at found
                  exact found
      rw [result, ← behind_next]
      exact inductionHypothesis later

/-- The source is kept. -/
theorem source_behind (l : Lexer) (n : Nat) : (l.behind n).source = l.source := by
  induction n with
  | zero => rfl
  | succ n inductionHypothesis => exact inductionHypothesis

/-- After any number of calls, the lexer stands between two characters of the source. -/
theorem exists_standsBehind (source : List Char) (n : Nat) :
    ∃ before, ((ofSource source).behind n).StandsBehind before := by
  induction n with
  | zero => exact ⟨[], standsBehind_ofSource source⟩
  | succ n inductionHypothesis =>
      rcases inductionHypothesis with ⟨before, stands⟩
      rcases next_finds stands with ⟨gap, passed, -, standsNext⟩
      exact ⟨_, standsNext⟩

/-- Every result is found in the source. -/
theorem result_found (source : List Char) (n : Nat) :
    ∃ before gap passed, ((ofSource source).behind n).StandsBehind before ∧
      ((ofSource source).result n).FoundIn source (before ++ gap) passed ∧
      ((ofSource source).behind (n + 1)).StandsBehind (before ++ (gap ++ passed)) := by
  rcases exists_standsBehind source n with ⟨before, stands⟩
  rcases next_finds stands with ⟨gap, passed, found, standsNext⟩
  rw [source_behind] at found
  exact ⟨before, gap, passed, stands, found, standsNext⟩

/-! ## The order of results -/

/-- The lexer never goes back. -/
theorem offset_behind_mono (source : List Char) :
    Monotone fun n => ((ofSource source).behind n).cursor.here.offset := by
  refine monotone_nat_of_le_succ fun n => ?_
  rcases result_found source n with ⟨before, gap, passed, stands, -, standsNext⟩
  rw [stands.offset_eq, standsNext.offset_eq, byteSize_append]
  exact Nat.le_add_right _ _

/-- A result begins no earlier than the lexer stands before its call. -/
theorem offset_behind_le_start (source : List Char) (n : Nat) :
    ((ofSource source).behind n).cursor.here.offset ≤
      ((ofSource source).result n).start.offset := by
  rcases result_found source n with ⟨before, gap, passed, stands, found, -⟩
  rw [stands.offset_eq, found.offset_eq, byteSize_append]
  exact Nat.le_add_right _ _

/-- Behind a result the lexer stands at no earlier place than the result itself. -/
theorem start_le_offset_behind (source : List Char) (n : Nat) :
    ((ofSource source).result n).start.offset ≤
      ((ofSource source).behind (n + 1)).cursor.here.offset := by
  rcases result_found source n with ⟨before, gap, passed, -, found, standsNext⟩
  rw [found.offset_eq, standsNext.offset_eq, ← List.append_assoc, byteSize_append (before ++ gap)]
  exact Nat.le_add_right _ _

/-- A token ends where the lexer stands behind its call.  A fault may begin behind that place, and
so nothing is said about faults. -/
theorem stop_eq_offset_behind {source : List Char} {n : Nat} {t : Token}
    (isToken : (ofSource source).result n = .ok t) :
    t.stop = ((ofSource source).behind (n + 1)).cursor.here.offset := by
  rcases result_found source n with ⟨before, gap, passed, -, found, standsNext⟩
  rw [isToken] at found
  rw [found.stop_eq, standsNext.offset_eq, List.append_assoc]

/-- Nothing but the end of file comes behind the end of file. -/
theorem result_succ_of_endOfFile {source : List Char} {n : Nat}
    (isEnd : (ofSource source).result n = .ok (TokenStream.endToken source)) :
    (ofSource source).result (n + 1) = .ok (TokenStream.endToken source) := by
  rcases result_found source n with ⟨before, gap, passed, -, found, standsNext⟩
  rw [isEnd] at found
  rcases found with ⟨-, -, empty, atEnd⟩
  rw [empty.mp rfl, List.append_nil, atEnd rfl] at standsNext
  have whole := standsNext.source_eq
  rw [source_behind] at whole
  have nothing : ((ofSource source).behind (n + 1)).cursor.rest = [] :=
    List.self_eq_append_right.mp whole
  have place := standsNext.here_eq
  have cursor : ((ofSource source).behind (n + 1)).cursor = ⟨Location.start.after source, []⟩ := by
    rw [← nothing, ← place]
  rw [result, Lexer.next, cursor]
  rfl

/-- Every token that any call gives stands in the source. -/
theorem standsIn_of_result {source : List Char} {n : Nat} {t : Token}
    (isToken : (ofSource source).result n = .ok t) : t.StandsIn source := by
  rcases result_found source n with ⟨before, gap, passed, -, found, standsNext⟩
  rw [isToken] at found
  have offset : t.start.offset = byteSize (before ++ gap) := found.offset_eq
  have stop := found.stop_eq
  rcases found with ⟨place, rfl, empty, atEnd⟩
  have whole := standsNext.source_eq
  rw [source_behind, ← List.append_assoc before, List.append_assoc (before ++ gap)] at whole
  generalize ((ofSource source).behind (n + 1)).cursor.rest = rest at whole
  have split : source = before ++ gap ++ (t.text.toList ++ rest) := whole
  exact
    { between := ⟨before ++ gap, rest, split, place, offset, stop⟩
      stop_le := by
        rw [stop, split, ← List.append_assoc (before ++ gap), byteSize_append _ rest]
        exact Nat.le_add_right _ _
      slice_eq := by rw [offset, t.size_eq_byteSize, split, slice_append]
      empty_iff := by rw [empty, t.size_eq_byteSize, byteSize_eq_zero]
      last := fun isLast => by rw [offset, atEnd isLast] }

/-- However often the lexer is asked, every token stands in the source, and only the end of file is
empty.  Results come in the order of their places, and none comes before the end of an earlier
token.  Once there is the end of file, there is nothing else any more. -/
theorem results_inOrder (source : List Char) (n : Nat) :
    (∀ t, (ofSource source).result n = .ok t → t.StandsIn source) ∧
    (∀ later, n ≤ later →
      ((ofSource source).result n).start.offset ≤
        ((ofSource source).result later).start.offset) ∧
    (∀ t, (ofSource source).result n = .ok t → ∀ later, n < later →
      t.stop ≤ ((ofSource source).result later).start.offset) ∧
    ∀ t, (ofSource source).result n = .ok t → t.kind = .endOfFile → ∀ later, n ≤ later →
      (ofSource source).result later = .ok t := by
  refine ⟨fun t isToken => standsIn_of_result isToken, fun later notBefore => ?_,
    fun t isToken later behind => ?_, fun t isToken last later notBefore => ?_⟩
  · rcases Nat.eq_or_lt_of_le notBefore with rfl | behind
    · exact Nat.le_refl _
    · exact (start_le_offset_behind source n).trans
        ((offset_behind_mono source behind).trans (offset_behind_le_start source later))
  · rw [stop_eq_offset_behind isToken]
    exact (offset_behind_mono source behind).trans (offset_behind_le_start source later)
  · rcases result_found source n with ⟨before, gap, passed, -, found, -⟩
    rw [isToken] at found
    rw [found.eq_endToken last] at isToken ⊢
    induction later, notBefore using Nat.le_induction with
    | base => exact isToken
    | succ later _ inductionHypothesis => exact result_succ_of_endOfFile inductionHypothesis

/-- A broken string, a letter of it that is read again, a number that is too large, its last digit,
and a comment without an end. -/
theorem results_inOrder_brokenString :
    (ofSource "\"äb\n99999 /*".toList).result 0 =
        .error ⟨.newlineInString, ⟨0, 1, 1⟩, "\"äb\n^"⟩ ∧
      (ofSource "\"äb\n99999 /*".toList).result 1 = .ok ⟨.identifier, "b", ⟨3, 1, 3⟩⟩ ∧
      (ofSource "\"äb\n99999 /*".toList).result 5 = .ok ⟨.endOfFile, "", ⟨13, 2, 9⟩⟩ ∧
      (∀ later, 1 < later →
        4 ≤ ((ofSource "\"äb\n99999 /*".toList).result later).start.offset) ∧
      ∀ later, 5 ≤ later →
        (ofSource "\"äb\n99999 /*".toList).result later = .ok ⟨.endOfFile, "", ⟨13, 2, 9⟩⟩ := by
  have letter : (ofSource "\"äb\n99999 /*".toList).result 1 =
      .ok ⟨.identifier, "b", ⟨3, 1, 3⟩⟩ := by
    decide +kernel
  have ended : (ofSource "\"äb\n99999 /*".toList).result 5 = .ok ⟨.endOfFile, "", ⟨13, 2, 9⟩⟩ := by
    decide +kernel
  exact ⟨by decide +kernel, letter, ended, (results_inOrder _ 1).2.2.1 _ letter,
    (results_inOrder _ 5).2.2.2 _ ended rfl⟩

end Lexer

end Jack
