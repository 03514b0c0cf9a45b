import Mathlib.Data.List.TakeWhile
import Jack.Proofs.Text.Location
import Jack.Token.Diagnostic

namespace Jack

/-!
# The line around an offset

A line of a source is what stands between two neighbouring line feeds or the ends of the source,
without the carriage returns at its end.  The line found at an offset stands around that offset
(`Line.standsAround_around`), also when the offset is that of a line feed, which ends its line, and
when it lies past the end of the source.  A diagnostic quotes this line and puts a caret below it,
in the column of the offset (`isQuotation_ofOffset`).
-/

namespace Line

/-! ## Carriage returns at the end -/

/-- The carriage returns at the end of a run of characters. -/
def lastReturns (run : List Char) : List Char := (run.reverse.takeWhile (· = '\r')).reverse

/-- A run is what is kept of it and the carriage returns that are trimmed. -/
theorem trimReturns_append_lastReturns (run : List Char) :
    trimReturns run ++ lastReturns run = run := by
  rw [trimReturns, lastReturns, ← List.reverse_append, List.takeWhile_append_dropWhile,
    List.reverse_reverse]

/-- Nothing but carriage returns is trimmed. -/
theorem eq_return_of_mem_lastReturns {run : List Char} {c : Char} (member : c ∈ lastReturns run) :
    c = '\r' := by
  rw [lastReturns, List.mem_reverse] at member
  have isReturn := List.mem_takeWhile_imp member
  exact of_decide_eq_true isReturn

/-- All carriage returns at the end are trimmed.  Those inside of the run stay. -/
theorem getLast?_trimReturns (run : List Char) : (trimReturns run).getLast? ≠ some '\r' := by
  intro isReturn
  have kept := List.head?_dropWhile_not (fun c : Char => c = '\r') run.reverse
  rw [trimReturns, List.getLast?_reverse] at isReturn
  rw [isReturn] at kept
  exact absurd kept (by decide)

/-! ## Where a line stands -/

/-- The line stands between two parts of the source that end it: the earlier part ends with a line
feed, the later one begins with one, or there is nothing more of the source.  Behind the text only
carriage returns are left out. -/
structure StandsBetween (source earlier returns later : List Char) (line : Line) : Prop where
  source_eq : source = earlier ++ (line.text ++ (returns ++ later))
  front : earlier = [] ∨ earlier.getLast? = some '\n'
  back : later = [] ∨ later.head? = some '\n'
  noFeed : '\n' ∉ line.text ++ returns
  onlyReturns : ∀ c ∈ returns, c = '\r'
  trimmed : line.text.getLast? ≠ some '\r'
  start_eq : line.start = byteSize earlier

/-- The line is the one around an offset of the source, or around its end for an offset past it, and
it is found again by slicing the source. -/
structure StandsAround (source : List Char) (offset : Nat) (line : Line) : Prop where
  between : ∃ earlier returns later, line.StandsBetween source earlier returns later ∧
    line.start ≤ min offset (byteSize source) ∧
    min offset (byteSize source) ≤ byteSize (earlier ++ (line.text ++ returns))
  slice_eq : slice source line.start line.size = line.text

/-- There is no line feed in a line. -/
theorem StandsAround.noFeed {source : List Char} {offset : Nat} {line : Line}
    (standsAround : line.StandsAround source offset) : '\n' ∉ line.text := by
  rcases standsAround.between with ⟨earlier, returns, later, between, -⟩
  exact fun member => between.noFeed (List.mem_append_left returns member)

/-- Only up to the end of the source does it matter where the offset is. -/
theorem StandsAround.of_min {source : List Char} {offset : Nat} {line : Line}
    (standsAround : line.StandsAround source (min offset (byteSize source))) :
    line.StandsAround source offset := by
  rcases standsAround with ⟨between, slice_eq⟩
  rw [Nat.min_assoc, Nat.min_self] at between
  exact ⟨between, slice_eq⟩

/-- Text that is made of whole lines ends with a line feed, or it is empty. -/
theorem getLast?_endedLines (lines : List (List Char)) :
    endedLines lines = [] ∨ (endedLines lines).getLast? = some '\n' := by
  rcases List.eq_nil_or_concat lines with rfl | ⟨earlier, last, rfl⟩
  · exact .inl rfl
  · refine .inr ?_
    rw [List.concat_eq_append, endedLines, List.flatMap_append, List.flatMap_singleton,
      ← List.append_assoc, List.getLast?_concat]

/-- Going back from an offset, the first line feed is the one that ends the lines before. -/
theorem split_reverse (lines : List (List Char)) {part : List Char} (noFeed : '\n' ∉ part) :
    (endedLines lines ++ part).reverse.takeWhile (· ≠ '\n') = part.reverse ∧
      (endedLines lines ++ part).reverse.dropWhile (· ≠ '\n') = (endedLines lines).reverse := by
  have inPart : ∀ c ∈ part.reverse, decide (c ≠ '\n') = true := by
    intro c member
    refine decide_eq_true ?_
    rintro rfl
    exact noFeed (List.mem_reverse.mp member)
  have stops : (endedLines lines).reverse.takeWhile (· ≠ '\n') = [] ∧
      (endedLines lines).reverse.dropWhile (· ≠ '\n') = (endedLines lines).reverse := by
    rcases getLast?_endedLines lines with none | feed
    · rw [none]
      exact ⟨rfl, rfl⟩
    · rw [← List.head?_reverse] at feed
      rcases List.head?_eq_some_iff.mp feed with ⟨earlier, reversed⟩
      rw [reversed]
      exact ⟨List.takeWhile_cons_of_neg (by decide), List.dropWhile_cons_of_neg (by decide)⟩
  rw [List.reverse_append, List.takeWhile_append_of_pos inPart, stops.1, List.append_nil,
    List.dropWhile_append_of_pos inPart, stops.2]
  exact ⟨rfl, rfl⟩

/-- Going on from an offset, the line ends in front of the first line feed. -/
theorem split_behind (behind : List Char) :
    '\n' ∉ behind.takeWhile (· ≠ '\n') ∧
      (behind.dropWhile (· ≠ '\n') = [] ∨ (behind.dropWhile (· ≠ '\n')).head? = some '\n') := by
  constructor
  · intro member
    have notFeed := List.mem_takeWhile_imp member
    exact of_decide_eq_true notFeed rfl
  · have stops := List.head?_dropWhile_not (fun c : Char => c ≠ '\n') behind
    cases first : (behind.dropWhile (· ≠ '\n')).head? with
    | none => exact .inl (List.head?_eq_none_iff.mp first)
    | some c =>
        rw [first] at stops
        exact .inr (congrArg some (not_not.mp (of_decide_eq_false stops)))

/-- Around a place there are whole lines before it, the part of its line in front and the part
behind, and the line begins behind the whole lines. -/
theorem around_append (lines : List (List Char)) {part : List Char} (noFeed : '\n' ∉ part)
    (behind : List Char) :
    around (endedLines lines ++ part ++ behind) (byteSize (endedLines lines ++ part)) =
      ⟨byteSize (endedLines lines), trimReturns (part ++ behind.takeWhile (· ≠ '\n'))⟩ := by
  rcases split_reverse lines noFeed with ⟨head, start⟩
  rw [around, cut_append]
  dsimp only
  rw [head, start, byteSize_reverse, List.reverse_reverse]

/-- Past the end the line is the last one. -/
theorem around_of_le {source : List Char} {offset : Nat} (past : byteSize source ≤ offset) :
    around source offset = around source (byteSize source) := by
  have whole {offset : Nat} (past : byteSize source ≤ offset) :
      cut source offset = (source.reverse ++ [], []) :=
    cutFrom_of_le [] ((Nat.zero_add (byteSize source)).trans_le past)
  rw [around, around, whole past, whole le_rfl]

/-- The line that is cut out of the source stands between its neighbours. -/
theorem standsBetween_around (lines : List (List Char)) {part : List Char}
    (noFeed : '\n' ∉ part) (behind : List Char) :
    (around (endedLines lines ++ part ++ behind)
        (byteSize (endedLines lines ++ part))).StandsBetween
      (endedLines lines ++ part ++ behind) (endedLines lines)
      (lastReturns (part ++ behind.takeWhile (· ≠ '\n'))) (behind.dropWhile (· ≠ '\n')) := by
  rcases split_behind behind with ⟨noFeedBehind, back⟩
  have kept := trimReturns_append_lastReturns (part ++ behind.takeWhile (· ≠ '\n'))
  rw [around_append lines noFeed]
  refine ⟨?_, getLast?_endedLines lines, back, ?_, fun c => eq_return_of_mem_lastReturns,
    getLast?_trimReturns _, rfl⟩
  · rw [← List.append_assoc (trimReturns _), kept, List.append_assoc, List.append_assoc,
      List.takeWhile_append_dropWhile]
  · rw [kept, List.mem_append]
    exact not_or.mpr ⟨noFeed, noFeedBehind⟩

/-- Around every boundary between characters, the line that is found is the line there. -/
theorem standsAround_of_boundary {source : List Char} {offset : Nat}
    (boundary : IsBoundary source offset) : (around source offset).StandsAround source offset := by
  rcases boundary with ⟨before, behind, rfl, rfl⟩
  rcases exists_endedLines before with ⟨lines, part, rfl, areLines, noFeed⟩
  have between := standsBetween_around lines noFeed behind
  have within : byteSize (endedLines lines ++ part) ≤
      byteSize (endedLines lines ++ part ++ behind) := by
    rw [byteSize_append (endedLines lines ++ part)]
    exact Nat.le_add_right ..
  refine ⟨⟨endedLines lines, _, _, between, ?_, ?_⟩, ?_⟩
  · rw [between.start_eq, Nat.min_eq_left within, byteSize_append]
    exact Nat.le_add_right ..
  · rw [Nat.min_eq_left within, around_append lines noFeed, trimReturns_append_lastReturns,
      ← List.append_assoc, byteSize_append (endedLines lines ++ part)]
    exact Nat.le_add_right ..
  · have sliced := slice_append (endedLines lines)
      (around (endedLines lines ++ part ++ behind) (byteSize (endedLines lines ++ part))).text
      (lastReturns (part ++ behind.takeWhile (· ≠ '\n')) ++ behind.dropWhile (· ≠ '\n'))
    rwa [← between.source_eq, ← between.start_eq] at sliced

/-- The line found at an offset is the one around it. -/
theorem standsAround_around {source : List Char} {offset : Nat}
    (askable : IsBoundary source offset ∨ byteSize source < offset) :
    (around source offset).StandsAround source offset := by
  rcases askable with boundary | past
  · exact standsAround_of_boundary boundary
  · have atEnd := standsAround_of_boundary ⟨source, [], (List.append_nil source).symm, rfl⟩
    rw [around_of_le past.le]
    apply StandsAround.of_min
    rwa [Nat.min_eq_right past.le]

end Line

/-! ## Quotations -/

/-- A diagnostic's context: the line, and below it a caret behind as many spaces as there are
columns in front of the given one. -/
def IsQuotation (context : String) (line : Line) (column : Nat) : Prop :=
  context.toList.splitOn '\n' = [line.text, List.replicate (column - 1) ' ' ++ ['^']]

/-- The quotation is the line and a caret below the column.  If the column is beyond the end of the
line, the caret is, too. -/
theorem isQuotation_markedLine {source : List Char} {place : Location}
    (noFeed : '\n' ∉ (Line.around source place.offset).text) :
    IsQuotation (markedLine source place) (Line.around source place.offset) place.column := by
  have noFeedBelow : '\n' ∉ List.replicate (place.column - 1) ' ' ++ ['^'] := by
    rw [List.mem_append, List.mem_singleton]
    rintro (isSpace | isCaret)
    · exact absurd (List.eq_of_mem_replicate isSpace) (by decide)
    · exact absurd isCaret (by decide)
  rw [IsQuotation, markedLine, String.toList_ofList,
    List.splitOn_append_cons_self_of_not_mem noFeed, List.splitOn_eq_singleton noFeedBelow]

/-- A diagnostic at the place of an offset quotes the line around this offset. -/
theorem isQuotation_ofOffset {source : List Char} {offset : Nat}
    (askable : IsBoundary source offset ∨ byteSize source < offset) :
    IsQuotation (markedLine source (.ofOffset source offset)) (.around source offset)
      (Location.ofOffset source offset).column := by
  have sameLine : Line.around source (Location.ofOffset source offset).offset =
      Line.around source offset := by
    rcases askable with ⟨before, behind, rfl, rfl⟩ | past
    · rw [Location.ofOffset_append, Location.offset_after_start]
    · rw [Location.ofOffset_of_le past.le, Location.offset_after_start, Line.around_of_le past.le]
  rw [← sameLine]
  apply isQuotation_markedLine
  rw [sameLine]
  exact (Line.standsAround_around askable).noFeed

/-- Line and column order the offsets between the characters of a source, and the offset is found
again by adding up the earlier lines with their line feeds and the characters in front of the
column.  An offset past the end has the place of the end.  The line around an offset is the text
between the neighbouring line feeds or the ends of the source, without its last carriage returns,
and slicing the source at its bytes gives this text.  Both kinds of diagnostic show it, with a caret
in the column of the offset. -/
theorem places_identify_offsets (source : List Char) :
    (∀ first second, IsBoundary source first → IsBoundary source second →
      (first < second ↔
        (Location.ofOffset source first).position < (Location.ofOffset source second).position)) ∧
    (∀ offset, IsBoundary source offset →
      (Location.ofOffset source offset).offset = offset ∧
        (Location.ofOffset source offset).offsetIn source = offset) ∧
    (∀ offset, byteSize source < offset →
      Location.ofOffset source offset = Location.ofOffset source (byteSize source)) ∧
    ∀ offset, IsBoundary source offset ∨ byteSize source < offset →
      (Line.around source offset).StandsAround source offset ∧
        (∀ fault, IsQuotation (LexError.locate source fault (.ofOffset source offset)).context
          (.around source offset) (Location.ofOffset source offset).column) ∧
        ∀ expected kind text,
          IsQuotation
            (SyntaxError.locate source expected ⟨kind, text, .ofOffset source offset⟩).context
            (.around source offset) (Location.ofOffset source offset).column := by
  refine ⟨fun first second => Location.lt_iff_position_lt, ?_, ?_, ?_⟩
  · intro offset boundary
    refine ⟨?_, Location.offsetIn_ofOffset boundary⟩
    rcases boundary with ⟨before, behind, rfl, rfl⟩
    rw [Location.ofOffset_append, Location.offset_after_start]
  · intro offset past
    rw [Location.ofOffset_of_le past.le, Location.ofOffset_of_le le_rfl]
  · intro offset askable
    have quotation := isQuotation_ofOffset askable
    exact ⟨Line.standsAround_around askable, fun _ => quotation, fun _ _ _ => quotation⟩

/-- A line that ends with two carriage returns, an empty line, a carriage return inside a line,
characters of two and of three bytes, and no line feed at the end. -/
theorem places_identify_offsets_mixed :
    let source := "aé\r\r\n\n\r日x\r".toList
    IsBoundary source 3 ∧ IsBoundary source 11 ∧ byteSize source < 20 ∧
      (3 < 11 ↔ (Location.ofOffset source 3).position < (Location.ofOffset source 11).position) ∧
      (Location.ofOffset source 11).line = 3 ∧ (Location.ofOffset source 11).column = 3 ∧
      (Location.ofOffset source 11).offsetIn source = 11 ∧
      Line.around source 3 = ⟨0, ['a', 'é']⟩ ∧ Line.around source 20 = ⟨7, ['\r', '日', 'x']⟩ ∧
      (Line.around source 20).StandsAround source 20 := by
  intro source
  have third : IsBoundary source 3 := ⟨"aé".toList, "\r\r\n\n\r日x\r".toList, by decide, by decide⟩
  have last : IsBoundary source 11 := ⟨"aé\r\r\n\n\r日".toList, "x\r".toList, by decide, by decide⟩
  have past : byteSize source < 20 := by decide
  rcases places_identify_offsets source with ⟨ordered, found, -, lines⟩
  exact ⟨third, last, past, ordered 3 11 third last, by decide, by decide, (found 11 last).2,
    by decide, by decide, (lines 20 (.inr past)).1⟩

end Jack
