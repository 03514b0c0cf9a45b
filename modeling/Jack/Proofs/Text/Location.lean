import Mathlib.Data.List.Induction
import Mathlib.Data.Prod.Lex
import Jack.Text.Slice

namespace Jack

/-!
# Places identify offsets

The place at an offset is reached by walking over the characters in front of it, one at a time.  The
characters in front of two offsets of one source are prefixes of each other, so the later place is
reached from the earlier one by a further walk, and every step of a walk goes to a later line or to
a later column (`Location.position_lt_advance`).  Hence line and column together order the offsets
(`Location.lt_iff_position_lt`), and the offset is found again from them by counting
(`Location.offsetIn_ofOffset`).
-/

/-! ## Sizes and cuts -/

/-- Every character takes bytes. -/
theorem byteSize_eq_zero {run : List Char} : byteSize run = 0 ↔ run = [] := by
  cases run with
  | nil => exact iff_of_true rfl rfl
  | cons c rest =>
      have positive := c.utf8Size_pos
      rw [byteSize_cons]
      exact iff_of_false (by omega) (List.cons_ne_nil c rest)

theorem byteSize_reverse (run : List Char) : byteSize run.reverse = byteSize run := by
  induction run with
  | nil => rfl
  | cons c run inductionHypothesis =>
      rw [List.reverse_cons, byteSize_append, inductionHypothesis, byteSize_singleton,
        byteSize_cons, Nat.add_comm]

/-- A text is cut where the bytes of its front end.  The front comes back reversed. -/
theorem cutFrom_append (before run behind : List Char) (size : Nat) :
    cutFrom before size (size + byteSize run) (run ++ behind) =
      (run.reverse ++ before, behind) := by
  induction run generalizing before size with
  | nil =>
      cases behind with
      | nil => rfl
      | cons c rest =>
          rw [List.nil_append, cutFrom, byteSize_nil, Nat.add_zero, if_neg (Nat.lt_irrefl size)]
          rfl
  | cons c run inductionHypothesis =>
      have positive := c.utf8Size_pos
      rw [List.cons_append, cutFrom, byteSize_cons, if_pos (by omega), ← Nat.add_assoc,
        inductionHypothesis, List.reverse_cons, List.append_assoc, List.singleton_append]

/-- A text is cut where the bytes of its front end. -/
theorem cut_append (before behind : List Char) :
    cut (before ++ behind) (byteSize before) = (before.reverse, behind) := by
  have cut := cutFrom_append [] before behind 0
  rwa [Nat.zero_add, List.append_nil] at cut

/-- Past the end nothing is left behind the cut. -/
theorem cutFrom_of_le {size offset : Nat} (before : List Char) {text : List Char}
    (past : size + byteSize text ≤ offset) :
    cutFrom before size offset text = (text.reverse ++ before, []) := by
  induction text generalizing before size with
  | nil => rfl
  | cons c rest inductionHypothesis =>
      have positive := c.utf8Size_pos
      rw [byteSize_cons] at past
      rw [cutFrom, if_pos (by omega), inductionHypothesis _ (by omega), List.reverse_cons,
        List.append_assoc, List.singleton_append]

/-- The bytes of a run are found again. -/
theorem slice_append (before run behind : List Char) :
    slice (before ++ (run ++ behind)) (byteSize before) (byteSize run) = run := by
  rw [slice, cut_append, cut_append, List.reverse_reverse]

/-- An offset between two characters of a source, in front of the first, or behind the last. -/
def IsBoundary (source : List Char) (offset : Nat) : Prop :=
  ∃ before behind, source = before ++ behind ∧ byteSize before = offset

/-! ## Whole lines -/

/-- Lines one behind the other, each with the line feed at its end. -/
def endedLines (lines : List (List Char)) : List Char := lines.flatMap (· ++ ['\n'])

/-- The first lines of a text with their line feeds. -/
def leadingLines (count : Nat) (text : List Char) : List Char :=
  endedLines ((text.splitOn '\n').take count)

/-- No line has a line feed inside. -/
def AreLines (lines : List (List Char)) : Prop := ∀ line ∈ lines, '\n' ∉ line

/-- A line and its line feed in front of the others. -/
theorem endedLines_cons (line : List Char) (lines : List (List Char)) :
    endedLines (line :: lines) = line ++ '\n' :: endedLines lines := by
  rw [endedLines, List.flatMap_cons, List.append_assoc, List.singleton_append]
  rfl

/-- As many lines as there are in front are cut off with their line feeds. -/
theorem leadingLines_endedLines {lines : List (List Char)} (areLines : AreLines lines)
    (behind : List Char) : leadingLines lines.length (endedLines lines ++ behind) =
      endedLines lines := by
  induction lines with
  | nil => rfl
  | cons line lines inductionHypothesis =>
      rcases List.forall_mem_cons.mp areLines with ⟨noFeed, areLines⟩
      have text : endedLines (line :: lines) ++ behind =
          line ++ '\n' :: (endedLines lines ++ behind) := by
        rw [endedLines_cons, List.append_assoc, List.cons_append]
      rw [leadingLines, text, List.splitOn_append_cons_self_of_not_mem noFeed, List.length_cons,
        List.take_succ_cons, endedLines_cons, endedLines_cons]
      exact congrArg (fun ended => line ++ '\n' :: ended) (inductionHypothesis areLines)

/-- A text consists of whole lines and of the part of one more line. -/
theorem exists_endedLines (text : List Char) :
    ∃ lines part, text = endedLines lines ++ part ∧ AreLines lines ∧ '\n' ∉ part := by
  induction text using List.reverseRecOn with
  | nil => exact ⟨[], [], rfl, List.forall_mem_nil _, List.not_mem_nil⟩
  | append_singleton text c inductionHypothesis =>
      rcases inductionHypothesis with ⟨lines, part, rfl, areLines, noFeed⟩
      by_cases isFeed : c = '\n'
      · refine ⟨lines ++ [part], [], ?_, ?_, List.not_mem_nil⟩
        · rw [endedLines, endedLines, List.flatMap_append, List.flatMap_singleton, isFeed,
            List.append_nil, List.append_assoc]
        · intro line member
          rcases List.mem_append.mp member with earlier | last
          · exact areLines line earlier
          · rwa [List.mem_singleton.mp last]
      · refine ⟨lines, part ++ [c], (List.append_assoc ..), areLines, ?_⟩
        rw [List.mem_append, List.mem_singleton]
        rintro (member | isLast)
        · exact noFeed member
        · exact isFeed isLast.symm

namespace Location

/-! ## The order of places -/

/-- Line and column, compared by line first. -/
def position (place : Location) : ℕ ×ₗ ℕ := toLex (place.line, place.column)

/-- Places are ordered by lines, and in a line by columns. -/
theorem position_lt_iff {first second : Location} : first.position < second.position ↔
    first.line < second.line ∨ first.line = second.line ∧ first.column < second.column :=
  Prod.Lex.toLex_lt_toLex

/-- Every character leads to a later line, or to a later column of the same line. -/
theorem position_lt_advance (here : Location) (c : Char) :
    here.position < (here.advance c).position := by
  rw [position_lt_iff, advance]
  split
  · exact .inl (Nat.lt_succ_self here.line)
  · exact .inr ⟨rfl, Nat.lt_succ_self here.column⟩

/-- Every character moves the place on, a line feed to a later line and any other to a later column.
-/
theorem position_lt_after (here : Location) {run : List Char} (moves : run ≠ []) :
    here.position < (here.after run).position := by
  induction run generalizing here with
  | nil => exact absurd rfl moves
  | cons c run inductionHypothesis =>
      have step := here.position_lt_advance c
      by_cases isLast : run = []
      · rwa [isLast]
      · exact step.trans (inductionHypothesis (here.advance c) isLast)

/-- Behind a run from the start, the offset is its size in bytes. -/
theorem offset_after_start (run : List Char) : (start.after run).offset = byteSize run := by
  rw [offset_after]
  exact Nat.zero_add _

/-! ## The place at an offset -/

/-- Walking to the offset behind a run ends there. -/
theorem walk_append (here : Location) (run behind : List Char) :
    here.walk (here.offset + byteSize run) (run ++ behind) = here.after run := by
  induction run generalizing here with
  | nil =>
      cases behind with
      | nil => rfl
      | cons c rest =>
          rw [List.nil_append, walk, byteSize_nil, Nat.add_zero, if_neg (Nat.lt_irrefl _)]
          rfl
  | cons c run inductionHypothesis =>
      have positive := c.utf8Size_pos
      rw [List.cons_append, walk, byteSize_cons, if_pos (by omega), ← Nat.add_assoc,
        ← offset_advance, inductionHypothesis, after_cons]

/-- Walking to an offset past the end stops at the end. -/
theorem walk_of_le {here : Location} {text : List Char} {offset : Nat}
    (past : here.offset + byteSize text ≤ offset) : here.walk offset text = here.after text := by
  induction text generalizing here with
  | nil => rfl
  | cons c rest inductionHypothesis =>
      have positive := c.utf8Size_pos
      rw [byteSize_cons] at past
      rw [walk, if_pos (by omega), after_cons]
      apply inductionHypothesis
      rw [offset_advance]
      omega

/-- Behind a part of the source is the place reached by walking over this part. -/
theorem ofOffset_append (before behind : List Char) :
    ofOffset (before ++ behind) (byteSize before) = start.after before := by
  have walked := start.walk_append before behind
  rwa [show start.offset = 0 from rfl, Nat.zero_add] at walked

/-- Past the end is the place of the end. -/
theorem ofOffset_of_le {source : List Char} {offset : Nat} (past : byteSize source ≤ offset) :
    ofOffset source offset = start.after source :=
  walk_of_le ((Nat.zero_add (byteSize source)).trans_le past)

/-- Of two offsets the smaller one has the earlier place. -/
theorem position_lt_of_lt {source : List Char} {first second : Nat}
    (firstBoundary : IsBoundary source first) (secondBoundary : IsBoundary source second)
    (less : first < second) :
    (ofOffset source first).position < (ofOffset source second).position := by
  rcases firstBoundary with ⟨before, behind, rfl, rfl⟩
  rcases secondBoundary with ⟨further, rest, split, rfl⟩
  -- The two parts in front are comparable, and the one in front of the larger offset is longer.
  rcases List.append_eq_append_iff.mp split with ⟨run, rfl, -⟩ | ⟨run, rfl, -⟩
  · have moves : run ≠ [] := by
      rintro rfl
      rw [List.append_nil] at less
      exact Nat.lt_irrefl _ less
    rw [split, ofOffset_append, ← split, ofOffset_append, after_append]
    exact position_lt_after _ moves
  · rw [byteSize_append] at less
    omega

/-- Offsets and places come in the same order. -/
theorem lt_iff_position_lt {source : List Char} {first second : Nat}
    (firstBoundary : IsBoundary source first) (secondBoundary : IsBoundary source second) :
    first < second ↔ (ofOffset source first).position < (ofOffset source second).position := by
  refine ⟨position_lt_of_lt firstBoundary secondBoundary, fun less => ?_⟩
  rcases Nat.lt_trichotomy first second with smaller | rfl | larger
  · exact smaller
  · exact absurd less (lt_irrefl _)
  · exact absurd less (position_lt_of_lt secondBoundary firstBoundary larger).asymm

/-! ## Counting lines and columns -/

/-- A part of a line moves on in the line by its characters and in the source by its bytes. -/
theorem after_part (here : Location) {part : List Char} (noFeed : '\n' ∉ part) :
    here.after part =
      ⟨here.offset + byteSize part, here.line, here.column + part.length⟩ := by
  induction part generalizing here with
  | nil => rfl
  | cons c part inductionHypothesis =>
      rw [List.mem_cons, not_or] at noFeed
      rcases noFeed with ⟨notFeed, noFeed⟩
      rw [after_cons, advance, if_neg (Ne.symm notFeed), inductionHypothesis _ noFeed,
        byteSize_cons, List.length_cons, Nat.add_assoc, Nat.add_right_comm here.column,
        Nat.add_assoc here.column]

/-- Whole lines move on by their number, and to the first column. -/
theorem after_endedLines (here : Location) {lines : List (List Char)} (areLines : AreLines lines) :
    (here.after (endedLines lines)).line = here.line + lines.length ∧
      (here.column = 1 → (here.after (endedLines lines)).column = 1) := by
  induction lines generalizing here with
  | nil => exact ⟨rfl, id⟩
  | cons line lines inductionHypothesis =>
      rcases List.forall_mem_cons.mp areLines with ⟨noFeed, areLines⟩
      rw [endedLines_cons, after_append, after_part here noFeed, after_cons, advance, if_pos rfl]
      rcases inductionHypothesis _ areLines with ⟨line, column⟩
      refine ⟨?_, fun _ => column rfl⟩
      rw [line, List.length_cons, Nat.add_assoc, Nat.add_comm 1]

/-- Behind whole lines and a part of the next, the line counts the line feeds and the column the
characters of the part. -/
theorem after_start {lines : List (List Char)} {part : List Char} (areLines : AreLines lines)
    (noFeed : '\n' ∉ part) : start.after (endedLines lines ++ part) =
      ⟨byteSize (endedLines lines ++ part), lines.length + 1, part.length + 1⟩ := by
  rcases start.after_endedLines areLines with ⟨line, column⟩
  rw [after_append, after_part _ noFeed, line, column rfl, offset_after_start, byteSize_append,
    Nat.add_comm 1 part.length]
  exact congrArg (Location.mk _ · _) (Nat.add_comm 1 lines.length)

/-- The offset that line and column name: the size of the earlier lines with their line feeds, and
of the characters in front of the column. -/
def offsetIn (source : List Char) (place : Location) : Nat :=
  let lines := leadingLines (place.line - 1) source
  byteSize lines + byteSize ((source.drop lines.length).take (place.column - 1))

/-- The offset is found again from line and column. -/
theorem offsetIn_after_start (before behind : List Char) :
    offsetIn (before ++ behind) (start.after before) = byteSize before := by
  rcases exists_endedLines before with ⟨lines, part, rfl, areLines, noFeed⟩
  rw [after_start areLines noFeed, offsetIn, Nat.add_sub_cancel, Nat.add_sub_cancel,
    List.append_assoc, leadingLines_endedLines areLines, List.drop_left, List.take_left,
    byteSize_append]

/-- The offset of a boundary is found again from its line and column alone. -/
theorem offsetIn_ofOffset {source : List Char} {offset : Nat}
    (boundary : IsBoundary source offset) :
    offsetIn source (ofOffset source offset) = offset := by
  rcases boundary with ⟨before, behind, rfl, rfl⟩
  rw [ofOffset_append, offsetIn_after_start]

end Location

end Jack
