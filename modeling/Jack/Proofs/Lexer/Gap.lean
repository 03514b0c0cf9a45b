import Jack.Token.Gap

namespace Jack

/-!
# What a gap is

Gaps are skipped character by character.  Here they are described as what they are: a sequence of
blanks, of line comments that run up to a line end or the end of the source, and of block comments
that run through the first closing marker behind their opening marker.  Skipping takes exactly such
a sequence and stops where no other gap begins (`skipGap_gives`), and it takes every such sequence
(`IsGap.skip`).  The text behind a gap matters to its last line comment, so it is a parameter.
-/

/-- The text does not begin with a character of a kind. -/
def Ends (p : Char → Bool) (text : List Char) : Prop :=
  ∀ c ∈ text.head?, p c = false

theorem ends_nil (p : Char → Bool) : Ends p [] := fun _ member => nomatch member

/-- It is the first character that counts. -/
theorem ends_cons {p : Char → Bool} {c : Char} {rest : List Char} :
    Ends p (c :: rest) ↔ p c = false :=
  ⟨fun ends => ends c rfl, fun stops _ member => Option.some.inj member ▸ stops⟩

/-- The text has the marker that closes a block comment. -/
def Closes (text : List Char) : Prop := ['*', '/'] <:+: text

theorem not_closes_nil : ¬ Closes [] := fun closes => nomatch List.infix_nil.mp closes

/-- The marker may come later. -/
theorem Closes.cons {text : List Char} (closes : Closes text) (c : Char) : Closes (c :: text) :=
  List.infix_cons closes

/-- A gap in front of the text `rest`. -/
inductive IsGap (rest : List Char) : List Char → Prop
  | nil : IsGap rest []
  | blank {c : Char} {gap : List Char} (isBlank : isBlank c = true) (more : IsGap rest gap) :
    IsGap rest (c :: gap)
  /-- The line end does not belong to the comment. -/
  | lineComment {body gap : List Char} (line : ∀ c ∈ body, isLineEnd c = false)
    (ends : Ends (fun c => !isLineEnd c) (gap ++ rest)) (more : IsGap rest gap) :
    IsGap rest ('/' :: '/' :: (body ++ gap))
  | blockComment {body gap : List Char} (first : ¬ Closes body) (more : IsGap rest gap) :
    IsGap rest ('/' :: '*' :: (body ++ '*' :: '/' :: gap))

/-- A gap begins with the text. -/
def OpensGap (text : List Char) : Prop :=
  (∃ c rest, text = c :: rest ∧ isBlank c = true) ∨ (∃ rest, text = '/' :: '/' :: rest) ∨
    ∃ rest, text = '/' :: '*' :: rest

/-! ## Skipping takes a gap -/

/-- What is left of a gap inside of one of its parts. -/
def GapPart.Leaves (rest : List Char) : GapPart → List Char → Prop
  | blank, left => IsGap rest left
  | lineComment, left => ∃ body gap, left = body ++ gap ∧ (∀ c ∈ body, isLineEnd c = false) ∧
      Ends (fun c => !isLineEnd c) (gap ++ rest) ∧ IsGap rest gap
  | blockComment _, left => ∃ body gap, left = body ++ '*' :: '/' :: gap ∧ ¬ Closes body ∧
      IsGap rest gap

/-- Line ends are blanks, so that the end of a line comment is skipped as one. -/
theorem isBlank_of_isLineEnd {c : Char} (lineEnd : isLineEnd c = true) : isBlank c = true := by
  rcases Bool.or_eq_true_iff.mp lineEnd with isFeed | isReturn
  · rw [of_decide_eq_true isFeed]; rfl
  · rw [of_decide_eq_true isReturn]; rfl

/-- A closing marker that does not stand at the beginning stands behind it. -/
theorem closes_cons {c : Char} {text : List Char} (closes : Closes (c :: text))
    (notHere : ∀ rest, c = '*' → text = '/' :: rest → False) : Closes text := by
  rcases List.infix_cons_iff.mp closes with atFront | behind
  · rcases atFront with ⟨rest, same⟩
    rw [List.cons_append, List.cons_append, List.cons.injEq] at same
    exact (notHere rest same.1.symm same.2.symm).elim
  · exact behind

/-- What skipping the text from a place on has to give: it stops behind what is left of the gap,
where no other gap begins, or it finds no end of a block comment and tells where that was opened. -/
def GapPart.Gives (part : GapPart) (here : Location) (text : List Char) :
    Cursor × Option Location → Prop
  | (behind, none) => ∃ left, text = left ++ behind.rest ∧ part.Leaves behind.rest left ∧
      behind.here = here.after left ∧ ¬ OpensGap behind.rest
  | (behind, some opened) => behind.rest = [] ∧
      (part = .blockComment opened ∧ ¬ Closes text ∨
        ∃ left body, text = left ++ '/' :: '*' :: body ∧ part.Leaves ('/' :: '*' :: body) left ∧
          ¬ Closes body ∧ opened = here.after left)

/-- Skipping passes characters and goes on in the next part of the gap. -/
theorem GapPart.Gives.step {part next : GapPart} {here : Location} {text : List Char}
    {result : Cursor × Option Location} (passed : List Char)
    (gives : next.Gives (here.after passed) text result)
    (leaves : ∀ {rest left}, text = left ++ rest → next.Leaves rest left →
      part.Leaves rest (passed ++ left))
    (opens : ∀ {opened}, next = .blockComment opened → ¬ Closes text →
      part.Gives here (passed ++ text) (⟨here.after (passed ++ text), []⟩, some opened)) :
    part.Gives here (passed ++ text) result := by
  rcases result with ⟨behind, _ | opened⟩
  · rcases gives with ⟨left, rfl, more, place, stops⟩
    refine ⟨passed ++ left, (List.append_assoc _ _ _).symm, leaves rfl more, ?_, stops⟩
    rw [place, Location.after_append]
  · rcases gives with ⟨ended, ⟨inside, unclosed⟩ | ⟨left, body, rfl, more, unclosed, place⟩⟩
    · exact ⟨ended, (opens inside unclosed).2⟩
    · refine ⟨ended, .inr ⟨passed ++ left, body, (List.append_assoc _ _ _).symm, leaves rfl more,
        unclosed, ?_⟩⟩
      rw [place, Location.after_append]

/-- Skipping takes a gap and stops where no other begins, unless the source ends in a comment. -/
theorem skipGap_gives (part : GapPart) (here : Location) (text : List Char) :
    part.Gives here text (skipGap part here text) := by
  fun_induction skipGap part here text with
  -- Between blanks: a comment is opened, a blank is passed, or the gap is over.
  | case1 here rest inductionHypothesis =>
      refine .step ['/', '/'] inductionHypothesis ?_ ?_
      · rintro behind left - ⟨body, gap, rfl, line, ends, more⟩
        have comment := IsGap.lineComment line ends more
        exact comment
      · intro opened isBlock
        cases isBlock
  | case2 here rest inductionHypothesis =>
      refine .step ['/', '*'] inductionHypothesis ?_ ?_
      · rintro behind left - ⟨body, gap, rfl, first, more⟩
        exact .blockComment first more
      · intro opened isBlock unclosed
        cases isBlock
        exact ⟨rfl, .inr ⟨[], rest, rfl, .nil, unclosed, rfl⟩⟩
  | case3 here c rest notLine notBlock isBlank inductionHypothesis =>
      refine .step [c] inductionHypothesis ?_ ?_
      · intro behind left _ more
        exact .blank isBlank more
      · intro opened isBlock
        cases isBlock
  | case4 here c rest notLine notBlock notBlank =>
      refine ⟨[], rfl, .nil, rfl, ?_⟩
      rintro (⟨d, others, same, isBlank⟩ | ⟨others, same⟩ | ⟨others, same⟩)
      · cases same
        exact notBlank isBlank
      · cases same
        exact notLine others rfl rfl
      · cases same
        exact notBlock others rfl rfl
  | case5 here =>
      refine ⟨[], rfl, .nil, rfl, ?_⟩
      rintro (⟨d, others, same, -⟩ | ⟨others, same⟩ | ⟨others, same⟩) <;> cases same
  -- In a line comment: the line end is passed as a blank, so it does not belong to the comment.
  | case6 here c rest inductionHypothesis =>
      by_cases lineEnd : isLineEnd c = true
      · rw [if_pos lineEnd] at inductionHypothesis ⊢
        refine .step [c] inductionHypothesis ?_ ?_
        · intro behind left _ more
          refine ⟨[], c :: left, rfl, fun _ member => absurd member List.not_mem_nil, ?_,
            .blank (isBlank_of_isLineEnd lineEnd) more⟩
          exact ends_cons.mpr (by rw [lineEnd]; rfl)
        · intro opened isBlock
          cases isBlock
      · rw [if_neg lineEnd] at inductionHypothesis ⊢
        refine .step [c] inductionHypothesis ?_ ?_
        · rintro behind left - ⟨body, gap, rfl, line, ends, more⟩
          exact ⟨c :: body, gap, rfl,
            List.forall_mem_cons.mpr ⟨Bool.eq_false_iff.mpr lineEnd, line⟩, ends, more⟩
        · intro opened isBlock
          cases isBlock
  | case7 here =>
      refine ⟨[], rfl, ⟨[], [], rfl, fun _ member => absurd member List.not_mem_nil, ends_nil _,
        .nil⟩, rfl, ?_⟩
      rintro (⟨d, others, same, -⟩ | ⟨others, same⟩ | ⟨others, same⟩) <;> cases same
  -- In a block comment: the first closing marker counts, wherever it stands.
  | case8 opened here rest inductionHypothesis =>
      refine .step ['*', '/'] inductionHypothesis ?_ ?_
      · intro behind left _ more
        exact ⟨[], left, rfl, not_closes_nil, more⟩
      · intro other isBlock
        cases isBlock
  | case9 opened here c rest notEnd inductionHypothesis =>
      refine .step [c] inductionHypothesis ?_ ?_
      · rintro behind left text ⟨body, gap, rfl, first, more⟩
        refine ⟨c :: body, gap, rfl, fun closes => first (closes_cons closes ?_), more⟩
        rintro others rfl rfl
        exact notEnd _ rfl (text.trans (by rw [List.cons_append, List.cons_append]))
      · intro other isBlock unclosed
        refine ⟨rfl, .inl ⟨isBlock, fun closes => unclosed (closes_cons closes fun others => ?_)⟩⟩
        exact notEnd others
  | case10 opened here =>
      exact ⟨rfl, .inl ⟨rfl, not_closes_nil⟩⟩

/-! ## A gap is skipped -/

/-- A blank is skipped. -/
theorem skipGap_blank {c : Char} (isBlank : isBlank c = true) (here : Location)
    (rest : List Char) :
    skipGap .blank here (c :: rest) = skipGap .blank (here.advance c) rest := by
  have notSlash : c ≠ '/' := by
    rintro rfl
    cases isBlank
  rw [skipGap, if_pos isBlank]
  · rintro others rfl -
    exact notSlash rfl
  · rintro others rfl -
    exact notSlash rfl

/-- Nothing is skipped where no gap begins. -/
theorem skipGap_of_not_opensGap {text : List Char} (stops : ¬ OpensGap text) (here : Location) :
    skipGap .blank here text = (⟨here, text⟩, none) := by
  cases text with
  | nil => rw [skipGap]
  | cons c rest =>
      rw [skipGap, if_neg fun isBlank => stops (.inl ⟨c, rest, rfl, isBlank⟩)]
      · rintro others rfl rfl
        exact stops (.inr (.inl ⟨others, rfl⟩))
      · rintro others rfl rfl
        exact stops (.inr (.inr ⟨others, rfl⟩))

/-- A line comment is skipped up to its line end, or up to the end of the source. -/
theorem skipGap_lineComment {body behind : List Char} (line : ∀ c ∈ body, isLineEnd c = false)
    (ends : Ends (fun c => !isLineEnd c) behind) (here : Location) :
    skipGap .lineComment here (body ++ behind) = skipGap .blank (here.after body) behind := by
  induction body generalizing here with
  | nil =>
      cases behind with
      | nil => rw [List.append_nil, skipGap, Location.after_nil, skipGap]
      | cons c rest =>
          have lineEnd : isLineEnd c = true := Bool.not_eq_false' .. ▸ ends_cons.mp ends
          rw [List.nil_append, Location.after_nil, skipGap_blank (isBlank_of_isLineEnd lineEnd),
            skipGap, if_pos lineEnd]
  | cons c body inductionHypothesis =>
      rcases List.forall_mem_cons.mp line with ⟨notEnd, more⟩
      rw [List.cons_append, skipGap, if_neg (Bool.eq_false_iff.mp notEnd), inductionHypothesis more,
        Location.after_cons]

/-- The marker that closes a block comment is not crossed by what stands in front of it. -/
theorem skipGap_blockComment {body : List Char} (first : ¬ Closes body) (behind : List Char)
    (opened here : Location) :
    skipGap (.blockComment opened) here (body ++ '*' :: '/' :: behind) =
      skipGap .blank (here.after (body ++ ['*', '/'])) behind := by
  induction body generalizing here with
  | nil => rw [List.nil_append, skipGap]; rfl
  | cons c body inductionHypothesis =>
      rw [List.cons_append, skipGap, inductionHypothesis fun closes => first (closes.cons c),
        List.cons_append, Location.after_cons]
      rintro others rfl same
      cases body with
      | nil => cases same
      | cons d more =>
          cases same
          exact first ⟨[], more, rfl⟩

/-- A block comment that is never closed is skipped to the end of the source, and where it was
opened is kept for the report. -/
theorem skipGap_unclosed {body : List Char} (unclosed : ¬ Closes body) (opened here : Location) :
    skipGap (.blockComment opened) here body = (⟨here.after body, []⟩, some opened) := by
  induction body generalizing here with
  | nil => rw [skipGap, Location.after_nil]
  | cons c body inductionHypothesis =>
      rw [skipGap, inductionHypothesis fun closes => unclosed (closes.cons c), Location.after_cons]
      rintro others rfl rfl
      exact unclosed ⟨[], others, rfl⟩

/-- Every gap is skipped, whatever stands behind it. -/
theorem IsGap.skip {gap rest : List Char} (isGap : IsGap rest gap) (here : Location) :
    skipGap .blank here (gap ++ rest) = skipGap .blank (here.after gap) rest := by
  induction isGap generalizing here with
  | nil => rfl
  | blank isBlank _ inductionHypothesis =>
      rw [List.cons_append, skipGap_blank isBlank, inductionHypothesis, Location.after_cons]
  | lineComment line ends _ inductionHypothesis =>
      simp only [List.cons_append, List.append_assoc, Location.after_cons, Location.after_append]
      rw [skipGap, skipGap_lineComment line ends, inductionHypothesis]
  | @blockComment body gap first _ inductionHypothesis =>
      simp only [List.cons_append, List.append_assoc, Location.after_cons, Location.after_append]
      rw [skipGap, skipGap_blockComment first, inductionHypothesis, Location.after_append]
      rfl

end Jack
