import Jack.Proofs.Flow.Jumps

namespace Jack

/-!
# Jumps follow the structure

Following the code of statements passes the code of the pieces that their structured execution
visits.  `Follows` says so of code that starts at one place and ends at another, or at the `home` to
which a `return` statement leads.  It is proved for a branch and for a loop in general, and then by
induction on the tree.
-/

namespace Jumps

variable {commands : List Command} {f : Frame} {names : Names}

/-- Where commands have been followed to when an execution has ended. -/
def EndsAt (commands : List Command) (stop home : Nat) (ending : Ending) (last : Following) :
    Prop :=
  match ending with
  | .done => last.place = stop
  | .returned => last.place = home
  | .waits => last.words = [] ∧ ∃ label, commands[last.place]? = some (.ifGoto label)

/-- Following the commands from a place on does what an execution does. -/
def Follows (commands : List Command) (names : Names) (f : Frame) (start stop home : Nat)
    (x : Execution) (words : List UInt16) (trace : List Command) : Prop :=
  ∃ last, Steps commands ⟨start, words, trace⟩ last ∧ last.words = words.drop x.used ∧
    last.trace = trace ++ x.visits.flatMap (Piece.code names f.className) ∧
      EndsAt commands stop home x.ending last

variable {start middle stop home : Nat} {x y : Execution} {words : List UInt16}
  {trace : List Command}

/-- Labels and jumps may stand in front. -/
theorem Follows.of_steps
    (steps : Steps commands ⟨start, words, trace⟩ ⟨middle, words, trace⟩)
    (follows : Follows commands names f middle stop home x words trace) :
    Follows commands names f start stop home x words trace := by
  rcases follows with ⟨last, steps', described⟩
  exact ⟨last, steps.trans steps', described⟩

/-- Nothing is followed by nothing.  This is the case of an empty list of statements. -/
theorem follows_skip : Follows commands names f start start home .skip words trace :=
  ⟨_, .refl _, rfl, (List.append_nil _).symm, rfl⟩

/-- One execution is followed after the other. -/
theorem Follows.andThen (first : Follows commands names f start middle home x words trace)
    (second : x.ending = .done → Follows commands names f middle stop home y (words.drop x.used)
      (trace ++ x.visits.flatMap (Piece.code names f.className))) :
    Follows commands names f start stop home (x.andThen y) words trace := by
  rcases first with ⟨last, steps, sameWords, sameTrace, ends⟩
  unfold Execution.andThen
  cases ending : x.ending with
  | done =>
      rw [ending] at ends
      rcases second ending with ⟨last', steps', sameWords', sameTrace', ends'⟩
      have here : last = ⟨middle, words.drop x.used,
          trace ++ x.visits.flatMap (Piece.code names f.className)⟩ := by
        rw [← sameWords, ← sameTrace, ← show last.place = middle from ends]
      rw [here] at steps
      refine ⟨last', steps.trans steps', ?_, ?_, ends'⟩
      · rw [sameWords', List.drop_drop]
      · rw [sameTrace', List.append_assoc, ← List.flatMap_append]
  | returned =>
      rw [ending] at ends
      exact ⟨last, steps, sameWords, sameTrace, by rw [ending]; exact ends⟩
  | waits =>
      rw [ending] at ends
      exact ⟨last, steps, sameWords, sameTrace, by rw [ending]; exact ends⟩

/-- Labels and jumps may stand behind. -/
theorem Follows.then_steps (follows : Follows commands names f start middle home x words trace)
    (steps : ∀ words trace, Steps commands ⟨middle, words, trace⟩ ⟨stop, words, trace⟩) :
    Follows commands names f start stop home x words trace := by
  rcases follows with ⟨last, steps', sameWords, sameTrace, ends⟩
  cases ending : x.ending with
  | done =>
      rw [ending] at ends
      have here : last = ⟨middle, last.words, last.trace⟩ := by
        rw [← show last.place = middle from ends]
      rw [here] at steps'
      exact ⟨_, steps'.trans (steps _ _), sameWords, sameTrace, by rw [ending]; rfl⟩
  | returned =>
      rw [ending] at ends
      exact ⟨last, steps', sameWords, sameTrace, by rw [ending]; exact ends⟩
  | waits =>
      rw [ending] at ends
      exact ⟨last, steps', sameWords, sameTrace, by rw [ending]; exact ends⟩

/-! ## Single commands -/

/-- A label is passed without a trace. -/
theorem steps_label {label : String} (found : commands[start]? = some (.label label)) :
    Steps commands ⟨start, words, trace⟩ ⟨start + 1, words, trace⟩ := by
  apply Steps.single
  simp only [step?, found]

/-- A jump leads to its label without a trace. -/
theorem steps_goto {label : String} {target : Nat}
    (found : commands[start]? = some (.goto label))
    (leads : place? commands label = some target) :
    Steps commands ⟨start, words, trace⟩ ⟨target, words, trace⟩ := by
  apply Steps.single
  simp only [step?, found, jump?, leads, Option.map_some]

/-- Straight code is passed from its beginning to its end and takes no words.  Every command of it
is in the trace. -/
theorem steps_straight {code : List Command} (stands : Stands commands start code)
    (straight : code.all Command.isStraight = true) (words : List UInt16) (trace : List Command) :
    Steps commands ⟨start, words, trace⟩ ⟨start + code.length, words, trace ++ code⟩ := by
  induction code generalizing start trace with
  | nil =>
      rw [List.append_nil]
      exact .refl _
  | cons c rest inductionHypothesis =>
      rw [List.all_cons, Bool.and_eq_true] at straight
      have behind : Steps commands ⟨start + 1, words, trace ++ [c]⟩
          ⟨start + 1 + rest.length, words, trace ++ [c] ++ rest⟩ :=
        inductionHypothesis stands.tail straight.2 _
      rw [List.append_assoc, Nat.add_assoc, Nat.add_comm 1] at behind
      refine .head ?_ behind
      cases c with
      | push segment index => simp only [step?, stands.current]
      | pop segment index => simp only [step?, stands.current]
      | arithmetic o => simp only [step?, stands.current]
      | call routine arguments => simp only [step?, stands.current]
      | _ => cases straight.1

/-- A visit of a piece whose code runs straight through. -/
theorem follows_visit (piece : Piece)
    (stands : Stands commands start (piece.code names f.className))
    (straight : (piece.code names f.className).all Command.isStraight = true) :
    Follows commands names f start (start + (piece.code names f.className).length) home
      (.visit piece) words trace := by
  refine ⟨_, steps_straight stands straight words trace, rfl, ?_, rfl⟩
  rw [Execution.visit, List.flatMap_cons, List.flatMap_nil, List.append_nil]

/-! ## Conditions -/

/-- The complement of the word for truth is the only one that is zero. -/
theorem complement_eq_zero_iff (word : UInt16) : ~~~word = 0 ↔ word = allOnes := by
  constructor
  · intro zero
    have twice : ~~~(~~~word) = ~~~(0 : UInt16) := congrArg (fun w : UInt16 => ~~~w) zero
    rw [UInt16.not_not] at twice
    exact twice
  · intro ones
    rw [ones]
    rfl

variable {condition : Expression} {label : String}

/-- The code of a condition and of the branch behind it. -/
def testCode (names : Names) (f : Frame) (condition : Expression) (label : String) : List Command :=
  condition.code names f.className ++ [.arithmetic .not, .ifGoto label]

/-- The code of a test is that of a piece and a jump, so that the piece is in the trace and the jump
is not. -/
theorem testCode_eq (names : Names) (f : Frame) (condition : Expression) (label : String) :
    testCode names f condition label =
      (Piece.condition condition).code names f.className ++ [.ifGoto label] := by
  rw [testCode, Piece.code, List.append_assoc]
  rfl

/-- The condition is passed up to the jump that takes its word. -/
theorem steps_condition (stands : Stands commands start (testCode names f condition label)) :
    Steps commands ⟨start, words, trace⟩
      ⟨start + ((Piece.condition condition).code names f.className).length, words,
        trace ++ (Piece.condition condition).code names f.className⟩ := by
  rw [testCode_eq] at stands
  refine steps_straight stands.left ?_ words trace
  rw [Piece.code, List.all_append, condition.code_straight]
  rfl

/-- If there is no word, the commands can be followed up to the branch. -/
theorem follows_wait (stands : Stands commands start (testCode names f condition label)) :
    Follows commands names f start stop home (.wait condition) [] trace := by
  refine ⟨_, steps_condition stands, rfl, ?_, rfl, label, ?_⟩
  · rw [Execution.wait, List.flatMap_cons, List.flatMap_nil, List.append_nil]
  · rw [testCode_eq] at stands
    exact stands.right.current

/-- A condition takes its word; if it fails, the label is the next place. -/
theorem follows_test {target : Nat}
    (stands : Stands commands start (testCode names f condition label))
    (leads : place? commands label = some target) (home : Nat) (word : UInt16)
    (words : List UInt16) (trace : List Command) :
    Follows commands names f start
      (if word = allOnes then start + (testCode names f condition label).length else target) home
      (.test condition) (word :: words) trace := by
  have branch : step? commands
      ⟨start + ((Piece.condition condition).code names f.className).length, word :: words,
        trace ++ (Piece.condition condition).code names f.className⟩ =
      some ⟨if word = allOnes then start + (testCode names f condition label).length else target,
        words, trace ++ (Piece.condition condition).code names f.className⟩ := by
    have last : (trace ++ (Piece.condition condition).code names f.className).getLast? =
        some (.arithmetic .not) := by
      rw [Piece.code, ← List.append_assoc, List.getLast?_concat]
    rw [testCode_eq] at stands ⊢
    rw [List.length_append]
    simp only [step?, stands.right.current, branch?, last, jump?, leads, Option.map_some,
      complement_eq_zero_iff]
    split
    · rfl
    · rfl
  refine ⟨_, (steps_condition stands).trans (.single branch), rfl, ?_, rfl⟩
  rw [Execution.test, List.flatMap_cons, List.flatMap_nil, List.append_nil]

/-! ## Branches and loops -/

/-- A test is followed by one of two executions.  The word of the condition chooses between the code
behind the jump and that at its label, and without a word the test waits. -/
theorem follows_branch {target : Nat} {holds fails : List UInt16 → Execution}
    (stands : Stands commands start (testCode names f condition label))
    (leads : place? commands label = some target)
    (taken : ∀ words trace, Follows commands names f
      (start + (testCode names f condition label).length) stop home (holds words) words trace)
    (other : ∀ words trace,
      Follows commands names f target stop home (fails words) words trace)
    (words : List UInt16) (trace : List Command) :
    Follows commands names f start stop home (.branch condition holds fails words) words
      trace := by
  cases words with
  | nil => exact follows_wait stands
  | cons word rest =>
      have test := follows_test stands leads home word rest trace
      rw [Execution.branch]
      by_cases ones : word = allOnes
      · rw [if_pos ones] at test ⊢
        exact test.andThen fun _ => taken rest _
      · rw [if_neg ones] at test ⊢
        exact test.andThen fun _ => other rest _

/-- The body of a loop leads back to its condition. -/
theorem follows_loop {target bottom : Nat} {body : List UInt16 → Execution}
    (stands : Stands commands start (testCode names f condition label))
    (leads : place? commands label = some target)
    (around : ∀ words trace, Follows commands names f
      (start + (testCode names f condition label).length) bottom home (body words) words trace)
    (back : ∀ words trace, Steps commands ⟨bottom, words, trace⟩ ⟨start, words, trace⟩)
    (words : List UInt16) (trace : List Command) :
    Follows commands names f start target home (.loop condition body words) words trace := by
  -- Every round takes a word, so the induction is on a bound for their number.
  have bounded (bound : Nat) : ∀ (words : List UInt16) (trace : List Command),
      words.length ≤ bound →
        Follows commands names f start target home (.loop condition body words) words trace := by
    induction bound with
    | zero =>
        intro words trace short
        rw [List.length_eq_zero_iff.mp (Nat.le_zero.mp short), Execution.loop]
        exact follows_wait stands
    | succ bound inductionHypothesis =>
        intro words trace short
        cases words with
        | nil =>
            rw [Execution.loop]
            exact follows_wait stands
        | cons word rest =>
            have test := follows_test stands leads home word rest trace
            rw [Execution.loop]
            by_cases ones : word = allOnes
            · rw [if_pos ones] at test ⊢
              apply test.andThen
              intro _
              apply ((around rest _).then_steps back).andThen
              intro _
              apply inductionHypothesis
              rw [List.length_drop]
              exact Nat.le_trans (Nat.sub_le _ _) (Nat.le_of_succ_le_succ short)
            · rw [if_neg ones] at test ⊢
              exact test
  exact bounded words.length words trace (Nat.le_refl _)

/-! ## The shapes of statements -/

/-- If no label is set twice, a label is found where it stands. -/
theorem place?_of_stands {place : Nat} {rest : List Command}
    (unique : (labelsOf commands).Nodup)
    (stands : Stands commands place (.label label :: rest)) :
    place? commands label = some place :=
  place?_eq unique stands.current

variable {holds fails body : List UInt16 → Execution} {thenCode elseCode block : List Command}

/-- Places in code behind other code. -/
theorem place_append (start : Nat) (first second : List Command) :
    start + (first ++ second).length = start + first.length + second.length := by
  rw [List.length_append, Nat.add_assoc]

/-- The block is followed if the condition holds, and otherwise the label behind it is the next
place. -/
theorem follows_ifThen (unique : (labelsOf commands).Nodup)
    (stands : Stands commands start
      (testCode names f condition label ++ thenCode ++ [Command.label label]))
    (taken : ∀ words trace, Follows commands names f
      (start + (testCode names f condition label).length)
      (start + (testCode names f condition label).length + thenCode.length) home (holds words)
      words trace)
    (words : List UInt16) (trace : List Command) :
    Follows commands names f start
      (start + (testCode names f condition label ++ thenCode ++ [Command.label label]).length) home
      (.branch condition holds (fun _ => .skip) words) words trace := by
  have exit := stands.right
  rw [place_append] at exit
  rw [place_append, place_append]
  apply follows_branch stands.left.left (place?_of_stands unique exit)
  · intro words trace
    exact (taken words trace).then_steps fun _ _ => steps_label exit.current
  · intro words trace
    exact follows_skip.of_steps (steps_label exit.current)

/-- One of two blocks is followed.  Only the first one needs a jump over the other. -/
theorem follows_ifElse {exitLabel : String} (unique : (labelsOf commands).Nodup)
    (stands : Stands commands start
      (testCode names f condition label ++ thenCode ++
        [Command.goto exitLabel, Command.label label] ++ elseCode ++ [Command.label exitLabel]))
    (taken : ∀ words trace, Follows commands names f
      (start + (testCode names f condition label).length)
      (start + (testCode names f condition label).length + thenCode.length) home (holds words)
      words trace)
    (other : ∀ words trace, Follows commands names f
      (start + (testCode names f condition label).length + thenCode.length + 2)
      (start + (testCode names f condition label).length + thenCode.length + 2 + elseCode.length)
      home (fails words) words trace)
    (words : List UInt16) (trace : List Command) :
    Follows commands names f start
      (start + (testCode names f condition label ++ thenCode ++
        [Command.goto exitLabel, Command.label label] ++ elseCode ++
          [Command.label exitLabel]).length) home
      (.branch condition holds fails words) words trace := by
  have leave := stands.left.left.right
  have exit := stands.right
  rw [place_append] at leave
  rw [place_append, place_append, place_append] at exit
  rw [place_append, place_append, place_append, place_append]
  apply follows_branch stands.left.left.left.left (place?_of_stands unique leave.tail)
  · intro words trace
    apply (taken words trace).then_steps
    intro words trace
    exact (steps_goto leave.current (place?_of_stands unique exit)).trans
      (steps_label exit.current)
  · intro words trace
    exact ((other words trace).then_steps fun _ _ => steps_label exit.current).of_steps
      (steps_label leave.tail.current)

/-- A loop is followed for as many rounds as its execution makes.  The proof is by induction on the
words, since every round takes one for its condition. -/
theorem follows_while {top : String} (unique : (labelsOf commands).Nodup)
    (stands : Stands commands start
      (Command.label top :: testCode names f condition label ++ block ++
        [Command.goto top, Command.label label]))
    (around : ∀ words trace, Follows commands names f
      (start + 1 + (testCode names f condition label).length)
      (start + 1 + (testCode names f condition label).length + block.length) home (body words)
      words trace)
    (words : List UInt16) (trace : List Command) :
    Follows commands names f start
      (start + (Command.label top :: testCode names f condition label ++ block ++
        [Command.goto top, Command.label label]).length) home
      (.loop condition body words) words trace := by
  rw [List.cons_append, List.cons_append] at stands
  have bottom := stands.tail.right
  rw [place_append] at bottom
  rw [← List.singleton_append, List.append_assoc, List.append_assoc, place_append,
    ← List.append_assoc, place_append, place_append]
  have loops := follows_loop stands.tail.left.left (place?_of_stands unique bottom.tail) around
    (fun _ _ => (steps_goto bottom.current (place?_of_stands unique stands)).trans
      (steps_label stands.current)) words trace
  exact (loops.then_steps fun _ _ => steps_label bottom.tail.current).of_steps
    (steps_label stands.current)

end Jumps

/-! ## Statements -/

open Jumps

variable {commands : List Command} {f : Frame} {names : Names} {home : Nat}

/-- A `return` that does not fall through jumps to the end. -/
theorem follows_return {start : Nat} {tail : Bool} {words : List UInt16} {trace : List Command}
    (stands : Stands commands start (if tail then [] else [.goto f.endLabel]))
    (jumps : tail = false → place? commands f.endLabel = some home)
    (falls : tail = true → start = home) :
    Steps commands ⟨start, words, trace⟩ ⟨home, words, trace⟩ := by
  cases tail with
  | true =>
      rw [falls rfl]
      exact .refl _
  | false =>
      rw [if_neg Bool.false_ne_true] at stands
      exact steps_goto stands.current (jumps rfl)

/-- A statement is at the tail if the others behind it have no code. -/
theorem Statements.falls_of_isEmpty (rest : Statements) {tail : Bool} {n place : Nat}
    (falls : tail = true → place + (rest.code names f tail n).length = home)
    (isTail : (tail && rest.isEmpty) = true) : place = home := by
  rw [Bool.and_eq_true] at isTail
  cases rest with
  | nil => exact falls isTail.1
  | cons second others => cases isTail.2

mutual

/-- The code of a statement follows its structure.  A statement that jumps needs the place of the
label at the end; one whose jump is spared has to stand at the end itself. -/
theorem Statement.follows (s : Statement) (unique : (labelsOf commands).Nodup) {tail : Bool}
    {n start : Nat} (stands : Stands commands start (s.code names f tail n))
    (jumps : s.jumps tail = true → place? commands f.endLabel = some home)
    (falls : tail = true → start + (s.code names f tail n).length = home)
    (words : List UInt16) (trace : List Command) :
    Follows commands names f start (start + (s.code names f tail n).length) home
      (s.execute words) words trace := by
  cases s with
  | letVariable target value =>
      exact follows_visit (.letVariable target value) stands
        (letVariable_straight target value)
  | letElement array index value =>
      exact follows_visit (.letElement array index value) stands
        (letElement_straight array index value)
  | doCall c => exact follows_visit (.doCall c) stands (doCall_straight c)
  | returnValue value =>
      have notTail : tail = false → place? commands f.endLabel = some home :=
        fun isFalse => jumps (by rw [Statement.jumps, isFalse, Bool.not_false])
      cases value with
      | none =>
          refine ⟨_, follows_return stands notTail ?_, rfl, (List.append_nil _).symm, rfl⟩
          intro isTail
          rw [← falls isTail, isTail]
          rfl
      | some e =>
          have whole : (Statement.returnValue (some e)).code names f tail n =
              (Piece.result e).code names f.className ++
                if tail then [] else [.goto f.endLabel] := rfl
          rw [whole] at stands falls
          have valueSteps := steps_straight stands.left e.code_straight words trace
          refine ⟨_, valueSteps.trans (follows_return stands.right notTail ?_), rfl, ?_, rfl⟩
          · intro isTail
            rw [← falls isTail, if_pos isTail, List.append_nil]
          · rw [Statement.execute, List.flatMap_cons, List.flatMap_nil, List.append_nil]
  | ifThen condition thenBlock =>
      exact follows_ifThen unique stands
        (thenBlock.follows unique stands.left.right jumps nofun) words trace
  | ifElse condition thenBlock elseBlock =>
      rw [Statement.jumps] at jumps
      have elseStands := stands.left.right
      rw [place_append, place_append] at elseStands
      exact follows_ifElse unique stands
        (thenBlock.follows unique stands.left.left.left.right
          (fun jumpsThen => jumps (by rw [jumpsThen, Bool.true_or])) nofun)
        (elseBlock.follows unique elseStands
          (fun jumpsElse => jumps (by rw [jumpsElse, Bool.or_true])) nofun) words trace
  | whileLoop condition block =>
      exact follows_while unique stands
        (block.follows unique stands.tail.left.right jumps nofun) words trace

/-- The code of statements follows their structure, one statement behind the other. -/
theorem Statements.follows (ss : Statements) (unique : (labelsOf commands).Nodup) {tail : Bool}
    {n start : Nat} (stands : Stands commands start (ss.code names f tail n))
    (jumps : ss.jumps tail = true → place? commands f.endLabel = some home)
    (falls : tail = true → start + (ss.code names f tail n).length = home)
    (words : List UInt16) (trace : List Command) :
    Follows commands names f start (start + (ss.code names f tail n).length) home
      (ss.execute words) words trace := by
  cases ss with
  | nil => exact follows_skip
  | cons first rest =>
      rw [Statements.code] at stands falls ⊢
      rw [Statements.jumps] at jumps
      rw [place_append] at falls ⊢
      apply (first.follows unique stands.left
        (fun jumpsFirst => jumps (by rw [jumpsFirst, Bool.true_or]))
        (rest.falls_of_isEmpty falls) words trace).andThen
      intro _
      exact rest.follows unique stands.right
        (fun jumpsRest => jumps (by rw [jumpsRest, Bool.or_true])) falls _ _

end

end Jack
