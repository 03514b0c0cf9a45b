import Jack.Proofs.Flow.Simulation

namespace Jack

/-!
# Parts of statements

The statements that stand in other statements, with the places where their code begins and ends, and
which of them complete.  A statement completes if, for some words that its conditions leave, it does
not end with a `return` statement.
-/

/-! ## Completing statements -/

mutual

/-- Execution can come to the end of the statement. -/
def Statement.completes : Statement → Bool
  | .letVariable _ _ => true
  | .letElement _ _ _ => true
  | .ifThen _ _ => true
  | .ifElse _ thenBlock elseBlock => thenBlock.completes || elseBlock.completes
  | .whileLoop _ _ => true
  | .doCall _ => true
  | .returnValue _ => false

/-- Execution can come to the end of all the statements. -/
def Statements.completes : Statements → Bool
  | .nil => true
  | .cons first rest => first.completes && rest.completes

end

namespace Execution

/-- One execution after another is done if both are. -/
theorem ending_andThen_eq_done {first second : Execution} :
    (first.andThen second).ending = .done ↔ first.ending = .done ∧ second.ending = .done := by
  unfold andThen
  cases ending : first.ending with
  | done => exact (and_iff_right rfl).symm
  | returned =>
      rw [ending]
      exact iff_of_false nofun fun both => nomatch both.1
  | waits =>
      rw [ending]
      exact iff_of_false nofun fun both => nomatch both.1

/-- The words that both take are taken one after the other. -/
theorem used_andThen {first second : Execution} (done : first.ending = .done) :
    (first.andThen second).used = first.used + second.used := by
  unfold andThen
  rw [done]

/-- A branch is done if one of its blocks is. -/
theorem done_of_branch {condition : Expression} {holds fails : List UInt16 → Execution}
    {words : List UInt16} (done : (branch condition holds fails words).ending = .done) :
    ∃ rest, (holds rest).ending = .done ∨ (fails rest).ending = .done := by
  cases words with
  | nil => cases done
  | cons word rest =>
      have behind := (ending_andThen_eq_done.mp done).2
      split at behind
      · exact ⟨rest, .inl behind⟩
      · exact ⟨rest, .inr behind⟩

end Execution

mutual

/-- If some execution is done, the statement completes. -/
theorem Statement.completes_of_done (s : Statement) {words : List UInt16}
    (done : (s.execute words).ending = .done) : s.completes = true := by
  cases s with
  | ifElse condition thenBlock elseBlock =>
      rw [Statement.execute] at done
      rw [Statement.completes, Bool.or_eq_true]
      rcases Execution.done_of_branch done with ⟨rest, inThen | inElse⟩
      · exact .inl (thenBlock.completes_of_done inThen)
      · exact .inr (elseBlock.completes_of_done inElse)
  | returnValue value => cases value <;> cases done
  | _ => rfl

/-- The same of statements. -/
theorem Statements.completes_of_done (ss : Statements) {words : List UInt16}
    (done : (ss.execute words).ending = .done) : ss.completes = true := by
  cases ss with
  | nil => rfl
  | cons first rest =>
      rw [Statements.execute, Execution.ending_andThen_eq_done] at done
      rw [Statements.completes, Bool.and_eq_true]
      exact ⟨first.completes_of_done done.1, rest.completes_of_done done.2⟩

end

/-- The execution comes to the end after given words, whatever words come behind them. -/
def DoneBehind (execute : List UInt16 → Execution) (words : List UInt16) : Prop :=
  ∀ more, (execute (words ++ more)).ending = .done ∧
    (execute (words ++ more)).used = words.length

/-- The first word chooses the block, and the block may take the others. -/
theorem doneBehind_branch {condition : Expression} {holds fails : List UInt16 → Execution}
    {word : UInt16} {words : List UInt16}
    (behind : DoneBehind (if word = allOnes then holds else fails) words) :
    DoneBehind (.branch condition holds fails) (word :: words) := by
  intro more
  have rest := behind more
  have same : (Execution.branch condition holds fails (word :: words ++ more)) =
      (Execution.test condition).andThen
        ((if word = allOnes then holds else fails) (words ++ more)) := by
    rw [List.cons_append, Execution.branch]
    split <;> rfl
  rw [same]
  refine ⟨Execution.ending_andThen_eq_done.mpr ⟨rfl, rest.1⟩, ?_⟩
  rw [Execution.used_andThen rfl, rest.2, List.length_cons, Nat.add_comm]
  rfl

/-- A loop is done at once if its condition fails. -/
theorem doneBehind_loop (condition : Expression) (body : List UInt16 → Execution) :
    DoneBehind (.loop condition body) [0] := by
  intro more
  rw [List.singleton_append, Execution.loop, if_neg (by decide)]
  exact ⟨rfl, rfl⟩

mutual

/-- A statement that completes is done for some words.  For a branch these choose a block that
completes. -/
theorem Statement.exists_doneBehind (s : Statement) (completes : s.completes = true) :
    ∃ words, DoneBehind s.execute words := by
  have notOnes : ¬ (0 : UInt16) = allOnes := by decide
  cases s with
  | letVariable target value => exact ⟨[], fun _ => ⟨rfl, rfl⟩⟩
  | letElement array index value => exact ⟨[], fun _ => ⟨rfl, rfl⟩⟩
  | doCall c => exact ⟨[], fun _ => ⟨rfl, rfl⟩⟩
  | ifThen condition thenBlock =>
      have skipped : DoneBehind (fun _ => .skip) [] := fun _ => ⟨rfl, rfl⟩
      refine ⟨[0], doneBehind_branch ?_⟩
      rwa [if_neg notOnes]
  | ifElse condition thenBlock elseBlock =>
      rw [Statement.completes, Bool.or_eq_true] at completes
      rcases completes with inThen | inElse
      · rcases thenBlock.exists_doneBehind inThen with ⟨words, done⟩
        refine ⟨allOnes :: words, doneBehind_branch ?_⟩
        rwa [if_pos rfl]
      · rcases elseBlock.exists_doneBehind inElse with ⟨words, done⟩
        refine ⟨0 :: words, doneBehind_branch ?_⟩
        rwa [if_neg notOnes]
  | whileLoop condition block => exact ⟨[0], doneBehind_loop condition block.execute⟩
  | returnValue value => cases completes

/-- The same of statements, with the words of the first one in front of those of the others. -/
theorem Statements.exists_doneBehind (ss : Statements) (completes : ss.completes = true) :
    ∃ words, DoneBehind ss.execute words := by
  cases ss with
  | nil => exact ⟨[], fun _ => ⟨rfl, rfl⟩⟩
  | cons first rest =>
      rw [Statements.completes, Bool.and_eq_true] at completes
      rcases first.exists_doneBehind completes.1 with ⟨words, done⟩
      rcases rest.exists_doneBehind completes.2 with ⟨words', done'⟩
      refine ⟨words ++ words', fun more => ?_⟩
      rw [List.append_assoc, Statements.execute, (done _).2, List.drop_left]
      refine ⟨Execution.ending_andThen_eq_done.mpr ⟨(done _).1, (done' more).1⟩, ?_⟩
      rw [Execution.used_andThen (done _).1, (done _).2, (done' more).2, List.length_append]

end

/-- A statement completes if some execution of it does. -/
theorem Statement.completes_iff (s : Statement) :
    s.completes = true ↔ ∃ words, (s.execute words).ending = .done := by
  constructor
  · intro completes
    rcases s.exists_doneBehind completes with ⟨words, done⟩
    exact ⟨words ++ [], (done []).1⟩
  · rintro ⟨words, done⟩
    exact s.completes_of_done done

/-- Statements complete if some execution of them does. -/
theorem Statements.completes_iff (ss : Statements) :
    ss.completes = true ↔ ∃ words, (ss.execute words).ending = .done := by
  constructor
  · intro completes
    rcases ss.exists_doneBehind completes with ⟨words, done⟩
    exact ⟨words ++ [], (done []).1⟩
  · rintro ⟨words, done⟩
    exact ss.completes_of_done done

/-! ## Places of statements -/

open Jumps

/-- A statement, and where its code begins and ends. -/
structure Part where
  statement : Statement
  start : Nat
  stop : Nat

/-- The statement as a part.  A `return` is none, since the end of its code is no end of it. -/
def Statement.ownPart (names : Names) (f : Frame) (tail : Bool) (n start : Nat) :
    Statement → List Part
  | .returnValue _ => []
  | s => [⟨s, start, start + (s.code names f tail n).length⟩]

mutual

/-- The parts in a statement whose code begins at a place. -/
def Statement.innerParts (names : Names) (f : Frame) (n start : Nat) : Statement → List Part
  | .letVariable _ _ => []
  | .letElement _ _ _ => []
  | .ifThen condition thenBlock =>
    thenBlock.parts names f false (n + 1)
      (start + (testCode names f condition (Code.ifFalseLabel n)).length)
  | .ifElse condition thenBlock elseBlock =>
    thenBlock.parts names f false (n + 1)
        (start + (testCode names f condition (Code.ifFalseLabel n)).length) ++
      elseBlock.parts names f false (n + 1 + thenBlock.labels)
        (start + (testCode names f condition (Code.ifFalseLabel n)).length +
          (thenBlock.code names f false (n + 1)).length + 2)
  | .whileLoop condition block =>
    block.parts names f false (n + 1)
      (start + 1 + (testCode names f condition (Code.whileEndLabel n)).length)
  | .doCall _ => []
  | .returnValue _ => []

/-- The parts of statements whose code begins at a place, with all parts in them. -/
def Statements.parts (names : Names) (f : Frame) (tail : Bool) (n start : Nat) :
    Statements → List Part
  | .nil => []
  | .cons first rest =>
    first.ownPart names f (tail && rest.isEmpty) n start ++ first.innerParts names f n start ++
      rest.parts names f tail (n + first.labels)
        (start + (first.code names f (tail && rest.isEmpty) n).length)

end

/-- The code of a part stands where the part is.  From it, `return` statements lead to the `home` at
the end of the subroutine. -/
def Part.StandsIn (commands : List Command) (names : Names) (f : Frame) (home : Nat)
    (part : Part) : Prop :=
  ∃ tail n, Stands commands part.start (part.statement.code names f tail n) ∧
    part.stop = part.start + (part.statement.code names f tail n).length ∧
    (part.statement.jumps tail = true → place? commands f.endLabel = some home) ∧
    (tail = true → part.stop = home)

variable {commands : List Command} {names : Names} {f : Frame} {home : Nat} {part : Part}

/-- The code of the statement itself stands where it is listed. -/
theorem Statement.ownPart_standsIn {s : Statement} {tail : Bool} {n start : Nat}
    (stands : Stands commands start (s.code names f tail n))
    (jumps : s.jumps tail = true → place? commands f.endLabel = some home)
    (falls : tail = true → start + (s.code names f tail n).length = home)
    (member : part ∈ s.ownPart names f tail n start) : part.StandsIn commands names f home := by
  cases s with
  | returnValue value => cases member
  | _ =>
      rw [List.mem_singleton.mp member]
      exact ⟨tail, n, stands, rfl, jumps, falls⟩

mutual

/-- The code of every statement inside stands where it is listed.  Blocks stand behind the test of
their statement. -/
theorem Statement.innerParts_standIn (s : Statement) {tail : Bool} {n start : Nat}
    (stands : Stands commands start (s.code names f tail n))
    (jumps : s.jumps tail = true → place? commands f.endLabel = some home)
    (member : part ∈ s.innerParts names f n start) : part.StandsIn commands names f home := by
  cases s with
  | ifThen condition thenBlock =>
      exact thenBlock.parts_standIn stands.left.right jumps nofun member
  | ifElse condition thenBlock elseBlock =>
      rw [Statement.jumps] at jumps
      have elseStands := stands.left.right
      rw [place_append, place_append] at elseStands
      rcases List.mem_append.mp member with inThen | inElse
      · exact thenBlock.parts_standIn stands.left.left.left.right
          (fun jumpsThen => jumps (by rw [jumpsThen, Bool.true_or])) nofun inThen
      · exact elseBlock.parts_standIn elseStands
          (fun jumpsElse => jumps (by rw [jumpsElse, Bool.or_true])) nofun inElse
  | whileLoop condition block =>
      exact block.parts_standIn stands.tail.left.right jumps nofun member
  | _ => cases member

/-- The code of every statement, at whatever depth, stands where it is listed. -/
theorem Statements.parts_standIn (ss : Statements) {tail : Bool} {n start : Nat}
    (stands : Stands commands start (ss.code names f tail n))
    (jumps : ss.jumps tail = true → place? commands f.endLabel = some home)
    (falls : tail = true → start + (ss.code names f tail n).length = home)
    (member : part ∈ ss.parts names f tail n start) : part.StandsIn commands names f home := by
  cases ss with
  | nil => cases member
  | cons first rest =>
      rw [Statements.code] at stands falls
      rw [Statements.jumps] at jumps
      rw [place_append] at falls
      rw [Statements.parts, List.mem_append, List.mem_append] at member
      have jumpsFirst : first.jumps (tail && rest.isEmpty) = true →
          place? commands f.endLabel = some home :=
        fun jumpsFirst => jumps (by rw [jumpsFirst, Bool.true_or])
      rcases member with (own | inFirst) | inRest
      · exact first.ownPart_standsIn stands.left jumpsFirst (rest.falls_of_isEmpty falls) own
      · exact first.innerParts_standIn stands.left jumpsFirst inFirst
      · exact rest.parts_standIn stands.right
          (fun jumpsRest => jumps (by rw [jumpsRest, Bool.or_true])) falls inRest

end

end Jack
