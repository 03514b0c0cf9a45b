import Mathlib
import Jack.Proofs.Compiler.Language
import Jack.Proofs.Flow.Simulation

namespace Jack

/-!
# Emitted jumps follow the structure

Following the commands of a compiled subroutine passes the commands in front of its statements, the
code of what the structured execution visits, and the commands at the end.  A `return` statement, at
whatever depth, and the end of the statements both lead to the only `return` command.
-/

open Jumps

variable {commands : List Command} {words : List UInt16} {trace : List Command}

/-- The command of a function and its prologue are passed before the statements. -/
theorem Jumps.steps_start {c : ClassTree} {s : Subroutine} {start : Nat} {rest : List Command}
    (stands : Stands commands start (s.start c :: rest)) :
    Steps commands ⟨start, words, trace⟩ ⟨start + 1, words, trace ++ [s.start c]⟩ := by
  apply Steps.single
  simp only [step?, stands.current, Subroutine.start]

/-- There may be a label behind the statements. -/
theorem Jumps.steps_finish {label : String} {labelled : Bool} {home : Nat} {rest : List Command}
    (stands : Stands commands home ((if labelled then [Command.label label] else []) ++ rest))
    (words : List UInt16) (trace : List Command) :
    ∃ place, Steps commands ⟨home, words, trace⟩ ⟨place, words, trace⟩ ∧
      Stands commands place rest := by
  cases labelled with
  | true => exact ⟨home + 1, steps_label stands.current, stands.tail⟩
  | false => exact ⟨home, .refl _, stands⟩

/-- Nothing is followed behind a `return` command. -/
theorem Jumps.step?_return {x : Following} (found : commands[x.place]? = some .«return») :
    step? commands x = none := by
  simp only [step?, found]

/-- Nothing is followed behind a condition for which there is no word. -/
theorem Jumps.step?_wait {x : Following} {label : String}
    (found : commands[x.place]? = some (.ifGoto label)) (noWord : x.words = []) :
    step? commands x = none := by
  simp only [step?, found, branch?, noWord]
  split
  · contradiction
  · rfl

/-- The commands of a subroutine that are passed when its statements are executed in a certain way:
those in front of the statements, those of the pieces that are visited, and those at the end. -/
def Subroutine.passed (c : ClassTree) (s : Subroutine) (x : Execution) : List Command :=
  s.start c :: s.prologue c ++ x.visits.flatMap (Piece.code (c.namesIn s) c.name) ++
    if x.ending = .waits then [] else s.closing

/-- Whatever words the conditions leave, following the commands of a subroutine from the first one
on does what executing its statements does, until it reaches the `return` command at the end or has
no more words. -/
def Subroutine.FollowsStructure (options : Options) (c : ClassTree) (n : Nat) (s : Subroutine) :
    Prop :=
  ∀ words : List UInt16,
    ∃ last, Steps (s.code options c n) ⟨0, words, []⟩ last ∧
      step? (s.code options c n) last = none ∧
      last.words = words.drop (s.statements.execute words).used ∧
      last.trace = s.passed c (s.statements.execute words) ∧
      if (s.statements.execute words).ending = .waits then
        last.words = [] ∧ ∃ label, (s.code options c n)[last.place]? = some (.ifGoto label)
      else
        (s.code options c n)[last.place]? = some .«return» ∧
        last.place + 1 = (s.code options c n).length

/-- The code of every subroutine follows the structure of its statements, from the first command to
the `return` command or to a condition without a word. -/
theorem Subroutine.followsStructure (options : Options) (c : ClassTree) (n : Nat)
    (s : Subroutine) : s.FollowsStructure options c n := by
  intro words
  have parts := s.code_eq_inner options c n
  rw [Subroutine.inner, List.append_assoc, List.append_assoc, List.append_assoc] at parts
  have unique := s.labelsOf_nodup options c n
  have atEnd (place : Nat) : (s.code options c n)[place]? = some .«return» →
      place + 1 = (s.code options c n).length := s.return_last
  -- From here on, all that matters of the code is that it has these parts and no label twice.
  generalize s.code options c n = commands at parts unique atEnd ⊢
  have stands : Stands commands 0 _ := ⟨[], parts.trans (List.append_nil _).symm⟩
  have prologueStands := stands.tail.left
  have statementsStand := stands.tail.right.left
  have finishStands := stands.tail.right.right
  generalize homeEq : 0 + 1 + (s.prologue c).length + _ = home at finishStands
  have jumps : s.statements.jumps options.foldTailReturn = true →
      place? commands (c.frame options n).endLabel = some home := by
    intro jumps
    rw [Subroutine.labelled, jumps, Bool.true_or] at finishStands
    exact place?_of_stands unique finishStands
  have opened : Steps commands ⟨0, words, []⟩ _ :=
    (steps_start stands).trans (steps_straight prologueStands (s.prologue_straight c) _ _)
  rcases s.statements.follows unique
      statementsStand jumps (fun _ => homeEq) words (s.start c :: s.prologue c) with
    ⟨last, steps, sameWords, sameTrace, ends⟩
  rw [homeEq] at ends
  generalize s.statements.execute words = x at steps sameWords sameTrace ends ⊢
  by_cases waits : x.ending = .waits
  · rw [waits] at ends
    rcases ends with ⟨noWord, label, branch⟩
    refine ⟨last, opened.trans steps, step?_wait branch noWord, sameWords, ?_, ?_⟩
    · rw [Subroutine.passed, if_pos waits, List.append_nil]
      exact sameTrace
    · rw [if_pos waits]
      exact ⟨noWord, label, branch⟩
  -- Whether the statements are done or return, control comes to the end of the subroutine.
  · have atHome : last.place = home := by
      unfold EndsAt at ends
      split at ends
      · exact ends
      · exact ends
      · contradiction
    rcases steps_finish finishStands last.words last.trace with ⟨place, label, closingStands⟩
    have here : last = ⟨home, last.words, last.trace⟩ := by
      rw [← atHome]
    rw [here] at steps
    have closed := (opened.trans steps).trans
      (label.trans (steps_straight closingStands.left s.closing_straight _ _))
    have atReturn := closingStands.right.current
    refine ⟨_, closed, step?_return atReturn, sameWords, ?_, ?_⟩
    · rw [Subroutine.passed, if_neg waits]
      exact congrArg (· ++ s.closing) sameTrace
    · rw [if_neg waits]
      exact ⟨atReturn, atEnd _ atReturn⟩

/-- The listing of a compiled class consists of the code of its subroutines, each of which begins
with its only `function` command, ends with its only `return` command, and follows the structure of
the statements. -/
theorem compileClass_followsStructure {options : Options} {source : List Char} {listing : Listing}
    (compiled : (compileClass options source).result = .ok listing) :
    ∃ c : ClassTree, Lexes source c.lexemes ∧ (∀ c', Lexes source c'.lexemes → c' = c) ∧
      listing.toList = c.numbered.flatMap (fun block => block.2.code options c block.1) ∧
      ∀ n s, (n, s) ∈ c.numbered →
        (∃ inner, s.code options c n = s.start c :: (inner ++ [.«return»]) ∧
          inner.all Command.isInner = true) ∧
        s.FollowsStructure options c n := by
  rcases compileClass_eq_ok_iff.mp compiled with ⟨c, lexes, -, code⟩
  refine ⟨c, lexes, fun c' lexes' => lexes.tree_unique lexes', ?_, fun n s _ => ⟨?_, ?_⟩⟩
  · rw [code, c.code_eq_flatMap]
  · exact ⟨s.inner options c n, s.code_eq_inner options c n, s.inner_isInner options c n⟩
  · exact s.followsStructure options c n

/-- A `return` statement in a loop. -/
theorem compileClass_followsStructure_loop :
    (compileClass {} "class A{method int m(){while(this){return 1;}return 0;}}".toList).result =
        .ok #[.function "A.m" 0, .push .argument 0, .pop .pointer 0, .label "WHILE_EXP1",
          .push .pointer 0, .arithmetic .not, .ifGoto "WHILE_END1", .push .constant 1,
          .goto "RETURN0", .goto "WHILE_EXP1", .label "WHILE_END1", .push .constant 0,
          .label "RETURN0", .«return»] ∧
      ∃ c : ClassTree,
        Lexes "class A{method int m(){while(this){return 1;}return 0;}}".toList c.lexemes ∧
        ∀ n s, (n, s) ∈ c.numbered → s.FollowsStructure {} c n := by
  have compiled := compileClass_of_emitted {}
    "class A{method int m(){while(this){return 1;}return 0;}}".toList (by cbv)
  rcases compileClass_followsStructure compiled with ⟨c, lexes, -, -, subroutines⟩
  exact ⟨compiled, c, lexes, fun n s member => (subroutines n s member).2⟩

end Jack
