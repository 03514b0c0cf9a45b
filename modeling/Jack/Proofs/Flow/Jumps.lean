import Jack.Proofs.Flow.Structured
import Jack.Proofs.Translation.Labels

namespace Jack

/-!
# Following jumps

The commands of one function are followed from the first one on.  Labels are looked up in the same
function, and `if-goto` jumps unless the topmost word is zero.  That word is not computed: the
condition has left a word which is the next one of a list, and the `not` command that has been
passed last has complemented it.  All commands are recorded that do not decide where to go on.

A run stops at the `return` command, or at an `if-goto` for which there is no word.
-/

/-- How far the commands have been followed. -/
structure Following where
  /-- The number of commands in front of the current one. -/
  place : Nat
  /-- The words that conditions will leave. -/
  words : List UInt16
  /-- The commands that have been passed, apart from labels and jumps. -/
  trace : List Command

namespace Jumps

/-- Where a label stands. -/
def place? (commands : List Command) (label : String) : Option Nat :=
  commands.findIdx? (· == .label label)

/-- Go on at a label. -/
def jump? (commands : List Command) (x : Following) (label : String) : Option Following :=
  (place? commands label).map fun place => { x with place := place }

/-- Go on at a label unless the topmost word is zero, which is the complement of the word that a
condition has left. -/
def branch? (commands : List Command) (x : Following) (label : String) : Option Following :=
  match x.trace.getLast?, x.words with
  | some (.arithmetic .not), word :: rest =>
    if ~~~word = 0 then some { x with place := x.place + 1, words := rest }
    else jump? commands { x with words := rest } label
  | _, _ => none

/-- Follow the current command. -/
def step? (commands : List Command) (x : Following) : Option Following :=
  match commands[x.place]? with
  | some (.label _) => some { x with place := x.place + 1 }
  | some (.goto label) => jump? commands x label
  | some (.ifGoto label) => branch? commands x label
  | some .«return» => none
  | some c => some { x with place := x.place + 1, trace := x.trace ++ [c] }
  | none => none

/-- Any number of steps. -/
inductive Steps (commands : List Command) : Following → Following → Prop
  | refl (x : Following) : Steps commands x x
  | head {x y z : Following} (first : step? commands x = some y) (rest : Steps commands y z) :
    Steps commands x z

variable {commands : List Command}

theorem Steps.trans {x y z : Following} (first : Steps commands x y)
    (second : Steps commands y z) : Steps commands x z := by
  induction first with
  | refl x => exact second
  | head step _ inductionHypothesis => exact .head step (inductionHypothesis second)

/-- One step is a run. -/
theorem Steps.single {x y : Following} (step : step? commands x = some y) : Steps commands x y :=
  .head step (.refl y)

/-- There is one way to follow commands, so two runs that cannot go on end alike. -/
theorem Steps.unique {x y z : Following} (first : Steps commands x y)
    (second : Steps commands x z) (stuck : step? commands y = none)
    (stuck' : step? commands z = none) : y = z := by
  induction first with
  | refl x =>
      cases second with
      | refl => rfl
      | head step _ =>
          rw [stuck] at step
          cases step
  | head step _ inductionHypothesis =>
      cases second with
      | refl =>
          rw [stuck'] at step
          cases step
      | head step' rest' =>
          rw [step] at step'
          cases step'
          exact inductionHypothesis rest' stuck

/-! ## Where commands and labels stand -/

/-- From a place on, the commands are given ones and perhaps more. -/
def Stands (commands : List Command) (place : Nat) (here : List Command) : Prop :=
  ∃ behind, commands.drop place = here ++ behind

/-- The front of a code stands where the code does. -/
theorem Stands.left {place : Nat} {first second : List Command}
    (stands : Stands commands place (first ++ second)) : Stands commands place first := by
  rcases stands with ⟨behind, split⟩
  exact ⟨second ++ behind, by rw [split, List.append_assoc]⟩

/-- The back of a code stands behind its front. -/
theorem Stands.right {place : Nat} {first second : List Command}
    (stands : Stands commands place (first ++ second)) :
    Stands commands (place + first.length) second := by
  rcases stands with ⟨behind, split⟩
  refine ⟨behind, ?_⟩
  rw [← List.drop_drop, split, List.append_assoc, List.drop_left]

theorem Stands.tail {place : Nat} {c : Command} {rest : List Command}
    (stands : Stands commands place (c :: rest)) : Stands commands (place + 1) rest :=
  have split : Stands commands place ([c] ++ rest) := stands
  split.right

/-- The first command of a code is the one at its place. -/
theorem Stands.current {place : Nat} {c : Command} {rest : List Command}
    (stands : Stands commands place (c :: rest)) : commands[place]? = some c := by
  rcases stands with ⟨behind, split⟩
  have first : (commands.drop place)[0]? = some c := by
    rw [split, List.cons_append, List.getElem?_cons_zero]
  rwa [List.getElem?_drop, Nat.add_zero] at first

/-- If no label stands twice, a label is found where it stands. -/
theorem place?_eq {place : Nat} {label : String} (unique : (labelsOf commands).Nodup)
    (found : commands[place]? = some (.label label)) : place? commands label = some place := by
  induction commands generalizing place with
  | nil => cases found
  | cons first rest inductionHypothesis =>
      rw [place?, List.findIdx?_cons]
      cases place with
      | zero =>
          rw [List.getElem?_cons_zero, Option.some.injEq] at found
          rw [found, beq_self_eq_true, if_pos rfl]
      | succ place =>
          rw [List.getElem?_cons_succ] at found
          have there := inductionHypothesis
            (unique.sublist ((List.sublist_cons_self first rest).filterMap _)) found
          have different : ¬ (first == .label label) = true := by
            intro same
            rw [eq_of_beq same, labelsOf_label_cons, List.nodup_cons] at unique
            exact unique.1 (mem_labelsOf (List.mem_of_getElem? found))
          rw [place?] at there
          rw [if_neg different, there]
          rfl

end Jumps

end Jack
