import Mathlib.Logic.Function.Basic
import Jack.Proofs.Termination.Walk

namespace Jack

/-!
# Watching the calls

A run can be watched from outside: whoever watches writes down, for every function that is still
running, how many tokens had been passed when it was called, and stops the run if the function is
called again before one more token has been passed.  A run that is watched does the same as one that
is not (`Callees.alike_watched`), so nothing is ever stopped in this way.  For the same reason the
bound on the number of calls does not matter, as long as it is large enough
(`Callees.alike_ofBound`).
-/

namespace Callees

open Step Routine

/-- The functions of the compiler under observation: `entered` tells at which position each of the
functions that are still running has been called. -/
def watched : Nat → (Routine → Option Nat) → Callees
  | 0, _, _, _ => exhausted
  | bound + 1, entered, x, parameters => fun p =>
    if (entered x).all (· < p.stream.position) then
      (watched bound (Function.update entered x (some p.stream.position))).next x parameters p
    else exhausted p

/-- A function may be called at a position: what is still running was called further in front, or it
was called there and has a higher level. -/
def Fresh (entered : Routine → Option Nat) (x : Routine) (position : Nat) : Prop :=
  ∀ y n, entered y = some n → n < position ∨ n ≤ position ∧ x.level < y.level

variable {entered : Routine → Option Nat} {x y : Routine} {p q : Progress}

/-- All entries of the function were made before this position. -/
theorem Fresh.all (fresh : Fresh entered x p.stream.position) :
    (entered x).all (· < p.stream.position) = true := by
  cases found : entered x with
  | none => rfl
  | some n =>
      rcases fresh x n found with before | ⟨-, lower⟩
      · exact decide_eq_true before
      · exact absurd lower (Nat.lt_irrefl _)

/-- What a function calls may be called while it is running. -/
theorem Fresh.update (fresh : Fresh entered x p.stream.position)
    (called : p.Advances 1 q ∨ p.Advances 0 q ∧ y.level < x.level) :
    Fresh (Function.update entered x (some p.stream.position)) y q.stream.position := by
  intro z n found
  by_cases same : z = x
  · subst same
    rw [Function.update_self] at found
    cases found
    rcases called with passed | ⟨passed, lower⟩
    · exact .inl passed.position_le
    · exact .inr ⟨passed.position_le, lower⟩
  · rw [Function.update_of_ne same] at found
    have before := fresh z n found
    rcases called with passed | ⟨passed, lower⟩
    · have less := passed.position_le
      omega
    · have less := passed.position_le
      omega

/-- A function that may be called does the same whether it is watched or not. -/
theorem alike_watched (bound : Nat) (parameters : x.Parameters) (ready : x.Ready p)
    (fresh : Fresh entered x p.stream.position) :
    Alike p p x.least (ofBound bound x parameters) (watched bound entered x parameters) := by
  induction bound generalizing entered x p with
  | zero =>
      rw [ofBound_zero]
      exact ⟨rfl, .refl p⟩
  | succ bound inductionHypothesis =>
      have goesOn : watched (bound + 1) entered x parameters p =
          (watched bound (Function.update entered x (some p.stream.position))).next x parameters
            p := if_pos fresh.all
      have agree : Agree (ofBound bound)
          (watched bound (Function.update entered x (some p.stream.position))) p x.level :=
        fun y parameters q ready called =>
          inductionHypothesis parameters ready (fresh.update called)
      rcases agree.next x parameters ready with ⟨same, passes⟩
      rw [ofBound_succ]
      exact ⟨same.trans goesOn.symm, passes⟩

/-- A watched compilation does what the compiler does, as long as no function comes back to itself
without a token. -/
theorem agree_watched (bound : Nat) (start : Progress) (highest : Nat) :
    Agree (ofBound bound) (watched bound fun _ => none) start highest :=
  fun _ parameters _ ready _ => alike_watched bound parameters ready fun _ _ found => nomatch found

/-! ## The bound -/

/-- The bound on the number of calls does not matter, as long as it is large enough. -/
theorem alike_ofBound {bound bound' : Nat} (parameters : x.Parameters) (ready : x.Ready p)
    (enough : 8 * p.remaining + x.level < bound) (enough' : 8 * p.remaining + x.level < bound') :
    Alike p p x.least (ofBound bound x parameters) (ofBound bound' x parameters) := by
  induction bound generalizing bound' x p with
  | zero => exact absurd enough (Nat.not_lt_zero _)
  | succ bound inductionHypothesis =>
      cases bound' with
      | zero => exact absurd enough' (Nat.not_lt_zero _)
      | succ bound' =>
          have agree : Agree (ofBound bound) (ofBound bound') p x.level := by
            intro y parameters q ready called
            have few : 8 * q.remaining + y.level < 8 * p.remaining + x.level := by
              rcases called with passed | ⟨passed, lower⟩
              · have fewer := passed.remaining_le
                have low := y.level_le
                omega
              · have fewer := passed.remaining_le
                omega
            exact inductionHypothesis parameters ready (by omega) (by omega)
          rw [ofBound_succ, ofBound_succ]
          exact agree.next x parameters ready

/-- Two bounds that are large enough lead to the same compilation. -/
theorem agree_ofBound {bound bound' : Nat} {start : Progress}
    (enough : 8 * start.remaining ≤ bound) (enough' : 8 * start.remaining ≤ bound') :
    Agree (ofBound bound) (ofBound bound') start 0 := by
  intro y parameters q ready called
  rcases called with passed | ⟨-, lower⟩
  · have fewer := passed.remaining_le
    have low := y.level_le
    exact alike_ofBound parameters ready (by omega) (by omega)
  · exact absurd lower (Nat.not_lt_zero _)

end Callees

end Jack
