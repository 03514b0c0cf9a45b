import Jack.Proofs.Stack.Region

namespace Jack

/-!
# Paths through commands

A path goes from command to command, whatever words the conditions leave.  In a region without
exits, paths meet the heights of the region and no others.
-/

open Jumps

/-- A path from the first of the commands leads to a place, and behind it the stack has a given
height.  The height is counted up and down from zero, also below zero. -/
inductive Arrives (commands : List Command) : Nat → Int → Prop
  | start : Arrives commands 0 0
  | next {place next : Nat} {height : Int} {c : Command} (arrives : Arrives commands place height)
    (found : commands[place]? = some c) (leads : Leads commands place c next) :
    Arrives commands next (height - c.removes + c.adds)

variable {commands : List Command}

/-- In a region without exits, paths stay and meet the heights of the region. -/
theorem Arrives.exists_height {stop : Nat} {parts : List Part} {heights : Heights}
    (region : Region commands 0 stop parts heights fun _ _ => False) (entered : heights 0 0)
    {place : Nat} {height : Int} (arrives : Arrives commands place height) :
    ∃ k : Nat, height = k ∧ heights place k := by
  induction arrives with
  | start => exact ⟨0, rfl, entered⟩
  | next arrives found leads inductionHypothesis =>
      rcases inductionHypothesis with ⟨k, rfl, there⟩
      have enough := region.enough there found
      refine ⟨_, ?_, (region.closed there found leads).resolve_right id⟩
      rw [Command.behind]
      omega

/-- Following the commands is following a path. -/
theorem Arrives.of_step? {x y : Following} {height : Int}
    (arrives : Arrives commands x.place height) (step : step? commands x = some y) :
    ∃ height', Arrives commands y.place height' := by
  have onward {c : Command} (found : commands[x.place]? = some c)
      (leads : Leads commands x.place c y.place) : ∃ height', Arrives commands y.place height' :=
    ⟨_, arrives.next found leads⟩
  have jumps {z : Following} {label : String} (jump : jump? commands z label = some y) :
      place? commands label = some y.place := by
    rcases Option.map_eq_some_iff.mp jump with ⟨target, there, rfl⟩
    exact there
  unfold step? at step
  split at step
  · rename_i label found
    cases step
    exact onward found rfl
  · rename_i label found
    exact onward found (jumps step)
  · rename_i label found
    refine onward found ?_
    unfold branch? at step
    split at step
    · split at step
      · cases step
        exact .inl rfl
      · exact .inr (jumps step)
    · cases step
  · cases step
  · rename_i c noLabel noGoto noIfGoto noReturn found
    cases step
    refine onward found ?_
    cases c with
    | goto label => exact absurd rfl (noGoto label)
    | ifGoto label => exact absurd rfl (noIfGoto label)
    | «return» => exact absurd rfl noReturn
    | _ => rfl
  · cases step

/-- Where commands are followed to, a path arrives, with some height. -/
theorem Arrives.of_steps {x y : Following} (steps : Steps commands x y) {height : Int}
    (arrives : Arrives commands x.place height) : ∃ height', Arrives commands y.place height' := by
  induction steps generalizing height with
  | refl x => exact ⟨height, arrives⟩
  | head step _ inductionHypothesis =>
      rcases arrives.of_step? step with ⟨between, arrives'⟩
      exact inductionHypothesis arrives'

/-- From the beginning of a part that completes, a path goes on to its end. -/
theorem Part.StandsIn.exists_arrives {names : Names} {f : Frame} {home : Nat} {part : Part}
    (standsIn : part.StandsIn commands names f home) (unique : (labelsOf commands).Nodup)
    (completes : ∃ words, (part.statement.execute words).ending = .done) {height : Int}
    (arrives : Arrives commands part.start height) :
    ∃ height', Arrives commands part.stop height' := by
  rcases standsIn with ⟨tail, n, stands, stop, jumps, falls⟩
  rcases completes with ⟨words, done⟩
  rw [stop] at falls ⊢
  rcases part.statement.follows unique stands jumps falls words [] with ⟨last, steps, -, -, ends⟩
  rw [done] at ends
  rcases arrives.of_steps steps with ⟨height', atLast⟩
  rw [show last.place = _ from ends] at atLast
  exact ⟨height', atLast⟩

end Jack
