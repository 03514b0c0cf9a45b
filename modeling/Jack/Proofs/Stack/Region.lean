import Jack.Proofs.Stack.Height
import Jack.Proofs.Stack.Parts

namespace Jack

/-!
# Heights in regions of code

A region is a run of commands with heights of the stack for the places where control can be.  At
every such place there is one height, there are enough words for the command, and the command leads
on to a place of the region with the right height or to an exit.  A region that is not entered has
no heights at all.  Regions are put together from smaller ones, so that what is true of a branch or
a loop follows from what is true of its blocks.
-/

open Jumps

/-- Where a command that stands at a place leads. -/
def Leads (commands : List Command) (place : Nat) (c : Command) (next : Nat) : Prop :=
  match c with
  | .goto label => place? commands label = some next
  | .ifGoto label => next = place + 1 ∨ place? commands label = some next
  | .«return» => False
  | _ => next = place + 1

/-- Which heights the stack may have at which places. -/
abbrev Heights := Nat → Nat → Prop

namespace Heights

/-- Only one height at only one place. -/
def just (place height : Nat) : Heights := fun p h => p = place ∧ h = height

/-- The heights of two kinds. -/
def either (first second : Heights) : Heights := fun p h => first p h ∨ second p h

/-- No heights at all, unless a condition holds. -/
def provided (condition : Bool) (heights : Heights) : Heights :=
  fun p h => condition = true ∧ heights p h

end Heights

variable {commands : List Command} {start middle stop : Nat} {parts parts' : List Part}
  {heights heights' exits exits' allExits : Heights}

/-- The commands from one place up to another, with the heights at which control can be there.  It
says nothing of how control comes in, and it lets control out only at its exits. -/
structure Region (commands : List Command) (start stop : Nat) (parts : List Part)
    (heights exits : Heights) : Prop where
  ordered : start ≤ stop
  within : ∀ {place height : Nat}, heights place height → start ≤ place ∧ place < stop
  unique : ∀ {place height height' : Nat}, heights place height → heights place height' →
    height = height'
  enough : ∀ {place height : Nat} {c : Command}, heights place height →
    commands[place]? = some c → c.removes ≤ height
  closed : ∀ {place height next : Nat} {c : Command}, heights place height →
    commands[place]? = some c → Leads commands place c next →
    heights next (c.behind height) ∨ exits next (c.behind height)
  partsWithin : ∀ part ∈ parts, start ≤ part.start ∧ part.start < stop
  /-- The stack is empty in front of the parts and behind those that complete. -/
  settled : ∀ part ∈ parts, ∀ height, heights part.start height →
    height = 0 ∧ (part.statement.completes = true → heights part.stop 0 ∨ exits part.stop 0)

namespace Region

/-- A single command that is entered at one height. -/
theorem single {c : Command} {height : Nat} (found : commands[start]? = some c)
    (enough : c.removes ≤ height)
    (leads : ∀ next, Leads commands start c next → exits next (c.behind height)) :
    Region commands start (start + 1) [] (.just start height) exits where
  ordered := Nat.le_succ start
  within := by
    rintro _ _ ⟨rfl, -⟩
    exact ⟨Nat.le_refl _, Nat.lt_succ_self _⟩
  unique := by
    rintro _ _ _ ⟨-, rfl⟩ ⟨-, rfl⟩
    rfl
  enough := by
    rintro _ _ c' ⟨rfl, rfl⟩ found'
    rw [found] at found'
    rwa [← Option.some.inj found']
  closed := by
    rintro _ _ next c' ⟨rfl, rfl⟩ found' leadsTo
    rw [found] at found'
    cases found'
    exact .inr (leads next leadsTo)
  partsWithin := nofun
  settled := nofun

/-- A region that is only entered under a condition. -/
theorem provided (condition : Bool) (region : Region commands start stop parts heights exits) :
    Region commands start stop parts (heights.provided condition) (exits.provided condition) where
  ordered := region.ordered
  within entered := region.within entered.2
  unique first second := region.unique first.2 second.2
  enough entered found := region.enough entered.2 found
  closed := by
    rintro _ _ _ _ ⟨holds, entered⟩ found leads
    exact (region.closed entered found leads).imp (⟨holds, ·⟩) (⟨holds, ·⟩)
  partsWithin := region.partsWithin
  settled := by
    rintro part member _ ⟨holds, entered⟩
    have settled := region.settled part member _ entered
    exact ⟨settled.1, fun completes => (settled.2 completes).imp (⟨holds, ·⟩) (⟨holds, ·⟩)⟩

/-- Two regions, one behind the other, of which each may have exits into the other. -/
theorem join (first : Region commands start middle parts heights exits)
    (second : Region commands middle stop parts' heights' exits')
    (forward : ∀ p h, exits p h → heights' p h ∨ allExits p h)
    (back : ∀ p h, exits' p h → heights p h ∨ allExits p h) :
    Region commands start stop (parts ++ parts') (heights.either heights') allExits where
  ordered := Nat.le_trans first.ordered second.ordered
  within := by
    rintro place height (entered | entered)
    · have bounds := first.within entered
      exact ⟨bounds.1, Nat.lt_of_lt_of_le bounds.2 second.ordered⟩
    · have bounds := second.within entered
      exact ⟨Nat.le_trans first.ordered bounds.1, bounds.2⟩
  unique := by
    -- A place belongs to one of the two regions only, since one ends where the other begins.
    rintro place height height' (entered | entered) (entered' | entered')
    · exact first.unique entered entered'
    · have below := (first.within entered).2
      have above := (second.within entered').1
      omega
    · have below := (first.within entered').2
      have above := (second.within entered).1
      omega
    · exact second.unique entered entered'
  enough := by
    rintro place height c (entered | entered) found
    · exact first.enough entered found
    · exact second.enough entered found
  closed := by
    rintro place height next c (entered | entered) found leads
    · rcases first.closed entered found leads with inside | exit
      · exact .inl (.inl inside)
      · exact (forward _ _ exit).imp_left .inr
    · rcases second.closed entered found leads with inside | exit
      · exact .inl (.inr inside)
      · exact (back _ _ exit).imp_left .inl
  partsWithin := by
    intro part member
    rcases List.mem_append.mp member with inFirst | inSecond
    · have bounds := first.partsWithin part inFirst
      exact ⟨bounds.1, Nat.lt_of_lt_of_le bounds.2 second.ordered⟩
    · have bounds := second.partsWithin part inSecond
      exact ⟨Nat.le_trans first.ordered bounds.1, bounds.2⟩
  settled := by
    intro part member height entered
    rcases List.mem_append.mp member with inFirst | inSecond
    · have bounds := first.partsWithin part inFirst
      rcases entered with entered | entered
      · have settled := first.settled part inFirst height entered
        refine ⟨settled.1, fun completes => ?_⟩
        rcases settled.2 completes with inside | exit
        · exact .inl (.inl inside)
        · exact (forward _ _ exit).imp_left .inr
      · have above := (second.within entered).1
        omega
    · have bounds := second.partsWithin part inSecond
      rcases entered with entered | entered
      · have below := (first.within entered).2
        omega
      · have settled := second.settled part inSecond height entered
        refine ⟨settled.1, fun completes => ?_⟩
        rcases settled.2 completes with inside | exit
        · exact .inl (.inr inside)
        · exact (back _ _ exit).imp_left .inl

/-- There may be more exits. -/
theorem mono (region : Region commands start stop parts heights exits)
    (implies : ∀ p h, exits p h → allExits p h) :
    Region commands start stop parts heights allExits where
  ordered := region.ordered
  within := region.within
  unique := region.unique
  enough := region.enough
  closed entered found leads := (region.closed entered found leads).imp_right (implies _ _)
  partsWithin := region.partsWithin
  settled := by
    intro part member height entered
    have settled := region.settled part member height entered
    exact ⟨settled.1, fun completes => (settled.2 completes).imp_right (implies _ _)⟩

/-- The whole region is a part. -/
theorem own {s : Statement} (region : Region commands start stop parts heights exits)
    (entered : heights start 0) (completes : s.completes = true → exits stop 0) :
    Region commands start stop (⟨s, start, stop⟩ :: parts) heights exits where
  ordered := region.ordered
  within := region.within
  unique := region.unique
  enough := region.enough
  closed := region.closed
  partsWithin := List.forall_mem_cons.mpr ⟨region.within entered, region.partsWithin⟩
  settled := List.forall_mem_cons.mpr
    ⟨fun _ other => ⟨region.unique other entered, fun done => .inr (completes done)⟩,
      region.settled⟩

end Region

/-- A region whose heights are right if it is entered with a given height. -/
def Balanced (commands : List Command) (start stop entry : Nat) (parts : List Part)
    (exits : Heights) : Prop :=
  ∃ heights, Region commands start stop parts heights exits ∧
    (heights start entry ∨ exits start entry)

namespace Balanced

variable {entry entry' : Nat}

/-- A single command that is entered at one height. -/
theorem single {c : Command} (found : commands[start]? = some c) (enough : c.removes ≤ entry)
    (leads : ∀ next, Leads commands start c next → exits next (c.behind entry)) :
    Balanced commands start (start + 1) entry [] exits :=
  ⟨_, .single found enough leads, .inl ⟨rfl, rfl⟩⟩

/-- There may be more exits. -/
theorem mono (balanced : Balanced commands start stop entry parts exits)
    (implies : ∀ p h, exits p h → allExits p h) :
    Balanced commands start stop entry parts allExits := by
  rcases balanced with ⟨heights, region, enters⟩
  exact ⟨heights, region.mono implies, enters.imp_right (implies _ _)⟩

/-- The whole region is a part, if it is not left at once. -/
theorem own {s : Statement} (balanced : Balanced commands start stop 0 parts exits)
    (notLeft : ¬ exits start 0) (completes : s.completes = true → exits stop 0) :
    Balanced commands start stop 0 (⟨s, start, stop⟩ :: parts) exits := by
  rcases balanced with ⟨heights, region, enters⟩
  have entered := enters.resolve_right notLeft
  exact ⟨heights, region.own entered completes, .inl entered⟩

/-- One region behind another one, entered from there if a condition holds and otherwise not at
all. -/
theorem followed (condition : Bool) (first : Balanced commands start middle entry parts exits)
    (second : Balanced commands middle stop entry' parts' exits')
    (forward : ∀ p h, exits p h → (condition = true ∧ p = middle ∧ h = entry') ∨ allExits p h)
    (last : condition = true → ∀ p h, exits' p h → allExits p h) :
    Balanced commands start stop entry (parts ++ parts') allExits := by
  rcases first with ⟨heights, region, enters⟩
  rcases second with ⟨heights', region', enters'⟩
  have forward' : ∀ p h, exits p h → heights'.provided condition p h ∨ allExits p h := by
    intro p h exit
    rcases forward p h exit with ⟨holds, rfl, rfl⟩ | leaves
    · exact enters'.imp (⟨holds, ·⟩) (last holds _ _)
    · exact .inr leaves
  refine ⟨_, region.join (region'.provided condition) forward'
    fun p h exit => .inr (last exit.1 p h exit.2), ?_⟩
  rcases enters with inside | exit
  · exact .inl (.inl inside)
  · exact (forward' _ _ exit).imp_left .inr

end Balanced

/-! ## Commands that run straight through -/

/-- The command leads to the next one and nowhere else. -/
def Command.flows : Command → Bool
  | goto _ | ifGoto _ | «return» => false
  | _ => true

/-- A command that flows leads to the next place only. -/
theorem Command.eq_of_leads {c : Command} {place next : Nat} (flows : c.flows = true)
    (leads : Leads commands place c next) : next = place + 1 := by
  cases c with
  | goto label => cases flows
  | ifGoto label => cases flows
  | «return» => cases flows
  | _ => exact leads

/-- Straight commands flow. -/
theorem all_flows_of_all_isStraight {code : List Command}
    (straight : code.all Command.isStraight = true) : code.all Command.flows = true := by
  rw [List.all_eq_true] at straight ⊢
  intro c member
  have isStraight := straight c member
  cases c <;> first | rfl | cases isStraight

/-- Code without jumps is entered with enough words and left behind its end, at the height that its
commands add up to. -/
theorem balanced_run {code : List Command} {entry exit : Nat} (stands : Stands commands start code)
    (flows : code.all Command.flows = true) (behind : heightBehind? code entry = some exit) :
    Balanced commands start (start + code.length) entry [] (.just (start + code.length) exit) := by
  induction code generalizing start entry with
  | nil =>
      cases behind
      exact ⟨fun _ _ => False, ⟨Nat.le_refl _, nofun, nofun, nofun, nofun, nofun, nofun⟩,
        .inr ⟨rfl, rfl⟩⟩
  | cons c rest inductionHypothesis =>
      rw [List.all_cons, Bool.and_eq_true] at flows
      rw [heightBehind?] at behind
      split at behind
      · rename_i enough
        have restBalanced := inductionHypothesis stands.tail flows.2 behind
        rw [List.length_cons, Nat.add_comm rest.length, ← Nat.add_assoc]
        have first : Balanced commands start (start + 1) entry []
            (.just (start + 1) (c.behind entry)) :=
          .single stands.current enough fun next leads =>
            ⟨Command.eq_of_leads flows.1 leads, rfl⟩
        exact first.followed true restBalanced (fun _ _ exit => .inl ⟨rfl, exit⟩)
          fun _ _ _ exit => exit
      · cases behind

/-! ## Branches and loops -/

variable {names : Names} {f : Frame} {condition : Expression} {label : String}

/-- A label can be passed with any height. -/
theorem balanced_label (found : commands[start]? = some (.label label)) (entry : Nat) :
    Balanced commands start (start + 1) entry [] (.just (start + 1) entry) :=
  .single found (Nat.zero_le _) fun _ leads => ⟨leads, rfl⟩

/-- A jump is left at its label with the height at which it is entered. -/
theorem balanced_goto {target : Nat} (found : commands[start]? = some (.goto label))
    (leads : place? commands label = some target) (entry : Nat) :
    Balanced commands start (start + 1) entry [] (.just target entry) := by
  refine .single found (Nat.zero_le _) fun next leadsTo => ⟨?_, rfl⟩
  have there : place? commands label = some next := leadsTo
  rw [leads] at there
  exact (Option.some.inj there).symm

/-- A conditional jump takes one word and is left behind it or at its label. -/
theorem balanced_branch {target : Nat} (found : commands[start]? = some (.ifGoto label))
    (leads : place? commands label = some target) :
    Balanced commands start (start + 1) 1 []
      ((Heights.just (start + 1) 0).either (.just target 0)) := by
  refine .single found (Nat.le_refl 1) fun next leadsTo => ?_
  rcases leadsTo with rfl | there
  · exact .inl ⟨rfl, rfl⟩
  · rw [leads] at there
    exact .inr ⟨(Option.some.inj there).symm, rfl⟩

/-- The two ways on from a condition. -/
theorem balanced_test {target : Nat}
    (stands : Stands commands start (testCode names f condition label))
    (leads : place? commands label = some target) (acceptable : condition.Acceptable names) :
    Balanced commands start (start + (testCode names f condition label).length) 0 []
      ((Heights.just (start + (testCode names f condition label).length) 0).either
        (.just target 0)) := by
  have turns : Turns ((Piece.condition condition).code names f.className) 0 1 :=
    (condition.code_turns acceptable).append (turns_singleton (Nat.le_refl 1))
  have flows : ((Piece.condition condition).code names f.className).all Command.flows = true := by
    apply all_flows_of_all_isStraight
    rw [Piece.code, List.all_append, condition.code_straight]
    rfl
  rw [testCode_eq] at stands ⊢
  rw [place_append]
  exact (balanced_run stands.left flows turns.behind).followed true
    (balanced_branch stands.right.current leads) (fun _ _ exit => .inl ⟨rfl, exit⟩)
    fun _ _ _ exit => exit

/-- Control may come back to a label. -/
theorem balanced_loop (top : commands[start]? = some (.label label))
    (body : Balanced commands (start + 1) stop 0 parts ((Heights.just start 0).either exits)) :
    Balanced commands start stop 0 parts exits := by
  rcases body with ⟨heights, region, enters⟩
  have first : Region commands start (start + 1) [] (.just start 0) (.just (start + 1) 0) :=
    .single top (Nat.le_refl 0) fun _ leads => ⟨leads, rfl⟩
  refine ⟨_, first.join region ?_ fun _ _ exit => exit, .inl (.inl ⟨rfl, rfl⟩)⟩
  rintro _ _ ⟨rfl, rfl⟩
  rcases enters with inside | ⟨same, -⟩ | exit
  · exact .inl inside
  · exact absurd same (Nat.succ_ne_self start)
  · exact .inr exit

/-- How a block is left: at its end with an empty stack, if it completes, or from a `return` to the
end of the subroutine with the result on the stack. -/
def blockExits (completes : Bool) (stop home result : Nat) : Heights :=
  ((Heights.just stop 0).provided completes).either (.just home result)

variable {completes elseCompletes : Bool} {thenStart thenStop elseStop home result : Nat}

/-- A branch with one block.  Whether or not the block completes, control comes to the label behind
it. -/
theorem balanced_ifThen
    (test : Balanced commands start thenStart 0 []
      ((Heights.just thenStart 0).either (.just thenStop 0)))
    (taken : Balanced commands thenStart thenStop 0 parts
      (blockExits completes thenStop home result))
    (exit : commands[thenStop]? = some (.label label)) :
    Balanced commands start (thenStop + 1) 0 parts
      (blockExits true (thenStop + 1) home result) := by
  have opened : Balanced commands start thenStop 0 parts
      ((Heights.just thenStop 0).either (.just home result)) :=
    test.followed true taken (fun _ _ leaves => leaves.imp (⟨rfl, ·⟩) .inl)
      fun _ _ _ leaves => leaves.imp_left And.right
  have closed : Balanced commands start (thenStop + 1) 0 (parts ++ [])
      (blockExits true (thenStop + 1) home result) :=
    opened.followed true (balanced_label exit 0) (fun _ _ leaves => leaves.imp (⟨rfl, ·⟩) .inr)
      fun _ _ _ leaves => .inl ⟨rfl, leaves⟩
  rwa [List.append_nil] at closed

/-- A branch with two blocks.  Control comes to its end if one of the blocks completes. -/
theorem balanced_ifElse {exitLabel : String}
    (test : Balanced commands start thenStart 0 []
      ((Heights.just thenStart 0).either (.just (thenStop + 1) 0)))
    (taken : Balanced commands thenStart thenStop 0 parts
      (blockExits completes thenStop home result))
    (leave : commands[thenStop]? = some (.goto exitLabel))
    (leads : place? commands exitLabel = some elseStop)
    (skip : commands[thenStop + 1]? = some (.label label))
    (other : Balanced commands (thenStop + 2) elseStop 0 parts'
      (blockExits elseCompletes elseStop home result))
    (exit : commands[elseStop]? = some (.label exitLabel)) :
    Balanced commands start (elseStop + 1) 0 (parts ++ parts')
      (blockExits (completes || elseCompletes) (elseStop + 1) home result) := by
  -- What is left open: the way to the `else` block, the ways to the last label and those home.
  have opened : Balanced commands start thenStop 0 parts
      ((Heights.just (thenStop + 1) 0).either (blockExits completes thenStop home result)) :=
    test.followed true taken (fun _ _ leaves => leaves.imp (⟨rfl, ·⟩) .inl)
      fun _ _ _ leaves => .inr leaves
  have left : Balanced commands start (thenStop + 1) 0 (parts ++ [])
      ((Heights.just (thenStop + 1) 0).either (blockExits completes elseStop home result)) := by
    refine opened.followed completes (balanced_goto leave leads 0) ?_
      fun holds _ _ leaves => .inr (.inl ⟨holds, leaves⟩)
    rintro p h (toElse | ⟨holds, toGoto⟩ | toHome)
    · exact .inr (.inl toElse)
    · exact .inl ⟨holds, toGoto⟩
    · exact .inr (.inr (.inr toHome))
  have skipped : Balanced commands start (thenStop + 2) 0 (parts ++ [] ++ [])
      ((Heights.just (thenStop + 2) 0).either (blockExits completes elseStop home result)) :=
    left.followed true (balanced_label skip 0) (fun _ _ leaves => leaves.imp (⟨rfl, ·⟩) .inr)
      fun _ _ _ leaves => .inl leaves
  have both : Balanced commands start elseStop 0 (parts ++ [] ++ [] ++ parts')
      (blockExits (completes || elseCompletes) elseStop home result) := by
    refine skipped.followed true other (fun _ _ leaves => leaves.imp (⟨rfl, ·⟩) ?_) ?_
    · rintro (⟨holds, toExit⟩ | toHome)
      · exact .inl ⟨by rw [holds, Bool.true_or], toExit⟩
      · exact .inr toHome
    · rintro - p h (⟨holds, toExit⟩ | toHome)
      · exact .inl ⟨by rw [holds, Bool.or_true], toExit⟩
      · exact .inr toHome
  have closed : Balanced commands start (elseStop + 1) 0 (parts ++ [] ++ [] ++ parts' ++ [])
      (blockExits (completes || elseCompletes) (elseStop + 1) home result) :=
    both.followed (completes || elseCompletes) (balanced_label exit 0)
      (fun _ _ leaves => leaves.imp id .inr) fun holds _ _ leaves => .inl ⟨holds, leaves⟩
  rwa [List.append_nil, List.append_nil, List.append_nil] at closed

/-- A loop.  The place of its first label is entered from outside and from the end of its block,
with the same height both times. -/
theorem balanced_while {top : String} {blockStart blockStop : Nat}
    (found : commands[start]? = some (.label top))
    (leads : place? commands top = some start)
    (test : Balanced commands (start + 1) blockStart 0 []
      ((Heights.just blockStart 0).either (.just (blockStop + 1) 0)))
    (around : Balanced commands blockStart blockStop 0 parts
      (blockExits completes blockStop home result))
    (back : commands[blockStop]? = some (.goto top))
    (exit : commands[blockStop + 1]? = some (.label label)) :
    Balanced commands start (blockStop + 2) 0 parts
      (blockExits true (blockStop + 2) home result) := by
  have opened : Balanced commands (start + 1) blockStop 0 parts
      ((Heights.just (blockStop + 1) 0).either (blockExits completes blockStop home result)) :=
    test.followed true around (fun _ _ leaves => leaves.imp (⟨rfl, ·⟩) .inl)
      fun _ _ _ leaves => .inr leaves
  have again : Balanced commands (start + 1) (blockStop + 1) 0 (parts ++ [])
      ((Heights.just (blockStop + 1) 0).either
        ((Heights.just start 0).either (.just home result))) := by
    refine opened.followed completes (balanced_goto back leads 0) ?_
      fun _ _ _ leaves => .inr (.inl leaves)
    rintro p h (toExit | ⟨holds, toGoto⟩ | toHome)
    · exact .inr (.inl toExit)
    · exact .inl ⟨holds, toGoto⟩
    · exact .inr (.inr (.inr toHome))
  have closed : Balanced commands (start + 1) (blockStop + 2) 0 (parts ++ [] ++ [])
      ((Heights.just start 0).either (blockExits true (blockStop + 2) home result)) :=
    again.followed true (balanced_label exit 0)
      (fun _ _ leaves => leaves.imp (⟨rfl, ·⟩) fun others => others.imp_right .inr)
      fun _ _ _ leaves => .inr (.inl ⟨rfl, leaves⟩)
  rw [List.append_nil, List.append_nil] at closed
  exact balanced_loop found closed

end Jack
