import Mathlib
import Jack.Proofs.Compiler.Language
import Jack.Proofs.Stack.Paths
import Jack.Proofs.Stack.Statement

namespace Jack

/-!
# The stack of compiled subroutines

On its way through the commands of a subroutine, control may come to the same place by many paths.
The height of the stack is the same on all of them, if the `return` statements agree with the result
type and no end without a `return` can be reached where there is a result.
-/

open Jumps

variable {options : Options} {c : ClassTree} {n : Nat} {s : Subroutine}

/-- The prologue leaves the stack as it finds it. -/
theorem Subroutine.prologue_turns (c : ClassTree) (s : Subroutine) : Turns (s.prologue c) 0 0 := by
  unfold Subroutine.prologue
  cases s.kind with
  | constructor =>
      exact .cons (Nat.zero_le _) (.cons (Nat.le_refl 1) (turns_singleton (Nat.le_refl 1)))
  | method => exact .cons (Nat.zero_le _) (turns_singleton (Nat.le_refl 1))
  | function => exact .nil 0

/-- What stands in front of the `return` command leaves one word, the result. -/
theorem Subroutine.closing_turns (s : Subroutine) : Turns s.closing (resultHeight s.isVoid) 1 := by
  unfold Subroutine.closing resultHeight
  cases s.isVoid with
  | true => exact turns_singleton (Nat.le_refl 0)
  | false => exact .nil 1

/-- What stands behind the statements, apart from the `return` command. -/
def Subroutine.finish (options : Options) (n : Nat) (s : Subroutine) : List Command :=
  (if s.labelled options then [.label (Code.endLabel n)] else []) ++ s.closing

/-- The label at the end, if it is set, makes no difference. -/
theorem Subroutine.finish_turns (options : Options) (n : Nat) (s : Subroutine) :
    Turns (s.finish options n) (resultHeight s.isVoid) 1 := by
  have label : Turns (if s.labelled options then [.label (Code.endLabel n)] else [])
      (resultHeight s.isVoid) (resultHeight s.isVoid) := by
    split
    · exact turns_singleton (Nat.zero_le _)
    · exact .nil _
  exact label.append s.closing_turns

/-- Control runs through the end of a subroutine from its label to the `return` command. -/
theorem Subroutine.finish_flows (options : Options) (n : Nat) (s : Subroutine) :
    (s.finish options n).all Command.flows = true := by
  rw [Subroutine.finish, List.all_append, all_flows_of_all_isStraight s.closing_straight,
    Bool.and_true]
  split <;> rfl

/-- The code of a subroutine, cut in front of its statements and behind them. -/
theorem Subroutine.code_eq_finish (options : Options) (c : ClassTree) (n : Nat) (s : Subroutine) :
    s.code options c n =
      (s.start c :: s.prologue c ++
        s.statements.code (c.namesIn s) (c.frame options n) options.foldTailReturn (n + 1)) ++
      (s.finish options n ++ [.«return»]) := by
  simp only [Subroutine.code_eq_inner, Subroutine.inner, Subroutine.finish, List.cons_append,
    List.append_assoc]

/-- The place of the first statement of a subroutine. -/
def Subroutine.firstPlace (c : ClassTree) (s : Subroutine) : Nat :=
  (s.start c :: s.prologue c).length

/-- The `let`, `if`, `while` and `do` statements of a subroutine, with their places. -/
def Subroutine.parts (options : Options) (c : ClassTree) (n : Nat) (s : Subroutine) : List Part :=
  s.statements.parts (c.namesIn s) (c.frame options n) options.foldTailReturn (n + 1)
    (s.firstPlace c)

/-- The place behind the statements of a subroutine. -/
def Subroutine.home (options : Options) (c : ClassTree) (n : Nat) (s : Subroutine) : Nat :=
  s.firstPlace c +
    (s.statements.code (c.namesIn s) (c.frame options n) options.foldTailReturn (n + 1)).length

/-- The three parts of the code stand one behind the other. -/
theorem Subroutine.code_stands (options : Options) (c : ClassTree) (n : Nat) (s : Subroutine) :
    Stands (s.code options c n) 0 (s.start c :: s.prologue c) ∧
      Stands (s.code options c n) (s.firstPlace c)
        (s.statements.code (c.namesIn s) (c.frame options n) options.foldTailReturn (n + 1)) ∧
      Stands (s.code options c n) (s.home options c n) (s.finish options n ++ [.«return»]) := by
  have stands : Stands (s.code options c n) 0 _ :=
    ⟨[], (s.code_eq_finish options c n).trans (List.append_nil _).symm⟩
  have statements := stands.left.right
  have finish := stands.right
  rw [Nat.zero_add] at statements
  rw [place_append, Nat.zero_add] at finish
  exact ⟨stands.left.left, statements, finish⟩

/-- The label that `return` statements need stands behind the statements. -/
theorem Subroutine.place?_endLabel (jumps : s.statements.jumps options.foldTailReturn = true) :
    place? (s.code options c n) (c.frame options n).endLabel = some (s.home options c n) := by
  have finish := (s.code_stands options c n).2.2
  rw [Subroutine.finish, Subroutine.labelled, jumps, Bool.true_or, if_pos rfl] at finish
  exact place?_of_stands (s.labelsOf_nodup options c n) finish

/-- All statements of a subroutine stand in its code. -/
theorem Subroutine.parts_standIn : ∀ part ∈ s.parts options c n,
    part.StandsIn (s.code options c n) (c.namesIn s) (c.frame options n) (s.home options c n) :=
  fun _ member => s.statements.parts_standIn (s.code_stands options c n).2.1 s.place?_endLabel
    (fun _ => rfl) member

/-- The `return` command is entered with one word, and nothing else is entered from the code in
front of it. -/
theorem Subroutine.balanced (options : Options) (n : Nat)
    (acceptable : s.statements.Acceptable (c.namesIn s))
    (returns : s.statements.ReturnsMatch s.isVoid)
    (noFall : s.isVoid = false → s.statements.completes = false) :
    Balanced (s.code options c n) 0 (s.home options c n + (s.finish options n).length) 0
      (s.parts options c n)
      (.just (s.home options c n + (s.finish options n).length) 1) := by
  rcases s.code_stands options c n with ⟨openingStands, statementsStand, finishStands⟩
  have openingFlows : (s.start c :: s.prologue c).all Command.flows = true := by
    rw [List.all_cons, all_flows_of_all_isStraight (s.prologue_straight c)]
    rfl
  have openingTurns : Turns (s.start c :: s.prologue c) 0 0 :=
    .cons (Nat.le_refl 0) (s.prologue_turns c)
  have opening := balanced_run openingStands openingFlows openingTurns.behind
  rw [Nat.zero_add] at opening
  have statements := s.statements.balanced (s.labelsOf_nodup options c n) acceptable returns
    statementsStand s.place?_endLabel (fun _ => rfl) (Nat.le_refl _)
  have finish := balanced_run finishStands.left (s.finish_flows options n)
    (s.finish_turns options n).behind
  -- The end of the statements and the jumps of `return` statements meet here.
  have closed : Balanced (s.code options c n) 0 (s.home options c n) 0 ([] ++ s.parts options c n)
      (.just (s.home options c n) (resultHeight s.isVoid)) := by
    refine opening.followed true statements (fun _ _ leaves => .inl ⟨rfl, leaves⟩) ?_
    rintro - p h (⟨completes, atHome⟩ | toHome)
    · cases isVoid : s.isVoid with
      | true => exact atHome
      | false =>
          rw [noFall isVoid] at completes
          cases completes
    · exact toHome
  have finished := closed.followed true finish (fun _ _ leaves => .inl ⟨rfl, leaves⟩)
    fun _ _ _ leaves => leaves
  rwa [List.nil_append, List.append_nil] at finished

/-- The code of a subroutine is a region without exits, where the `return` command finds one word.
Nothing is said of what the word is. -/
theorem Subroutine.exists_region (options : Options) (n : Nat)
    (acceptable : s.statements.Acceptable (c.namesIn s))
    (returns : s.statements.ReturnsMatch s.isVoid)
    (noFall : s.isVoid = false → s.statements.completes = false) :
    ∃ heights, Region (s.code options c n) 0 (s.code options c n).length (s.parts options c n)
        heights (fun _ _ => False) ∧
      heights 0 0 ∧
      ∀ {place height : Nat}, place + 1 = (s.code options c n).length → heights place height →
        height = 1 := by
  rcases s.balanced options n acceptable returns noFall with ⟨heights, region, enters⟩
  have last : Region (s.code options c n) (s.home options c n + (s.finish options n).length)
      (s.home options c n + (s.finish options n).length + 1) []
      (.just (s.home options c n + (s.finish options n).length) 1) (fun _ _ => False) :=
    .single (s.code_stands options c n).2.2.right.current (Nat.le_refl 1) fun _ leads => leads
  have whole : Region (s.code options c n) 0
      (s.home options c n + (s.finish options n).length + 1) (s.parts options c n ++ [])
      (heights.either (.just (s.home options c n + (s.finish options n).length) 1))
      (fun _ _ => False) :=
    region.join last (fun _ _ leaves => .inl leaves) fun _ _ leaves => leaves.elim
  have length : (s.code options c n).length =
      s.home options c n + (s.finish options n).length + 1 := by
    rw [s.code_eq_finish, List.length_append, List.length_append, List.length_append]
    rfl
  rw [List.append_nil, ← length] at whole
  refine ⟨_, whole, enters, ?_⟩
  rintro place height isLast (entered | atReturn)
  · have bound := (region.within entered).2
    omega
  · exact atReturn.2

/-- How the stack behaves on all paths through the commands of a subroutine. -/
structure Subroutine.StackDiscipline (options : Options) (c : ClassTree) (n : Nat) (s : Subroutine) :
    Prop where
  /-- No path runs off the commands. -/
  inside : ∀ {place : Nat} {height : Int}, Arrives (s.code options c n) place height →
    place < (s.code options c n).length
  /-- All paths to a command agree. -/
  agree : ∀ {place : Nat} {height height' : Int}, Arrives (s.code options c n) place height →
    Arrives (s.code options c n) place height' → height = height'
  /-- There are as many words as a command removes. -/
  enough : ∀ {place : Nat} {height : Int} {command : Command},
    Arrives (s.code options c n) place height → (s.code options c n)[place]? = some command →
    command.removes ≤ height
  /-- The parts stand where they say. -/
  located : ∀ part ∈ s.parts options c n, part.StandsIn (s.code options c n) (c.namesIn s)
    (c.frame options n) (s.home options c n)
  /-- The stack is empty in front of statements and behind those that complete. -/
  settled : ∀ part ∈ s.parts options c n, ∀ {height : Int},
    Arrives (s.code options c n) part.start height →
    height = 0 ∧
      ((∃ words, (part.statement.execute words).ending = .done) →
        Arrives (s.code options c n) part.stop 0 ∧
        ∀ {height' : Int}, Arrives (s.code options c n) part.stop height' → height' = 0)
  /-- One word is returned. -/
  returns : ∀ {place : Nat} {height : Int}, Arrives (s.code options c n) place height →
    (s.code options c n)[place]? = some .«return» → height = 1

/-- Under the two conditions on `return` statements, the heights of the stack agree on all paths
through the subroutine. -/
theorem Subroutine.stackDiscipline (acceptable : s.statements.Acceptable (c.namesIn s))
    (returns : s.statements.ReturnsMatch s.isVoid)
    (noFall : s.isVoid = false → ∀ words, (s.statements.execute words).ending ≠ .done) :
    s.StackDiscipline options c n := by
  have incomplete : s.isVoid = false → s.statements.completes = false := by
    intro hasResult
    rw [Bool.eq_false_iff]
    intro completes
    rcases s.statements.completes_iff.mp completes with ⟨words, done⟩
    exact noFall hasResult words done
  rcases s.exists_region options n acceptable returns incomplete with
    ⟨heights, region, entered, atReturn⟩
  have met {place : Nat} {height : Int} (arrives : Arrives (s.code options c n) place height) :=
    arrives.exists_height region entered
  have agree {place : Nat} {height height' : Int}
      (arrives : Arrives (s.code options c n) place height)
      (arrives' : Arrives (s.code options c n) place height') : height = height' := by
    rcases met arrives with ⟨k, rfl, there⟩
    rcases met arrives' with ⟨k', rfl, there'⟩
    rw [region.unique there there']
  refine ⟨fun arrives => ?_, agree, fun arrives found => ?_, Subroutine.parts_standIn,
    fun part member height arrives => ?_, fun arrives found => ?_⟩
  · rcases met arrives with ⟨k, rfl, there⟩
    exact (region.within there).2
  · rcases met arrives with ⟨k, rfl, there⟩
    exact Int.ofNat_le.mpr (region.enough there found)
  · rcases met arrives with ⟨k, rfl, there⟩
    have settled := region.settled part member k there
    refine ⟨congrArg Int.ofNat settled.1, fun done => ?_⟩
    have empty := (settled.2 (part.statement.completes_iff.mpr done)).resolve_right id
    have only {height' : Int} (arrives' : Arrives (s.code options c n) part.stop height') :
        height' = 0 := by
      rcases met arrives' with ⟨k', rfl, there'⟩
      exact congrArg Int.ofNat (region.unique there' empty)
    have standsIn := Subroutine.parts_standIn part member
    rcases standsIn.exists_arrives (s.labelsOf_nodup options c n) done arrives with
      ⟨height', atStop⟩
    have zero := only atStop
    rw [zero] at atStop
    exact ⟨atStop, only⟩
  · rcases met arrives with ⟨k, rfl, there⟩
    exact congrArg Int.ofNat (atReturn (s.return_last found) there)

/-- The listing of a compiled class consists of the code of its subroutines.  All paths through the
code of a subroutine agree on the stack, if the `return` statements agree with the result type and
no execution ends without a `return` where there is a result. -/
theorem compileClass_stackDiscipline {options : Options} {source : List Char} {listing : Listing}
    (compiled : (compileClass options source).result = .ok listing) :
    ∃ c : ClassTree, Lexes source c.lexemes ∧ (∀ c', Lexes source c'.lexemes → c' = c) ∧
      listing.toList = c.numbered.flatMap (fun block => block.2.code options c block.1) ∧
      ∀ n s, (n, s) ∈ c.numbered → s.statements.ReturnsMatch s.isVoid →
        (s.isVoid = false → ∀ words, (s.statements.execute words).ending ≠ .done) →
        s.StackDiscipline options c n := by
  rcases compileClass_eq_ok_iff.mp compiled with ⟨c, lexes, acceptable, code⟩
  refine ⟨c, lexes, fun c' lexes' => lexes.tree_unique lexes', ?_,
    fun n s member returns noFall => ?_⟩
  · rw [code, c.code_eq_flatMap]
  · exact Subroutine.stackDiscipline (acceptable.2 s (ClassTree.mem_of_numbered member)).2 returns
      noFall

/-- A function that may return from a branch in a loop. -/
def returnInLoop : Subroutine :=
  ⟨.function, some .int, "f", [], [],
    .cons (.whileLoop (.chain (.integer "1") .nil)
        (.cons (.ifThen (.chain (.integer "2") .nil)
          (.cons (.returnValue (some (.chain (.integer "3") .nil))) .nil)) .nil))
      (.cons (.returnValue (some (.chain (.integer "4") .nil))) .nil)⟩

/-- Through the branch and around it, paths come to the `return` command with one word, and the loop
is entered again with an empty stack. -/
theorem compileClass_stackDiscipline_returnInLoop :
    ∃ listing : Listing,
      (compileClass {}
          "class A{function int f(){while(1){if(2){return 3;}}return 4;}}".toList).result =
        .ok listing ∧
      listing.toList =
        [.function "A.f" 0, .label "WHILE_EXP1", .push .constant 1, .arithmetic .not,
          .ifGoto "WHILE_END1", .push .constant 2, .arithmetic .not, .ifGoto "IF_FALSE2",
          .push .constant 3, .goto "RETURN0", .label "IF_FALSE2", .goto "WHILE_EXP1",
          .label "WHILE_END1", .push .constant 4, .label "RETURN0", .«return»] ∧
      returnInLoop.StackDiscipline {} ⟨"A", [], [returnInLoop]⟩ 0 ∧
      ∀ height, Arrives listing.toList 15 height → height = 1 := by
  have compiled := compileClass_of_emitted {}
    "class A{function int f(){while(1){if(2){return 3;}}return 4;}}".toList (by cbv)
  have lexes : Lexes "class A{function int f(){while(1){if(2){return 3;}}return 4;}}".toList
      (ClassTree.mk "A" [] [returnInLoop]).lexemes := lexes_of_items (by cbv)
  have noFall : ∀ words, (returnInLoop.statements.execute words).ending ≠ .done := by
    intro words done
    cases returnInLoop.statements.completes_of_done done
  rcases compileClass_stackDiscipline compiled with ⟨c, -, unique, code, subroutines⟩
  cases unique _ lexes
  have discipline := subroutines 0 returnInLoop (List.mem_singleton.mpr rfl)
    ⟨⟨⟨rfl, trivial⟩, trivial⟩, rfl, trivial⟩ fun _ => noFall
  refine ⟨_, compiled, rfl, discipline, fun height arrives => ?_⟩
  rw [code] at arrives
  exact discipline.returns arrives rfl

end Jack
