import Jack.Proofs.Translation.Code

namespace Jack

/-!
# Structured control flow

How statements are executed by their structure, without labels and jumps.  A condition leaves a word
that nobody controls: the words are taken one after the other from a list, and the execution stops
at the first condition for which there is none.  So a list that is long enough follows an execution
as far as one likes, also one that never ends.

What an execution visits are pieces of the source: conditions, `let` and `do` statements, and the
values of `return` statements.
-/

/-- The word that a condition leaves if it holds. -/
def allOnes : UInt16 := -1

/-- A piece of the source whose code runs straight through. -/
inductive Piece
  | condition (e : Expression)
  | letVariable (target : String) (value : Expression)
  | letElement (array : String) (index value : Expression)
  | doCall (c : Call)
  /-- The value of a `return` statement. -/
  | result (e : Expression)

/-- The code of a piece.  Behind a condition the word that it leaves is complemented. -/
def Piece.code (names : Names) (className : String) : Piece → List Command
  | condition e => e.code names className ++ [.arithmetic .not]
  | letVariable target value => value.code names className ++ popName names target
  | letElement array index value =>
    pushName names array ++ index.code names className ++ .arithmetic .add ::
      value.code names className ++ storeCommands
  | doCall c => c.code names className ++ [.pop .temp 0]
  | result e => e.code names className

/-- How an execution ends. -/
inductive Ending
  | done
  /-- A `return` statement has ended it. -/
  | returned
  /-- There is no word for the condition that has been visited last. -/
  | waits
deriving DecidableEq

/-- What an execution does: what it visits, how it ends, and how many words it takes. -/
structure Execution where
  visits : List Piece
  ending : Ending
  used : Nat

namespace Execution

/-- Nothing is done. -/
def skip : Execution := ⟨[], .done, 0⟩

/-- One piece is visited. -/
def visit (piece : Piece) : Execution := ⟨[piece], .done, 0⟩

/-- A condition is visited and takes a word. -/
def test (condition : Expression) : Execution := ⟨[.condition condition], .done, 1⟩

/-- A condition is visited, but there is no word for it. -/
def wait (condition : Expression) : Execution := ⟨[.condition condition], .waits, 0⟩

/-- An execution is followed by another one, unless it has ended otherwise. -/
def andThen (first second : Execution) : Execution :=
  match first.ending with
  | .done => ⟨first.visits ++ second.visits, second.ending, first.used + second.used⟩
  | _ => first

/-- A condition decides between two executions. -/
def branch (condition : Expression) (holds fails : List UInt16 → Execution) :
    List UInt16 → Execution
  | [] => wait condition
  | word :: rest => (test condition).andThen (if word = allOnes then holds rest else fails rest)

/-- A body is executed as long as a condition holds. -/
def loop (condition : Expression) (body : List UInt16 → Execution) : List UInt16 → Execution
  | [] => wait condition
  | word :: rest =>
    if word = allOnes then
      (test condition).andThen
        ((body rest).andThen (loop condition body (rest.drop (body rest).used)))
    else test condition
termination_by words => words.length
decreasing_by
  rw [List.length_drop, List.length_cons]
  exact Nat.lt_succ_of_le (Nat.sub_le _ _)

end Execution

mutual

/-- Execute a statement when the conditions leave given words. -/
def Statement.execute : Statement → List UInt16 → Execution
  | .letVariable target value, _ => .visit (.letVariable target value)
  | .letElement array index value, _ => .visit (.letElement array index value)
  | .ifThen condition thenBlock, words =>
    .branch condition thenBlock.execute (fun _ => .skip) words
  | .ifElse condition thenBlock elseBlock, words =>
    .branch condition thenBlock.execute elseBlock.execute words
  | .whileLoop condition block, words => .loop condition block.execute words
  | .doCall c, _ => .visit (.doCall c)
  | .returnValue none, _ => ⟨[], .returned, 0⟩
  | .returnValue (some value), _ => ⟨[.result value], .returned, 0⟩

/-- Execute statements one behind the other. -/
def Statements.execute : Statements → List UInt16 → Execution
  | .nil, _ => .skip
  | .cons first rest, words =>
    (first.execute words).andThen (rest.execute (words.drop (first.execute words).used))

end

end Jack
