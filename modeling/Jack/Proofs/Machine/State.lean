import Jack.Machine.Command

namespace Jack

/-!
# The stack machine

What commands do to the words of the machine.  A routine that is called takes its arguments from the
stack and leaves one result there.  It may do anything to the memory, which includes the variables
of its caller, and to a hidden world; it keeps what lies below its arguments on the stack, and the
two pointers.

Jumps need to know where commands stand.  Here only commands that run straight through are executed.
-/

/-- The words of the machine. -/
abbrev Word := UInt16

/-- The word of ones stands for truth, zero for falsehood. -/
def truth (b : Bool) : Word := if b then -1 else 0

/-- What a routine may change. -/
structure Memory (World : Type) where
  heap : Word → Word
  statics : Word → Word
  arguments : Word → Word
  locals : Word → Word
  temps : Word → Word
  /-- Whatever else the results of routines depend on. -/
  world : World

/-- The state of a machine while a subroutine runs. -/
structure Machine (World : Type) where
  /-- The topmost word comes first. -/
  stack : List Word
  memory : Memory World
  this : Word
  that : Word

/-- What routines do: their name and their arguments, the first one first, lead to a result and to
another memory. -/
abbrev Routines (World : Type) :=
  String → List Word → Memory World → Word × Memory World

/-- The words that replace the topmost words of a stack. -/
def Operation.result? : Operation → List Word → Option (List Word)
  | add, y :: x :: rest => some ((x + y) :: rest)
  | sub, y :: x :: rest => some ((x - y) :: rest)
  | neg, x :: rest => some (-x :: rest)
  | eq, y :: x :: rest => some (truth (x = y) :: rest)
  | gt, y :: x :: rest => some (truth (x.toInt16 > y.toInt16) :: rest)
  | lt, y :: x :: rest => some (truth (x.toInt16 < y.toInt16) :: rest)
  | and, y :: x :: rest => some ((x &&& y) :: rest)
  | or, y :: x :: rest => some ((x ||| y) :: rest)
  | not, x :: rest => some (~~~x :: rest)
  | _, _ => none

namespace Machine

variable {World : Type}

/-- The word at an index of a segment. -/
def read? (m : Machine World) (segment : Segment) (index : Word) : Option Word :=
  match segment with
  | .constant => some index
  | .argument => some (m.memory.arguments index)
  | .«local» => some (m.memory.locals index)
  | .static => some (m.memory.statics index)
  | .this => some (m.memory.heap (m.this + index))
  | .that => some (m.memory.heap (m.that + index))
  | .pointer => if index = 0 then some m.this else if index = 1 then some m.that else none
  | .temp => some (m.memory.temps index)

/-- The function with another value at one word. -/
def update (f : Word → Word) (index value : Word) : Word → Word :=
  fun i => if i = index then value else f i

/-- The machine with another word at an index of a segment. -/
def write? (m : Machine World) (segment : Segment) (index value : Word) :
    Option (Machine World) :=
  match segment with
  | .constant => none
  | .argument =>
    some { m with memory.arguments := update m.memory.arguments index value }
  | .«local» => some { m with memory.locals := update m.memory.locals index value }
  | .static => some { m with memory.statics := update m.memory.statics index value }
  | .this => some { m with memory.heap := update m.memory.heap (m.this + index) value }
  | .that => some { m with memory.heap := update m.memory.heap (m.that + index) value }
  | .pointer =>
    if index = 0 then some { m with this := value }
    else if index = 1 then some { m with that := value }
    else none
  | .temp => some { m with memory.temps := update m.memory.temps index value }

/-- Execute one command.  A command that is not followed by the next one, or whose words are not
there, is not executed. -/
def execute? (routines : Routines World) : Command → Machine World → Option (Machine World)
  | .push segment index, m =>
    (m.read? segment index).map fun value => { m with stack := value :: m.stack }
  | .pop segment index, m =>
    match m.stack with
    | value :: rest => { m with stack := rest }.write? segment index value
    | [] => none
  | .arithmetic operation, m =>
    (operation.result? m.stack).map fun stack => { m with stack := stack }
  | .call name arguments, m =>
    if arguments.toNat ≤ m.stack.length then
      let result := routines name (m.stack.take arguments.toNat).reverse m.memory
      some { m with
        stack := result.1 :: m.stack.drop arguments.toNat
        memory := result.2 }
    else none
  | _, _ => none

/-- Execute commands one behind the other. -/
def run? (routines : Routines World) : List Command → Machine World → Option (Machine World)
  | [], m => some m
  | c :: rest, m => (execute? routines c m).bind (run? routines rest)

variable {routines : Routines World}

/-- Running code behind other code. -/
theorem run?_append (first second : List Command) (m : Machine World) :
    run? routines (first ++ second) m = (run? routines first m).bind (run? routines second) := by
  induction first generalizing m with
  | nil => rfl
  | cons c rest inductionHypothesis =>
      rw [List.cons_append, run?, run?, Option.bind_assoc]
      congr 1
      funext next
      exact inductionHypothesis next

/-- A call takes its arguments, which have been pushed one behind the other, and leaves the result.
-/
theorem execute?_call (routines : Routines World) (name : String) (arguments stack : List Word)
    (memory : Memory World) (this that : Word) (few : arguments.length ≤ 65535) :
    execute? routines (.call name (UInt16.ofNat arguments.length))
        ⟨arguments.reverse ++ stack, memory, this, that⟩ =
      some ⟨(routines name arguments memory).1 :: stack, (routines name arguments memory).2, this,
        that⟩ := by
  have count : (UInt16.ofNat arguments.length).toNat = arguments.reverse.length := by
    rw [List.length_reverse, UInt16.toNat_ofNat_of_lt' (Nat.lt_succ_of_le few)]
  have enough : (UInt16.ofNat arguments.length).toNat ≤ (arguments.reverse ++ stack).length := by
    rw [count, List.length_append]
    exact Nat.le_add_right _ _
  simp only [execute?, if_pos enough]
  rw [count, List.take_left, List.drop_left, List.reverse_reverse]

/-- Running the commands ends with given words on the stack and a given memory, and leaves the
pointer to the current object alone.  The other pointer serves the access to arrays. -/
def Reaches (routines : Routines World) (commands : List Command) (m : Machine World)
    (stack : List Word) (memory : Memory World) : Prop :=
  ∃ that, run? routines commands m = some ⟨stack, memory, m.this, that⟩

variable {commands first second : List Command} {m : Machine World} {stack stack' : List Word}
  {memory memory' : Memory World}

/-- The second code has to go well for any base of arrays, since the first one may leave any. -/
theorem Reaches.append (reaches : Reaches routines first m stack memory)
    (behind : ∀ that, Reaches routines second ⟨stack, memory, m.this, that⟩ stack' memory') :
    Reaches routines (first ++ second) m stack' memory' := by
  rcases reaches with ⟨that, run⟩
  rcases behind that with ⟨that', run'⟩
  refine ⟨that', ?_⟩
  rw [run?_append, run, Option.bind_some, run']

theorem reaches_singleton {c : Command} (that : Word)
    (executed : execute? routines c m = some ⟨stack, memory, m.this, that⟩) :
    Reaches routines [c] m stack memory := by
  refine ⟨that, ?_⟩
  rw [run?, executed, Option.bind_some, run?]

end Machine

end Jack
