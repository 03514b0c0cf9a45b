import Jack.Proofs.Translation.Labels

namespace Jack

/-!
# Pieces of code

Which commands the code of statements is made of.  A property of commands that every piece has is a
property of all commands of the code, so it needs no walk through the trees of its own.  A piece
refers to the source by the lexemes that it comes from: the digits of an integer, the text of a
string and the names in front of the arguments of a call.
-/

/-- The commands that statements are made of whose lexemes have the property `occurs`. -/
inductive CodePiece (names : Names) (f : Frame) (occurs : Lexeme → Prop) : Command → Prop
  | integer {digits : String} (isThere : occurs (.integer digits)) :
    CodePiece names f occurs (.push .constant (UInt16.ofNat (Token.decimal digits.toList)))
  | string {text : String} {command : Command} (fits : FitsMachine (charactersBetweenQuotes text))
    (member : command ∈ stringCommands (charactersBetweenQuotes text)) :
    CodePiece names f occurs command
  | constant {k : KeywordConstant} {command : Command} (member : command ∈ k.commands) :
    CodePiece names f occurs command
  | unary (o : UnaryOperator) : CodePiece names f occurs o.command
  | binary (o : BinaryOperator) : CodePiece names f occurs o.command
  | read {name : String} {v : Symbol} (found : names name = some v) :
    CodePiece names f occurs (.push v.kind.segment v.index)
  | write {name : String} {v : Symbol} (found : names name = some v) :
    CodePiece names f occurs (.pop v.kind.segment v.index)
  | address : CodePiece names f occurs (.arithmetic .add)
  | load {command : Command} (member : command ∈ loadCommands) : CodePiece names f occurs command
  | store {command : Command} (member : command ∈ storeCommands) :
    CodePiece names f occurs command
  | object : CodePiece names f occurs (.push .pointer 0)
  | call {target : CallTarget} (areThere : ∀ l ∈ target.lexemes, occurs l) (arguments : UInt16) :
    CodePiece names f occurs (.call (target.routine names f.className) arguments)
  | discard : CodePiece names f occurs (.pop .temp 0)
  | condition : CodePiece names f occurs (.arithmetic .not)
  | label (l : LabelName) : CodePiece names f occurs (.label l.text)
  | goto (l : LabelName) : CodePiece names f occurs (.goto l.text)
  | ifGoto (l : LabelName) : CodePiece names f occurs (.ifGoto l.text)
  | finish : CodePiece names f occurs (.goto f.endLabel)

variable {names : Names} {f : Frame} {occurs : Lexeme → Prop}

/-- Reading a variable makes a command of that variable. -/
theorem pushName_pieces (name : String) :
    ∀ command ∈ pushName names name, CodePiece names f occurs command := by
  unfold pushName
  split
  next v found => exact List.forall_mem_singleton.mpr (.read found)
  next => exact List.forall_mem_nil _

theorem popName_pieces (name : String) :
    ∀ command ∈ popName names name, CodePiece names f occurs command := by
  unfold popName
  split
  next v found => exact List.forall_mem_singleton.mpr (.write found)
  next => exact List.forall_mem_nil _

theorem CallTarget.receiver_pieces (target : CallTarget) :
    ∀ command ∈ target.receiver names, CodePiece names f occurs command := by
  cases target with
  | own name => exact List.forall_mem_singleton.mpr .object
  | qualified object member => exact pushName_pieces object

/-! ## Expressions -/

/-- Arguments have the same lexemes behind another argument, and a comma. -/
theorem Arguments.mem_behind {listed : Arguments} {l : Lexeme} (member : l ∈ listed.lexemes) :
    l ∈ listed.behind := by
  cases listed with
  | nil => exact member
  | cons first rest => exact List.mem_cons_of_mem _ member

mutual

/-- Every command of an expression comes from one of its lexemes or belongs to its form. -/
theorem Expression.code_pieces (e : Expression) (areThere : ∀ l ∈ e.lexemes, occurs l)
    (acceptable : e.Acceptable names) :
    ∀ command ∈ e.code names f.className, CodePiece names f occurs command := by
  cases e with
  | chain first rest =>
      simp only [Expression.lexemes, List.forall_mem_append] at areThere
      exact List.forall_mem_append.mpr
        ⟨first.code_pieces areThere.1 acceptable.1, rest.code_pieces areThere.2 acceptable.2⟩

/-- The same of the operators behind a term. -/
theorem Operators.code_pieces (operators : Operators)
    (areThere : ∀ l ∈ operators.lexemes, occurs l) (acceptable : operators.Acceptable names) :
    ∀ command ∈ operators.code names f.className, CodePiece names f occurs command := by
  cases operators with
  | nil => exact List.forall_mem_nil _
  | cons o operand rest =>
      simp only [Operators.lexemes, List.forall_mem_cons, List.forall_mem_append] at areThere
      exact List.forall_mem_append.mpr ⟨operand.code_pieces areThere.2.1 acceptable.1,
        List.forall_mem_cons.mpr ⟨.binary o, rest.code_pieces areThere.2.2 acceptable.2⟩⟩

/-- The same of a term. -/
theorem Term.code_pieces (t : Term) (areThere : ∀ l ∈ t.lexemes, occurs l)
    (acceptable : t.Acceptable names) :
    ∀ command ∈ t.code names f.className, CodePiece names f occurs command := by
  cases t with
  | integer digits =>
      exact List.forall_mem_singleton.mpr
        (.integer (areThere (.integer digits) List.mem_cons_self))
  | string text => exact fun command member => .string acceptable member
  | constant k => exact fun command member => .constant member
  | unary o operand =>
      simp only [Term.lexemes, List.forall_mem_cons] at areThere
      exact List.forall_mem_append.mpr ⟨operand.code_pieces areThere.2 acceptable,
        List.forall_mem_singleton.mpr (.unary o)⟩
  | parenthesis inner =>
      simp only [Term.lexemes, List.forall_mem_cons, List.forall_mem_append] at areThere
      exact inner.code_pieces areThere.2.1 acceptable
  | plain name => exact pushName_pieces name
  | element array index =>
      simp only [Term.lexemes, List.forall_mem_cons, List.forall_mem_append] at areThere
      exact List.forall_mem_append.mpr
        ⟨List.forall_mem_append.mpr
          ⟨pushName_pieces array, index.code_pieces areThere.2.2.1 acceptable.2⟩,
        List.forall_mem_cons.mpr ⟨.address, fun command member => .load member⟩⟩
  | call c => exact c.code_pieces areThere acceptable

/-- The same of a call. -/
theorem Call.code_pieces (c : Call) (areThere : ∀ l ∈ c.lexemes, occurs l)
    (acceptable : c.Acceptable names) :
    ∀ command ∈ c.code names f.className, CodePiece names f occurs command := by
  cases c with
  | invoke target listed =>
      simp only [Call.lexemes, List.forall_mem_cons, List.forall_mem_append] at areThere
      exact List.forall_mem_append.mpr
        ⟨List.forall_mem_append.mpr
          ⟨target.receiver_pieces, listed.code_pieces areThere.2.2.1 acceptable.2⟩,
        List.forall_mem_singleton.mpr (.call areThere.1 _)⟩

/-- The same of arguments. -/
theorem Arguments.code_pieces (listed : Arguments) (areThere : ∀ l ∈ listed.lexemes, occurs l)
    (acceptable : listed.Acceptable names) :
    ∀ command ∈ listed.code names f.className, CodePiece names f occurs command := by
  cases listed with
  | nil => exact List.forall_mem_nil _
  | cons first rest =>
      simp only [Arguments.lexemes, List.forall_mem_append] at areThere
      exact List.forall_mem_append.mpr ⟨first.code_pieces areThere.1 acceptable.1,
        rest.code_pieces (fun l member => areThere.2 l (Arguments.mem_behind member))
          acceptable.2⟩

end

/-! ## Statements -/

mutual

/-- Every command of a statement comes from one of its lexemes, sets a label, or is a jump. -/
theorem Statement.code_pieces (s : Statement) (tail : Bool) (n : Nat)
    (areThere : ∀ l ∈ s.lexemes, occurs l) (acceptable : s.Acceptable names) :
    ∀ command ∈ s.code names f tail n, CodePiece names f occurs command := by
  cases s with
  | letVariable target value =>
      simp only [Statement.lexemes, List.forall_mem_cons, List.forall_mem_append] at areThere
      exact List.forall_mem_append.mpr
        ⟨value.code_pieces areThere.2.2.2.1 acceptable.2, popName_pieces target⟩
  | letElement array index value =>
      simp only [Statement.lexemes, List.forall_mem_cons, List.forall_mem_append] at areThere
      rcases areThere with ⟨-, -, -, inIndex, -, -, inValue, -⟩
      simp only [Statement.code, List.forall_mem_append, List.forall_mem_cons]
      exact ⟨⟨⟨pushName_pieces array, index.code_pieces inIndex acceptable.2.1⟩, .address,
        value.code_pieces inValue acceptable.2.2⟩, fun command member => .store member⟩
  | ifThen condition thenBlock =>
      simp only [Statement.lexemes, braced, List.forall_mem_cons, List.forall_mem_append]
        at areThere
      rcases areThere with ⟨-, -, inCondition, -, -, inBlock, -⟩
      simp only [Statement.code, List.forall_mem_append, List.forall_mem_cons]
      exact ⟨⟨⟨condition.code_pieces inCondition acceptable.1, .condition, .ifGoto ⟨.ifFalse, n⟩,
        List.forall_mem_nil _⟩, thenBlock.code_pieces false (n + 1) inBlock acceptable.2⟩,
        .label ⟨.ifFalse, n⟩, List.forall_mem_nil _⟩
  | ifElse condition thenBlock elseBlock =>
      simp only [Statement.lexemes, braced, List.forall_mem_cons, List.forall_mem_append]
        at areThere
      rcases areThere with ⟨-, -, inCondition, -, ⟨-, inThen, -⟩, -, -, inElse, -⟩
      simp only [Statement.code, List.forall_mem_append, List.forall_mem_cons]
      exact ⟨⟨⟨⟨⟨condition.code_pieces inCondition acceptable.1, .condition,
        .ifGoto ⟨.ifFalse, n⟩, List.forall_mem_nil _⟩,
        thenBlock.code_pieces false (n + 1) inThen acceptable.2.1⟩,
        .goto ⟨.ifEnd, n⟩, .label ⟨.ifFalse, n⟩, List.forall_mem_nil _⟩,
        elseBlock.code_pieces false _ inElse acceptable.2.2⟩,
        .label ⟨.ifEnd, n⟩, List.forall_mem_nil _⟩
  | whileLoop condition block =>
      simp only [Statement.lexemes, braced, List.forall_mem_cons, List.forall_mem_append]
        at areThere
      rcases areThere with ⟨-, -, inCondition, -, -, inBlock, -⟩
      simp only [Statement.code, List.forall_mem_append, List.forall_mem_cons, List.cons_append]
      exact ⟨.label ⟨.whileStart, n⟩, ⟨⟨condition.code_pieces inCondition acceptable.1, .condition,
        .ifGoto ⟨.whileEnd, n⟩, List.forall_mem_nil _⟩,
        block.code_pieces false (n + 1) inBlock acceptable.2⟩,
        .goto ⟨.whileStart, n⟩, .label ⟨.whileEnd, n⟩, List.forall_mem_nil _⟩
  | doCall c =>
      simp only [Statement.lexemes, List.forall_mem_cons, List.forall_mem_append] at areThere
      exact List.forall_mem_append.mpr
        ⟨c.code_pieces areThere.2.1 acceptable, List.forall_mem_singleton.mpr .discard⟩
  | returnValue value =>
      have jump : ∀ command ∈ (if tail then [] else [Command.goto f.endLabel]),
          CodePiece names f occurs command := by
        split
        · exact List.forall_mem_nil _
        · exact List.forall_mem_singleton.mpr .finish
      cases value with
      | none => exact jump
      | some e =>
          simp only [Statement.lexemes, List.forall_mem_cons, List.forall_mem_append] at areThere
          exact List.forall_mem_append.mpr ⟨e.code_pieces areThere.2.1 acceptable, jump⟩

/-- The code of acceptable statements consists of pieces. -/
theorem Statements.code_pieces (statements : Statements) (tail : Bool) (n : Nat)
    (areThere : ∀ l ∈ statements.lexemes, occurs l) (acceptable : statements.Acceptable names) :
    ∀ command ∈ statements.code names f tail n, CodePiece names f occurs command := by
  cases statements with
  | nil => exact List.forall_mem_nil _
  | cons first rest =>
      simp only [Statements.lexemes, List.forall_mem_append] at areThere
      exact List.forall_mem_append.mpr ⟨first.code_pieces _ n areThere.1 acceptable.1,
        rest.code_pieces tail _ areThere.2 acceptable.2⟩

end

end Jack
