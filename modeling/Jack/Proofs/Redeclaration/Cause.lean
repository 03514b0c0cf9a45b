import Jack.Proofs.Redeclaration.Scan

namespace Jack

/-!
# Causes of errors

Every error has its cause at one item of the source, and the items around it tell what is wrong
there.  A lexical error is that item itself, and a syntax error is about a token of the source.  An
error about a name points at an identifier with this name: it is used as a variable where nothing in
sight declares it, or it is declared where its kind has no number left or where its scope has a
declaration of the name already.  What is in sight is told by a scan of the tokens in front.
-/

/-- A term may stand behind a token of this kind. -/
def TokenKind.opensTerm : TokenKind → Bool
  | .symbol .leftParen | .symbol .leftBracket | .symbol .comma | .symbol .tilde => true
  | .keyword .«return» => true
  | k => k.isBinaryOperator

/-- A name between the given tokens and items is used as a variable.  Where a term may stand, a
parenthesis or a dot behind the name would make it a part of a call. -/
inductive VariableUse (before : List Token) (behind : List Item) : Prop
  /-- The name is the target of a `let` statement. -/
  | target {front : List Token} {word : Token} (last : before = front ++ [word])
    (isLet : word.kind = .keyword .«let»)
  /-- The name is the array of an element. -/
  | array {front : List Token} {opener bracket : Token} {rest : List Item}
    (last : before = front ++ [opener]) (opens : opener.kind.opensTerm = true)
    (next : behind = .ok bracket :: rest) (isBracket : bracket.kind = .symbol .leftBracket)
  /-- The name is a term. -/
  | term {front : List Token} {opener follower : Token} {rest : List Item}
    (last : before = front ++ [opener]) (opens : opener.kind.opensTerm = true)
    (next : behind = .ok follower :: rest)
    (ends : follower.kind ∉ [.symbol .leftBracket, .symbol .leftParen, .symbol .dot])

/-- The cause of an error is the item between the given tokens and items. -/
inductive CompileError.IsCausedBy (before : List Token) : Item → List Item → CompileError → Prop
  | lexical {behind : List Item} (e : LexError) :
    IsCausedBy before (.error e) behind (.token (.lexical e))
  /-- No integer constant is ever missed: one of them is as good as any other term. -/
  | syntactic {behind : List Item} {e : SyntaxError}
    (notNumber : e.expected ≠ "integer constant") :
    IsCausedBy before (.ok e.token) behind (.token (.syntactic e))
  | unresolved {behind : List Item} {t : Token} (isName : t.kind = .identifier)
    (outside : (scan before).part = .elsewhere) (use : VariableUse before behind)
    (undeclared : ∀ kind, t.text ∉ ((scan before).declared.scope kind).map Declaration.name) :
    IsCausedBy before (.ok t) behind (.symbol (.unresolved t.text) t.start)
  | tooMany {behind : List Item} {t : Token} {kind : SymbolKind} {type : String}
    (isName : t.kind = .identifier) (declares : (scan before).part = .name kind type)
    (full : countKind kind ((scan before).declared.scope kind) = 65535) :
    IsCausedBy before (.ok t) behind (.symbol (.tooMany t.text) t.start)
  | redeclared {behind : List Item} {t : Token} {kind : SymbolKind} {type : String}
    (isName : t.kind = .identifier) (declares : (scan before).part = .name kind type)
    (again : t.text ∈ ((scan before).declared.scope kind).map Declaration.name) :
    IsCausedBy before (.ok t) behind (.redeclared t.text t.start)

/-- An error is located at its cause. -/
theorem CompileError.IsCausedBy.isAt {before : List Token} {item : Item} {behind : List Item}
    {e : CompileError} (cause : e.IsCausedBy before item behind) : e.IsAt item := by
  cases cause with
  | lexical e => exact rfl
  | syntactic notNumber => exact rfl
  | @unresolved _ t isName outside use undeclared => exact ⟨t, rfl, rfl⟩
  | @tooMany _ t _ _ isName declares full => exact ⟨t, rfl, rfl⟩
  | @redeclared _ t _ _ isName declares again => exact ⟨t, rfl, rfl⟩

/-- The error has its cause in the source, behind tokens with the given redeclarations. -/
def CompileError.ArisesBehind (source : List Char) (found : List Redeclaration)
    (e : CompileError) : Prop :=
  ∃ before item behind, (Lexer.ofSource source).items = before.map .ok ++ item :: behind ∧
    (scan before).found = found ∧ e.IsCausedBy before item behind

/-- The cause is an item that stands behind these tokens. -/
theorem CompileError.ArisesBehind.exists_item {source : List Char} {found : List Redeclaration}
    {e : CompileError} (arises : e.ArisesBehind source found) :
    ∃ item : Item, e.IsAt item ∧ item.StandsBehind source found := by
  rcases arises with ⟨before, item, behind, items, same, cause⟩
  exact ⟨item, cause.isAt, before, behind, items, same⟩

namespace Item.StandsBehind

variable {source : List Char} {found : List Redeclaration} {t : Token}

/-- A lexical fault is an error where it stands. -/
theorem arises_lexical {e : LexError} (stands : Item.StandsBehind source found (.error e)) :
    (CompileError.token (.lexical e)).ArisesBehind source found := by
  rcases stands with ⟨before, behind, items, same⟩
  exact ⟨before, _, behind, items, same, .lexical e⟩

/-- An unexpected token is an error where it stands. -/
theorem arises_unexpected {s : TokenStream} {expected : String}
    (stands : Item.StandsBehind source found (.ok t))
    (notNumber : expected ≠ "integer constant") :
    (CompileError.token (s.unexpected expected t)).ArisesBehind source found := by
  rcases stands with ⟨before, behind, items, same⟩
  have cause : (CompileError.token (s.unexpected expected t)).IsCausedBy before (.ok t) behind :=
    .syntactic (e := .locate s.source expected t) notNumber
  exact ⟨before, _, behind, items, same, cause⟩

end Item.StandsBehind

/-- Different kinds of tokens are not mistaken for integer constants in messages. -/
theorem TokenKind.name_ne_integer {k : TokenKind} (other : k ≠ .integer) :
    k.name ≠ "integer constant" := by
  cases k with
  | symbol p => cases p <;> decide
  | keyword k => cases k <;> decide
  | identifier => decide
  | integer => exact absurd rfl other
  | string => decide
  | endOfFile => decide

/-! ## Uses of variables -/

/-- The token is a name that the source uses as a variable, behind the tokens of a scan. -/
def Token.IsUsed (source : List Char) (scanned : DeclarationScan) (t : Token) : Prop :=
  t.kind = .identifier ∧ ∃ before behind,
    (Lexer.ofSource source).items = before.map .ok ++ .ok t :: behind ∧
      scan before = scanned ∧ VariableUse before behind

namespace TokenStream

variable {source : List Char} {scanned : DeclarationScan} {s : TokenStream} {t u : Token}
  {kind : TokenKind}

/-- A name behind `let` is a variable. -/
theorem ComesBehind.isUsed_of_let (comes : s.ComesBehind source scanned (.keyword .«let»))
    (current : s.current = .ok t) (isName : t.kind = .identifier) : t.IsUsed source scanned := by
  rcases comes with ⟨front, word, l, items, same, standsAt, isLet⟩
  rcases standsAt.items_of_ok current with ⟨behind, rest⟩
  exact ⟨isName, _, behind, by rw [items, rest], same, .target rfl isLet⟩

/-- A name where a term may stand is a variable, unless it starts a call. -/
theorem ComesBehind.isUsed_of_opensTerm (comes : s.ComesBehind source scanned kind)
    (opens : kind.opensTerm = true) (current : s.current = .ok t) (isName : t.kind = .identifier)
    (next : s.advance.current = .ok u) (noList : u.kind ≠ .symbol .leftParen)
    (noMember : u.kind ≠ .symbol .dot) : t.IsUsed source scanned := by
  rcases comes with ⟨front, opener, l, items, same, standsAt, rfl⟩
  have more : t.kind ≠ .endOfFile := by
    rw [isName]
    simp only [ne_eq, reduceCtorEq, not_false_eq_true]
  have read : l.next = (.ok t, l.next.2) := by rw [← current, standsAt.2.1]
  rcases (standsAt.advance current more).items_of_ok next with ⟨behind, rest⟩
  refine ⟨isName, _, .ok u :: behind, ?_, same, ?_⟩
  · rw [items, Lexer.items_of_more read more, rest]
  · by_cases bracket : u.kind = .symbol .leftBracket
    · exact .array rfl opens rfl bracket
    · refine .term rfl opens rfl ?_
      simp only [List.mem_cons, bracket, noList, noMember, List.not_mem_nil, or_self,
        not_false_eq_true]

end TokenStream

end Jack
