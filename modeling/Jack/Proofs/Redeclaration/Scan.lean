import Mathlib.Data.List.Induction
import Jack.Compiler
import Jack.Proofs.Names.Acceptance
import Jack.Proofs.Redeclaration.Silent
import Jack.Proofs.Stream.Items

namespace Jack

/-!
# Declarations among tokens

Which names are declared can be told from the tokens alone, without compiling anything.  A single
word opens each declaration, and the tokens behind it are read one by one: `DeclarationPart.next`
follows the form of declarations, and `DeclarationScan.read` notes what is declared.  Wherever a
name is declared that has an earlier declaration in its scope, a redeclaration is found.

A scan does not check anything.  It tells the declarations of tokens as far as they can be compiled.
-/

/-- What the next token is to the declarations of a class. -/
inductive DeclarationPart
  /-- No part of a declaration. -/
  | elsewhere
  | className
  /-- The type of the result of a subroutine. -/
  | result (kind : SubroutineKind)
  /-- The name of a subroutine. -/
  | title (kind : SubroutineKind)
  /-- The parenthesis in front of parameters. -/
  | opening
  /-- The type of names of a kind. -/
  | type (kind : SymbolKind)
  /-- A name of a kind and a type. -/
  | name (kind : SymbolKind) (type : String)
  /-- What separates names, or ends them. -/
  | behindName (kind : SymbolKind) (type : String)
deriving DecidableEq

namespace DeclarationPart

/-- The part behind a word that may open a declaration. -/
def opened : TokenKind → DeclarationPart
  | .keyword .«class» => className
  | .keyword .constructor => result .constructor
  | .keyword .function => result .function
  | .keyword .method => result .method
  | .keyword .static => type .static
  | .keyword .field => type .field
  | .keyword .var => type .«local»
  | _ => elsewhere

/-- The part behind a comma.  Every parameter has a type of its own. -/
def again : SymbolKind → String → DeclarationPart
  | .argument, _ => type .argument
  | kind, typeName => name kind typeName

/-- The part behind a token. -/
def next (t : Token) : DeclarationPart → DeclarationPart
  | elsewhere => opened t.kind
  | className => elsewhere
  | result kind => title kind
  | title _ => opening
  | opening => type .argument
  | type kind => if t.kind.isType then name kind t.text else elsewhere
  | name kind typeName => behindName kind typeName
  | behindName kind typeName => if t.kind = .symbol .comma then again kind typeName else elsewhere

end DeclarationPart

/-- What has been noted of the tokens in front of a part. -/
structure DeclarationScan where
  part : DeclarationPart
  className : String
  declared : Declarations
  found : List Redeclaration

namespace DeclarationScan

/-- Nothing has been read. -/
def start : DeclarationScan := ⟨.elsewhere, "", ⟨[], []⟩, []⟩

/-- The redeclaration by a declaration that stands at a place, if its name has a symbol in its
scope. -/
def redeclaration? (s : DeclarationScan) (d : Declaration) (place : Location) :
    Option Redeclaration :=
  (latest? (s.declared.scope d.kind) d.name).map fun previous => ⟨d.name, place, previous⟩

/-- Note the declaration that stands at a place. -/
def declare (s : DeclarationScan) (d : Declaration) (place : Location) : DeclarationScan :=
  { s with
    declared := s.declared.declare d
    found := s.found ++ (s.redeclaration? d place).toList }

/-- Note what a token is. -/
def note (s : DeclarationScan) (t : Token) : DeclarationScan :=
  match s.part with
  | .className => { s with className := t.text }
  | .title kind =>
    { s with declared := ⟨s.declared.ofClass, receiverDeclarations s.className kind⟩ }
  | .name kind type => s.declare ⟨t.text, type, kind⟩ t.start
  | _ => s

/-- Read a token. -/
def read (s : DeclarationScan) (t : Token) : DeclarationScan :=
  { s.note t with part := s.part.next t }

end DeclarationScan

/-- What is noted of tokens. -/
def scan (tokens : List Token) : DeclarationScan :=
  tokens.foldl DeclarationScan.read .start

/-- A scan goes on token by token. -/
theorem scan_append_singleton (tokens : List Token) (t : Token) :
    scan (tokens ++ [t]) = (scan tokens).read t :=
  List.foldl_append

/-- What a token adds to the redeclarations is found at this token. -/
theorem DeclarationScan.found_read (s : DeclarationScan) (t : Token) :
    ∃ more, (s.read t).found = s.found ++ more ∧
      ∀ r ∈ more, t.text = r.name ∧ t.start = r.place := by
  have nothing : ∃ more, s.found = s.found ++ more ∧
      ∀ r ∈ more, t.text = r.name ∧ t.start = r.place :=
    ⟨[], (List.append_nil _).symm, fun r member => nomatch member⟩
  rw [read, note]
  split
  · exact nothing
  · exact nothing
  · rename_i kind type _
    refine ⟨_, rfl, fun r member => ?_⟩
    rcases Option.map_eq_some_iff.mp (Option.mem_toList.mp member) with ⟨previous, -, rfl⟩
    exact ⟨rfl, rfl⟩
  · exact nothing

/-- Every redeclaration is found at a token that has been read. -/
theorem exists_token_of_found {tokens : List Token} {r : Redeclaration}
    (member : r ∈ (scan tokens).found) : ∃ t ∈ tokens, t.text = r.name ∧ t.start = r.place := by
  induction tokens using List.reverseRecOn with
  | nil => cases member
  | append_singleton tokens t inductionHypothesis =>
      rcases (scan tokens).found_read t with ⟨more, found, atToken⟩
      rw [scan_append_singleton, found] at member
      rcases List.mem_append.mp member with earlier | last
      · rcases inductionHypothesis earlier with ⟨u, inTokens, same⟩
        exact ⟨u, List.mem_append_left _ inTokens, same⟩
      · exact ⟨t, List.mem_append_right _ (List.mem_singleton.mpr rfl), atToken r last⟩

/-- The error is located at the item. -/
def CompileError.IsAt : CompileError → Item → Prop
  | .token (.lexical e), item => item = .error e
  | .token (.syntactic e), item => item = .ok e.token
  | .symbol _ place, item => ∃ t, item = .ok t ∧ t.start = place
  | .redeclared _ place, item => ∃ t, item = .ok t ∧ t.start = place

/-- The item stands in the source behind tokens with the given redeclarations. -/
def Item.StandsBehind (source : List Char) (found : List Redeclaration) (item : Item) : Prop :=
  ∃ before behind, (Lexer.ofSource source).items = before.map .ok ++ item :: behind ∧
    (scan before).found = found

/-- The stream stands in the source behind the tokens of a scan. -/
def TokenStream.StandsBehind (source : List Char) (scanned : DeclarationScan) (s : TokenStream) :
    Prop :=
  ∃ before l, (Lexer.ofSource source).items = before.map .ok ++ l.items ∧ scan before = scanned ∧
    s.StandsAt l

/-- The stream stands directly behind a token of a kind, which is the last one of a scan. -/
def TokenStream.ComesBehind (source : List Char) (scanned : DeclarationScan) (kind : TokenKind)
    (s : TokenStream) : Prop :=
  ∃ front word l, (Lexer.ofSource source).items = (front ++ [word]).map .ok ++ l.items ∧
    scan (front ++ [word]) = scanned ∧ s.StandsAt l ∧ word.kind = kind

/-! ## Tokens that declare nothing -/

/-- A token of this kind opens no declaration, and something comes behind it. -/
structure TokenKind.IsPlain (k : TokenKind) : Prop where
  more : k ≠ .endOfFile
  opensNothing : DeclarationPart.opened k = .elsewhere

theorem isPlain_symbol (p : Punctuation) : (TokenKind.symbol p).IsPlain := ⟨by simp, rfl⟩

theorem isPlain_identifier : TokenKind.identifier.IsPlain := ⟨by simp, rfl⟩

theorem isPlain_else : (TokenKind.keyword .«else»).IsPlain := ⟨by simp, rfl⟩

theorem isPlain_of_binaryOperator? {k : TokenKind} {o : BinaryOperator}
    (operator : k.binaryOperator? = some o) : k.IsPlain := by
  rw [TokenKind.eq_of_binaryOperator? operator]
  exact isPlain_symbol o.symbol

theorem isPlain_of_termKind? {k : TokenKind} {form : TermKind} (start : k.termKind? = some form) :
    k.IsPlain := by
  rw [TokenKind.eq_of_termKind? start]
  cases form with
  | constant c => cases c <;> exact ⟨by simp, rfl⟩
  | unary o => exact isPlain_symbol o.symbol
  | _ => exact ⟨by simp, rfl⟩

theorem isPlain_statement (kind : StatementKind) : (TokenKind.keyword kind.word).IsPlain := by
  cases kind <;> exact ⟨by simp, rfl⟩

/-- Outside of declarations, plain tokens are passed over. -/
theorem DeclarationScan.read_of_isPlain {s : DeclarationScan} {t : Token}
    (elsewhere : s.part = .elsewhere) (plain : t.kind.IsPlain) : s.read t = s := by
  have part : s.part.next t = s.part := by
    rw [elsewhere, DeclarationPart.next, plain.opensNothing]
  have noted : s.note t = s := by rw [note, elsewhere]
  rw [read, part, noted]

/-! ## Where streams stand -/

namespace TokenStream.StandsBehind

variable {source : List Char} {scanned : DeclarationScan} {s : TokenStream} {t : Token}

/-- At the beginning, nothing has been scanned. -/
theorem ofSource (source : List Char) :
    (TokenStream.ofSource source).StandsBehind source .start :=
  ⟨[], _, rfl, rfl, standsAt_ofSource source⟩

/-- The current item stands where the stream does. -/
theorem current (stands : s.StandsBehind source scanned) :
    s.current.StandsBehind source scanned.found := by
  rcases stands with ⟨before, l, items, same, standsAt⟩
  cases item : s.current with
  | ok t =>
      rcases standsAt.items_of_ok item with ⟨behind, rest⟩
      exact ⟨before, behind, by rw [items, rest], by rw [same]⟩
  | error e =>
      rw [standsAt.items_of_error item] at items
      exact ⟨before, [], items, by rw [same]⟩

/-- A token that is passed is the last one in front of the stream. -/
theorem comesBehind (stands : s.StandsBehind source scanned) (current : s.current = .ok t)
    (more : t.kind ≠ .endOfFile) : s.advance.ComesBehind source (scanned.read t) t.kind := by
  rcases stands with ⟨before, l, items, same, standsAt⟩
  have read : l.next = (.ok t, l.next.2) := by rw [← current, standsAt.2.1]
  refine ⟨before, t, l.next.2, ?_, ?_, standsAt.advance current more, rfl⟩
  · rw [items, Lexer.items_of_more read more, List.map_append, List.append_assoc]
    rfl
  · rw [scan_append_singleton, same]

/-- A token is passed by the stream and by the scan. -/
theorem advance (stands : s.StandsBehind source scanned) (current : s.current = .ok t)
    (more : t.kind ≠ .endOfFile) : s.advance.StandsBehind source (scanned.read t) := by
  rcases stands.comesBehind current more with ⟨front, word, l, items, same, standsAt, -⟩
  exact ⟨front ++ [word], l, items, same, standsAt⟩

/-- At the end of file all tokens have been scanned. -/
theorem exists_tokens (stands : s.StandsBehind source scanned) (current : s.current = .ok t)
    (last : t.kind = .endOfFile) :
    ∃ tokens, (Lexer.ofSource source).items = tokens.map .ok ∧ scan tokens = scanned.read t := by
  rcases stands with ⟨before, l, items, same, standsAt⟩
  have read : l.next = (.ok t, l.next.2) := by rw [← current, standsAt.2.1]
  refine ⟨before ++ [t], ?_, ?_⟩
  · rw [items, Lexer.items_of_last read last, List.map_append]
    rfl
  · rw [scan_append_singleton, same]

end TokenStream.StandsBehind

end Jack
