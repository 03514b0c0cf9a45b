import Mathlib
import Jack.Proofs.Compiler.Language
import Jack.Proofs.Lockstep.Class
import Jack.Proofs.Lockstep.Shared

namespace Jack

/-!
# The layout of a source does not matter

Two sources may have the same tokens, but other blanks, line breaks and comments between them.  Then
every token stands at another place, and the lines that a diagnostic quotes differ.  Nothing else
does: both sources compile to the same listing, or both are refused for the same reason at tokens
with the same number (`compileClass_layout`).
-/

namespace TokenStream

variable {s s' : TokenStream} {t : Token} {more tokens tokens' : List Token}

/-- The stream stands in front of the tokens, and nothing comes behind them. -/
def HoldsAll (s : TokenStream) (tokens : List Token) : Prop :=
  ∃ l, s.StandsAt l ∧ l.items = tokens.map .ok

/-- The first of all items that are left is the current one. -/
theorem HoldsAll.current (holds : s.HoldsAll (t :: more)) : s.current = .ok t := by
  rcases holds with ⟨l, stands, items⟩
  rw [stands.2.1, (Lexer.next_of_items_eq_cons items).1]

/-- The end of file stays where it is. -/
theorem HoldsAll.advance_of_last (holds : s.HoldsAll (t :: more)) (last : t.kind = .endOfFile) :
    s.advance.HoldsAll (t :: more) := by
  have current := holds.current
  rcases holds with ⟨l, stands, items⟩
  refine ⟨l, ?_, items⟩
  simp only [advance, current, last, if_true]
  exact ⟨stands.1, current ▸ stands.2.1, stands.2.2⟩

/-- Behind a token that is not the end of file there is another item. -/
theorem HoldsAll.advance_of_more (holds : s.HoldsAll (t :: more)) (notLast : t.kind ≠ .endOfFile) :
    more ≠ [] ∧ s.advance.HoldsAll more := by
  have current := holds.current
  rcases holds with ⟨l, stands, items⟩
  have rest := (Lexer.next_of_items_eq_cons items).2
  rw [if_neg notLast] at rest
  refine ⟨?_, l.next.2, stands.advance current notLast, rest.symm⟩
  rintro rfl
  exact l.next.2.items_ne_nil rest.symm

/-- The streams stand at tokens with the same number. -/
def SideBySide (tokens tokens' : List Token) (s s' : TokenStream) : Prop :=
  ∃ i, i < tokens.length ∧ s.HoldsAll (tokens.drop i) ∧ s'.HoldsAll (tokens'.drop i)

end TokenStream

/-- The tokens have the same number in two lists. -/
def SameNumber (tokens tokens' : List Token) (t t' : Token) : Prop :=
  ∃ i : Nat, tokens[i]? = some t ∧ tokens'[i]? = some t'

/-- The errors have the same reason and are located at tokens with the same number.  These tokens
have the same kind and the same text. -/
inductive CompileError.SameAt (tokens tokens' : List Token) : CompileError → CompileError → Prop
  | syntactic {fault fault' : SyntaxError} (expected : fault.expected = fault'.expected)
    (alike : fault.token.Alike fault'.token)
    (number : SameNumber tokens tokens' fault.token fault'.token) :
    SameAt tokens tokens' (.token (.syntactic fault)) (.token (.syntactic fault'))
  | symbol (e : SymbolError) {t t' : Token} (alike : t.Alike t')
    (number : SameNumber tokens tokens' t t') :
    SameAt tokens tokens' (.symbol e t.start) (.symbol e t'.start)
  | redeclared (name : String) {t t' : Token} (alike : t.Alike t')
    (number : SameNumber tokens tokens' t t') :
    SameAt tokens tokens' (.redeclared name t.start) (.redeclared name t'.start)

section Alike

variable {tokens tokens' : List Token} (alike : List.Forall₂ Token.Alike tokens tokens')

include alike

namespace TokenStream.SideBySide

variable {s s' : TokenStream}

/-- Both streams stand at tokens of the same number that are alike. -/
theorem current (aside : SideBySide tokens tokens' s s') :
    ∃ t t', s.current = .ok t ∧ s'.current = .ok t' ∧ t.Alike t' ∧
      SameNumber tokens tokens' t t' := by
  rcases aside with ⟨i, below, holds, holds'⟩
  have below' : i < tokens'.length := alike.length_eq ▸ below
  rw [List.drop_eq_getElem_cons below] at holds
  rw [List.drop_eq_getElem_cons below'] at holds'
  exact ⟨_, _, holds.current, holds'.current, alike.get below below', i,
    List.getElem?_eq_getElem below, List.getElem?_eq_getElem below'⟩

/-- Both streams go on to the next token, which both see ahead, or both stay at the end of file. -/
theorem advance (aside : SideBySide tokens tokens' s s') :
    SideBySide tokens tokens' s.advance s'.advance ∧ s.peekNext = s.advance.current ∧
      s'.peekNext = s'.advance.current := by
  rcases aside with ⟨i, below, holds, holds'⟩
  have below' : i < tokens'.length := alike.length_eq ▸ below
  have kind : tokens[i].kind = tokens'[i].kind := (alike.get below below').kind
  have front := List.drop_eq_getElem_cons below
  have front' := List.drop_eq_getElem_cons below'
  rw [front] at holds
  rw [front'] at holds'
  by_cases last : tokens[i].kind = .endOfFile
  · have ahead := holds.advance_of_last last
    have ahead' := holds'.advance_of_last (kind ▸ last)
    refine ⟨⟨i, below, front ▸ ahead, front' ▸ ahead'⟩, ?_, ?_⟩
    · rw [ahead.current, TokenStream.peekNext, holds.current]
      simp only [last, if_true]
    · rw [ahead'.current, TokenStream.peekNext, holds'.current]
      simp only [← kind, last, if_true]
  · rcases holds.advance_of_more last with ⟨notEmpty, ahead⟩
    have ahead' := (holds'.advance_of_more (kind ▸ last)).2
    refine ⟨⟨i + 1, ?_, ahead, ahead'⟩, peekNext_eq holds.current last,
      peekNext_eq holds'.current (kind ▸ last)⟩
    rwa [ne_eq, List.drop_eq_nil_iff, not_le] at notEmpty

end TokenStream.SideBySide

/-- Compilations of sources with the same tokens. -/
def Coupling.layout : Coupling where
  streams := TokenStream.SideBySide tokens tokens'
  tokens t t' := t.Alike t' ∧ SameNumber tokens tokens' t t'
  errors := CompileError.SameAt tokens tokens'
  kind same := same.1.kind
  text same := same.1.text
  current aside := by
    rcases aside.current alike with ⟨t, t', current, current', same⟩
    rw [current, current']
    exact same
  following aside := by
    rcases aside.advance alike with ⟨ahead, following, following'⟩
    rcases ahead.current alike with ⟨t, t', current, current', same⟩
    rw [following, following', current, current']
    exact same
  advance aside := (aside.advance alike).1
  unexpected _ _ same := .syntactic rfl same.1 same.2
  symbol e same := .symbol e same.1 same.2
  redeclared name same := .redeclared name same.1 same.2

end Alike

/-- Sources with tokens of the same kinds and texts either compile to the same listing, or are
refused with the same error at tokens with the same number. -/
theorem compileClass_layout {options : Options} {source source' : List Char}
    {tokens tokens' : List Token} (items : (Lexer.ofSource source).items = tokens.map .ok)
    (items' : (Lexer.ofSource source').items = tokens'.map .ok)
    (alike : List.Forall₂ Token.Alike tokens tokens') :
    (∃ listing, (compileClass options source).result = .ok listing ∧
        (compileClass options source').result = .ok listing) ∨
      ∃ e e', (compileClass options source).result = .error e ∧
        (compileClass options source').result = .error e' ∧
        CompileError.SameAt tokens tokens' e e' := by
  have notEmpty : 0 < tokens.length := by
    rw [List.length_pos_iff]
    rintro rfl
    exact (Lexer.ofSource source).items_ne_nil items
  have streams : (Coupling.layout alike).streams (.ofSource source) (.ofSource source') :=
    ⟨0, notEmpty, ⟨_, TokenStream.standsAt_ofSource source, items⟩,
      ⟨_, TokenStream.standsAt_ofSource source', items'⟩⟩
  have sameStrict : options.strictDeclarations = options.strictDeclarations := rfl
  rcases compileClass_corresponds _ sameStrict (.inl rfl) streams with
    ⟨listing, listing', compiled, compiled'⟩ | failed
  · left
    refine ⟨listing, compiled, ?_⟩
    -- Sources with the same lexemes are written by the same tree.
    rcases compileClass_eq_ok_iff.mp compiled with ⟨c, lexes, -, code⟩
    rcases compileClass_eq_ok_iff.mp compiled' with ⟨c', lexes', -, code'⟩
    have sameTree : c' = c := by
      refine Lexes.tree_unique lexes ⟨tokens, items, ?_⟩
      rw [map_lexeme_eq alike]
      exact Lexes.unique ⟨tokens', items', rfl⟩ lexes'
    have sameCode : listing'.toList = listing.toList := by rw [code', code, sameTree]
    rw [compiled', Array.toList_inj.mp sameCode]
  · exact .inr failed

/-- A name where a subroutine or the end of the class has to stand, in two layouts. -/
theorem compileClass_layout_misplacedName :
    (compileClass {} "class A\x7bx".toList).result =
        .error (.token (.syntactic
          ⟨"symbol '\x7d'", ⟨.identifier, "x", ⟨8, 1, 9⟩⟩, "class A\x7bx\n        ^"⟩)) ∧
      ∃ fault, (compileClass {} "class A /**/ \x7b\n x".toList).result =
          .error (.token (.syntactic fault)) ∧
        fault.expected = "symbol '\x7d'" ∧ fault.token = ⟨.identifier, "x", ⟨16, 2, 2⟩⟩ := by
  have failed := compileClass_of_failure {} "class A\x7bx".toList
    (e := .token (.syntactic
      ⟨"symbol '\x7d'", ⟨.identifier, "x", ⟨8, 1, 9⟩⟩, "class A\x7bx\n        ^"⟩)) (by cbv)
  have items : (Lexer.ofSource "class A\x7bx".toList).items =
      [⟨.keyword .«class», "class", ⟨0, 1, 1⟩⟩, ⟨.identifier, "A", ⟨6, 1, 7⟩⟩,
        ⟨.symbol .leftBrace, "\x7b", ⟨7, 1, 8⟩⟩, ⟨.identifier, "x", ⟨8, 1, 9⟩⟩,
        ⟨.endOfFile, "", ⟨9, 1, 10⟩⟩].map .ok := by
    cbv
  have items' : (Lexer.ofSource "class A /**/ \x7b\n x".toList).items =
      [⟨.keyword .«class», "class", ⟨0, 1, 1⟩⟩, ⟨.identifier, "A", ⟨6, 1, 7⟩⟩,
        ⟨.symbol .leftBrace, "\x7b", ⟨13, 1, 14⟩⟩, ⟨.identifier, "x", ⟨16, 2, 2⟩⟩,
        ⟨.endOfFile, "", ⟨17, 2, 3⟩⟩].map .ok := by
    cbv
  refine ⟨failed, ?_⟩
  rcases @compileClass_layout {} _ _ _ _ items items'
    (.cons ⟨rfl, rfl⟩ (.cons ⟨rfl, rfl⟩ (.cons ⟨rfl, rfl⟩ (.cons ⟨rfl, rfl⟩
      (.cons ⟨rfl, rfl⟩ .nil))))) with ⟨listing, compiled, -⟩ | ⟨e, e', same, failed', alike⟩
  · rw [failed] at compiled
    cases compiled
  · rw [failed] at same
    cases same
    cases alike with
    | @syntactic _ fault' expected _ number =>
        rcases number with ⟨i, number, number'⟩
        refine ⟨fault', failed', expected.symm, ?_⟩
        rcases i with _ | _ | _ | _ | _ | i <;> simp at number number'
        exact number'.symm

end Jack
