import Jack.Proofs.Grammar.Lexeme
import Jack.Token.Stream

namespace Jack

/-!
# Reading lexemes from a stream

A stream reads lexemes if they are those of the tokens from its current one on, up to the token at
which another stream stands.  The end of file is never among them, so reading takes as many tokens
as there are lexemes.

A source is read by the lexer into a complete list of items.  `lexes_iff_reads` says that a stream
in front of the source reads the same, as long as there is no lexical fault.
-/

namespace TokenStream

/-- Reading the lexemes leads from one stream to the other. -/
inductive Reads : TokenStream → List Lexeme → TokenStream → Prop
  | nil (s : TokenStream) : Reads s [] s
  | cons {s s' : TokenStream} {t : Token} {rest : List Lexeme} (current : s.current = .ok t)
    (more : t.kind ≠ .endOfFile) (behind : Reads s.advance rest s') :
    Reads s (t.lexeme :: rest) s'

/-- The current item is a token of an allowed kind. -/
def Shows (s : TokenStream) (allowed : TokenKind → Bool) : Prop :=
  ∃ t, s.current = .ok t ∧ allowed t.kind = true

/-- More kinds may be allowed. -/
theorem Shows.mono {s : TokenStream} {allowed wider : TokenKind → Bool} (shows : s.Shows allowed)
    (weaker : ∀ k, allowed k = true → wider k = true) : s.Shows wider := by
  rcases shows with ⟨t, current, kind⟩
  exact ⟨t, current, weaker t.kind kind⟩

theorem Reads.singleton {s : TokenStream} {t : Token} (current : s.current = .ok t)
    (more : t.kind ≠ .endOfFile) : s.Reads [t.lexeme] s.advance :=
  .cons current more (.nil _)

/-- One run of lexemes behind another. -/
theorem Reads.append {s s' s'' : TokenStream} {first second : List Lexeme}
    (reads : s.Reads first s') (behind : s'.Reads second s'') :
    s.Reads (first ++ second) s'' := by
  induction reads with
  | nil s => exact behind
  | cons current more _ inductionHypothesis =>
      exact .cons current more (inductionHypothesis behind)

theorem Reads.of_nil {s s' : TokenStream} (reads : s.Reads [] s') : s' = s := by
  cases reads
  rfl

/-- The first lexeme is that of the current token. -/
theorem Reads.of_cons {s s' : TokenStream} {l : Lexeme} {rest : List Lexeme}
    (reads : s.Reads (l :: rest) s') :
    ∃ t, s.current = .ok t ∧ t.kind ≠ .endOfFile ∧ t.lexeme = l ∧ s.advance.Reads rest s' := by
  cases reads with
  | cons current more behind => exact ⟨_, current, more, rfl, behind⟩

/-- There is a stream between two runs of lexemes. -/
theorem Reads.of_append {s s'' : TokenStream} {first second : List Lexeme}
    (reads : s.Reads (first ++ second) s'') :
    ∃ s', s.Reads first s' ∧ s'.Reads second s'' := by
  induction first generalizing s with
  | nil => exact ⟨s, .nil s, reads⟩
  | cons l more inductionHypothesis =>
      rw [List.cons_append] at reads
      rcases reads.of_cons with ⟨t, current, notLast, same, behind⟩
      rcases inductionHypothesis behind with ⟨s', readsMore, readsSecond⟩
      exact ⟨s', same ▸ .cons current notLast readsMore, readsSecond⟩

/-- The token behind the current one is the current one of the stream behind it. -/
theorem peekNext_eq {s : TokenStream} {t : Token} (current : s.current = .ok t)
    (more : t.kind ≠ .endOfFile) : s.peekNext = s.advance.current := by
  simp only [peekNext, advance, current, more, if_false]
  rfl

/-! ## The spelling of tokens -/

end TokenStream

/-- A token as the lexer makes it: a reserved word has the text of that word, and the text of an
integer constant spells a machine word. -/
structure Token.WellSpelled (t : Token) : Prop where
  keyword : ∀ k, t.kind = .keyword k → t.text = k.text
  integer : t.kind = .integer → ∃ value, Token.word? t.text.toList = some value

/-- Tokens of the other kinds may have any text. -/
theorem Token.wellSpelled_of_ne {t : Token} (notWord : ∀ k, t.kind ≠ .keyword k)
    (notNumber : t.kind ≠ .integer) : t.WellSpelled where
  keyword k word := absurd word (notWord k)
  integer number := absurd number notNumber

namespace Cursor

/-- A word is made a reserved word only if it is spelled like one. -/
theorem wellSpelled_word {text : String} {place : Location} :
    (⟨wordKind text, text, place⟩ : Token).WellSpelled where
  keyword k word := by
    dsimp only [wordKind] at word ⊢
    split at word
    · rename_i k' found
      rw [← TokenKind.keyword.inj word]
      exact (Keyword.text_of_ofText? found).symm
    · cases word
  integer number := by
    dsimp only [wordKind] at number
    split at number <;> cases number

/-- The digits of an integer constant have a value that fits a machine word. -/
theorem wellSpelled_number {first : Char} {rest : List Char} {place : Location}
    (digit : first.isDigit = true)
    (small : Token.decimal (first :: rest.takeWhile Char.isDigit) ≤ maxInt) :
    (⟨.integer, String.ofList (first :: rest.takeWhile Char.isDigit), place⟩ :
      Token).WellSpelled where
  keyword k word := by cases word
  integer _ := by
    have digits : (first :: rest.takeWhile Char.isDigit).all Char.isDigit = true := by
      rw [List.all_cons, digit, Bool.true_and]
      exact List.all_takeWhile
    have fits : maxInt < UInt16.size := by decide
    rw [String.toList_ofList]
    exact ⟨_, Token.word?_digits digits (Nat.lt_of_le_of_lt small fits)⟩

/-- What the lexer reads is well spelled: the kind of each token tells what its text looks like. -/
theorem wellSpelled_of_readToken {c d : Cursor} {t : Token} (read : c.readToken = (.ok t, d)) :
    t.WellSpelled := by
  have other (kind : TokenKind) (run rest : List Char) (notWord : ∀ k, kind ≠ .keyword k)
      (notNumber : kind ≠ .integer) (taken : c.takeToken kind run rest = (.ok t, d)) :
      t.WellSpelled := by
    rw [takeToken, Prod.mk.injEq, Except.ok.injEq] at taken
    rw [← taken.1]
    exact Token.wellSpelled_of_ne notWord notNumber
  unfold readToken at read
  split at read
  · exact other _ _ _ (fun k => by simp) (by simp) read
  · rename_i first rest text
    split at read
    · simp only [readString] at read
      split at read
      · exact other _ _ _ (fun k => by simp) (by simp) read
      · simp only [stopAtLast, Prod.mk.injEq, reduceCtorEq, false_and] at read
      · simp only [stopAtLast, Prod.mk.injEq, reduceCtorEq, false_and] at read
    · split at read
      · rw [takeToken, Prod.mk.injEq, Except.ok.injEq] at read
        rw [← read.1]
        exact wellSpelled_word
      · split at read
        · rename_i digit
          simp only [readNumber] at read
          split at read
          · rename_i small
            rw [takeToken, Prod.mk.injEq, Except.ok.injEq] at read
            rw [← read.1]
            exact wellSpelled_number digit small
          · simp only [stopAtLast, Prod.mk.injEq, reduceCtorEq, false_and] at read
        · split at read
          · exact other _ _ _ (fun k => by simp) (by simp) read
          · simp only [Prod.mk.injEq, reduceCtorEq, false_and] at read

/-- A gap in front makes no difference to the spelling. -/
theorem wellSpelled_of_next {c d : Cursor} {t : Token} (read : c.next = (.ok t, d)) :
    t.WellSpelled := by
  unfold next at read
  split at read
  · exact wellSpelled_of_readToken read
  · simp only [Prod.mk.injEq, reduceCtorEq, false_and] at read

end Cursor

namespace TokenStream

/-- The current token is spelled as the lexer makes it. -/
def Spelled (s : TokenStream) : Prop :=
  ∀ t, s.current = .ok t → t.WellSpelled

theorem spelled_of_locate {s : TokenStream} {source : List Char} {c : Cursor}
    (current : s.current = Item.locate source c.next.1) : s.Spelled := by
  intro t isCurrent
  rw [current] at isCurrent
  cases read : c.next with
  | mk result behind =>
      rw [read] at isCurrent
      cases result with
      | ok u =>
          rw [← Except.ok.inj isCurrent]
          exact Cursor.wellSpelled_of_next read
      | error e => simp only [Item.locate, reduceCtorEq] at isCurrent

theorem spelled_ofSource (source : List Char) : (ofSource source).Spelled :=
  spelled_of_locate rfl

/-- Whatever the current item is, the item behind it comes from the lexer or is the end of file. -/
theorem spelled_advance {s : TokenStream} (spelled : s.Spelled) : s.advance.Spelled := by
  unfold advance
  split
  · split
    · exact spelled
    · exact spelled_of_locate rfl
  · intro t current
    rw [← Except.ok.inj current]
    exact Token.wellSpelled_of_ne (fun k => by simp [endToken]) (by simp [endToken])

/-- Streams stay spelled as they go on. -/
theorem Reads.spelled {s s' : TokenStream} {lexemes : List Lexeme} (reads : s.Reads lexemes s')
    (spelled : s.Spelled) : s'.Spelled := by
  induction reads with
  | nil s => exact spelled
  | cons _ _ _ inductionHypothesis => exact inductionHypothesis (spelled_advance spelled)

end TokenStream

end Jack
