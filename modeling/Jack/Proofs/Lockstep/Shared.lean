import Mathlib.Data.List.Forall2
import Jack.Proofs.Lockstep.Coupling
import Jack.Proofs.Stream.Items

namespace Jack

/-!
# Sources that begin alike

Two sources may have tokens of the same kinds and texts up to a given one, while the tokens stand at
other places and anything comes behind them.  Their streams are then alike up to that token, and two
compilations meet corresponding syntax errors there (`PartialCoupling.upTo`).
-/

/-- The tokens have the same kind and the same text. -/
structure Token.Alike (t u : Token) : Prop where
  kind : t.kind = u.kind
  text : t.text = u.text

/-- Tokens that are alike have the same lexeme.  Their places may differ. -/
theorem Token.Alike.lexeme_eq {t u : Token} (alike : t.Alike u) : t.lexeme = u.lexeme := by
  rw [Token.lexeme, Token.lexeme, alike.kind, alike.text]

/-- Tokens alike are the same to the grammar. -/
theorem map_lexeme_eq {tokens tokens' : List Token}
    (alike : List.Forall₂ Token.Alike tokens tokens') :
    tokens.map Token.lexeme = tokens'.map Token.lexeme := by
  induction alike with
  | nil => rfl
  | cons first _ inductionHypothesis =>
      rw [List.map_cons, List.map_cons, first.lexeme_eq, inductionHypothesis]

namespace TokenStream

variable {s s' : TokenStream} {t u : Token} {more : List Token} {last : Nat}

/-- The stream stands in front of the tokens. -/
def Holds (s : TokenStream) (tokens : List Token) : Prop :=
  ∃ l behind, s.StandsAt l ∧ l.items = tokens.map .ok ++ behind

theorem Holds.current (holds : s.Holds (t :: more)) : s.current = .ok t := by
  rcases holds with ⟨l, behind, stands, items⟩
  rw [stands.2.1, (Lexer.next_of_items_eq_cons items).1]

/-- A token that is not the last one can be passed. -/
theorem Holds.advance (holds : s.Holds (t :: u :: more)) :
    t.kind ≠ .endOfFile ∧ s.advance.Holds (u :: more) := by
  have current := holds.current
  rcases holds with ⟨l, behind, stands, items⟩
  have rest := (Lexer.next_of_items_eq_cons items).2
  have notLast : t.kind ≠ .endOfFile := by
    intro isLast
    rw [if_pos isLast] at rest
    cases rest
  rw [if_neg notLast] at rest
  exact ⟨notLast, l.next.2, behind, stands.advance current notLast, rest.symm⟩

/-- The streams stand in front of tokens alike, and the last of these has a given position. -/
def AlikeUpTo (last : Nat) (s s' : TokenStream) : Prop :=
  ∃ tokens tokens', tokens ≠ [] ∧ s.Holds tokens ∧ s'.Holds tokens' ∧
    List.Forall₂ Token.Alike tokens tokens' ∧ s.position + tokens.length = last + 1

namespace AlikeUpTo

/-- As long as neither stream has passed the last common token, both have a current one, and these
are alike. -/
theorem current (alike : AlikeUpTo last s s') :
    ∃ t u, s.current = .ok t ∧ s'.current = .ok u ∧ t.Alike u := by
  rcases alike with ⟨tokens, tokens', notEmpty, holds, holds', alike, -⟩
  cases alike with
  | nil => exact absurd rfl notEmpty
  | @cons t u _ _ first => exact ⟨t, u, holds.current, holds'.current, first⟩

/-- The last token is passed, or both streams go on in step and see ahead what comes next. -/
theorem advance (alike : AlikeUpTo last s s') :
    (AlikeUpTo last s.advance s'.advance ∧ s.peekNext = s.advance.current ∧
        s'.peekNext = s'.advance.current) ∨
      last < s.advance.position := by
  rcases alike with ⟨tokens, tokens', notEmpty, holds, holds', alike, position⟩
  rw [position_advance]
  cases alike with
  | nil => exact absurd rfl notEmpty
  | @cons t u ts us _ rest =>
      rw [List.length_cons] at position
      cases rest with
      | nil =>
          rw [List.length_nil] at position
          omega
      | @cons t' u' ts us second rest =>
          left
          rcases holds.advance with ⟨more, ahead⟩
          rcases holds'.advance with ⟨more', ahead'⟩
          refine ⟨⟨t' :: ts, u' :: us, List.cons_ne_nil _ _, ahead, ahead', .cons second rest, ?_⟩,
            peekNext_eq holds.current more, peekNext_eq holds'.current more'⟩
          rw [position_advance]
          omega

end AlikeUpTo

end TokenStream

/-- Of two sources that begin alike, the compilations meet the same syntax errors up to the last
token that the sources have in common.  Other errors are of no interest. -/
def PartialCoupling.upTo (last : Nat) : PartialCoupling where
  streams := TokenStream.AlikeUpTo last
  passed s := last < s.position
  tokens := Token.Alike
  errors e e' := ∀ fault, e = .token (.syntactic fault) → ∃ fault',
    e' = .token (.syntactic fault') ∧ fault'.expected = fault.expected
  ignored e := ∀ fault, e ≠ .token (.syntactic fault)
  kind alike := alike.kind
  text alike := alike.text
  refl _ _ := ⟨rfl, rfl⟩
  current alike := by
    rcases alike.current with ⟨t, u, current, current', first⟩
    rw [current, current']
    exact first
  following alike := by
    rcases alike.advance with ⟨ahead, following, following'⟩ | passed
    · left
      rcases ahead.current with ⟨t, u, current, current', second⟩
      rw [following, following', current, current']
      exact second
    · exact .inr ⟨passed, fun e _ fault same => nomatch same⟩
  advance alike := alike.advance.imp_left And.left
  passed_advance {s} passed := by
    rw [s.position_advance]
    exact Nat.lt_succ_of_lt passed
  unexpected expected _ _ fault same := by
    cases same
    exact ⟨_, rfl, rfl⟩
  symbol _ _ fault same := nomatch same
  redeclared _ _ fault same := nomatch same

end Jack
