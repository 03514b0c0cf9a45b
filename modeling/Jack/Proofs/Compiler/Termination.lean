import Jack.Compiler
import Jack.Proofs.Lexer.Spans
import Jack.Proofs.Termination.Watch

namespace Jack

/-!
# Every compilation ends

Whatever the source, the compiler stops: no function comes back to itself, in a loop or in a cycle
of calls, without having passed a token since, and every token is passed once at most.

This is about the functions of the compiler.  The lexer, which they ask for tokens, comes back as
well, if the offsets of the source are words (`ReadsInSpans`).  In a longer source it may not notice
that the source ends (`Lexer.spannedResult?_openString`), and then no compilation ends either.
-/

namespace Callees

open Step

variable {callees callees' : Callees} {start : Progress}

/-- A compilation passes tokens, and at most the end of file behind them. -/
theorem Agree.wholeClass (agree : Agree callees callees' start 0) (options : Options) :
    callees.wholeClass options start = callees'.wholeClass options start ∧
      ∃ q, start.Advances 0 q ∧
        (reached (callees.wholeClass options start)).stream.position ≤ q.stream.position + 1 := by
  rcases agree.openClass options with ⟨same, passes⟩
  unfold Callees.wholeClass
  simp only [Bind.bind, EStateM.bind]
  rw [← same]
  cases run : callees.openClass options start with
  | error stop q =>
      rw [run] at passes
      exact ⟨rfl, q, passes, Nat.le_succ _⟩
  | ok name q =>
      rw [run] at passes
      refine ⟨rfl, q, passes.mono (Nat.zero_le _), ?_⟩
      dsimp only [consume, TokenStream.consume, TokenStream.consumeIf]
      cases q.stream.current with
      | error e => exact Nat.le_succ _
      | ok t =>
          by_cases last : t.kind = .endOfFile
          · simp only [last, List.mem_singleton, if_true]
            exact Nat.le_of_eq (TokenStream.position_advance _)
          · simp only [last, List.mem_singleton, if_false]
            exact Nat.le_succ _

end Callees

/-- The item is a token other than the end of file. -/
def Item.isWord : Item → Bool
  | .ok t => t.kind ≠ .endOfFile
  | .error _ => false

/-- The number of tokens of a source, without the end of file. -/
def tokenCount (source : List Char) : Nat := (Lexer.ofSource source).items.countP Item.isWord

/-- What is read are tokens of the source. -/
theorem TokenStream.Reads.length_le_countP {s s' : TokenStream} {lexemes : List Lexeme} {l : Lexer}
    (reads : s.Reads lexemes s') (stands : s.StandsAt l) :
    lexemes.length ≤ l.items.countP Item.isWord := by
  induction reads generalizing l with
  | nil s => exact Nat.zero_le _
  | @cons s s' t rest current more _ inductionHypothesis =>
      have read : l.next = (.ok t, l.next.2) := by rw [← current, stands.2.1]
      have isWord : Item.isWord (.ok t) = true := decide_eq_true more
      rw [Lexer.items_of_more read more, List.length_cons, List.countP_cons_of_pos isWord]
      exact Nat.succ_le_succ (inductionHypothesis (stands.advance current more))

/-- A compilation passes no more tokens than the source has, whatever it does with them. -/
theorem Progress.Advances.position_le_tokenCount {source : List Char} {q : Progress} {n : Nat}
    (passes : (Progress.ofSource source).Advances n q) :
    q.stream.position ≤ tokenCount source := by
  rcases passes with ⟨lexemes, reads, -⟩
  have counted := reads.position_eq
  have few := reads.length_le_countP (TokenStream.standsAt_ofSource source)
  have front : (Progress.ofSource source).stream.position = 0 := rfl
  rw [counted, front, Nat.zero_add]
  exact few

/-- A class that compiles has been passed with its end of file. -/
example :
    (Step.reached (Step.wholeClass {} (stepBound "class A{}".toList)
      (.ofSource "class A{}".toList))).stream.position = tokenCount "class A{}".toList + 1 := by
  cbv

end Jack
