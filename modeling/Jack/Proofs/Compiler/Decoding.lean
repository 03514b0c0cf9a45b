import Mathlib
import Jack.Proofs.Compiler.Language
import Jack.Proofs.Lexer.Spans
import Jack.Proofs.Lexer.Spelling
import Jack.Proofs.Listing.Names

namespace Jack

/-!
# Decoding compiled code

Nothing is lost when a listing is written as text.  This needs that names are words, and the names
in compiled code are: the lexer takes a text for an identifier only if it is one.
-/

/-- The identifiers of a source are words. -/
theorem Lexes.hasWord {source : List Char} {lexemes : List Lexeme} (lexes : Lexes source lexemes) :
    ∀ l ∈ lexemes, l.HasWord := by
  intro l member
  rcases lexes.isSpelled member with rfl | isSpelled
  · exact trivial
  · cases l with
    | identifier name => exact isSpelled.isWord rfl
    | _ => exact trivial

/-- Listings of plain commands are told by their texts, from which they can be read.  Every compiled
listing is of this form, whatever the options are and whatever the source is, if its offsets are
words: the labels in the listing are words, and its functions and calls name a class and one of its
subroutines.  The texts of these names are those in the spans of the tokens; nothing is said about
longer sources, where a span may be that of other characters. -/
theorem Listing.text_lossless :
    (∀ listing : Listing, (∀ c ∈ listing, c.IsPlain) → read? listing.text = some listing) ∧
    (∀ listing listing' : Listing, (∀ c ∈ listing, c.IsPlain) → (∀ c ∈ listing', c.IsPlain) →
      listing.text = listing'.text → listing = listing') ∧
    ∀ (options : Options) (source : List Char) (listing : Listing), IsAddressable source →
      (compileClass options source).result = .ok listing →
        ReadsInSpans source ∧ ∀ c ∈ listing, c.IsPlain ∧ c.WellNamed := by
  refine ⟨fun listing plain => read?_text plain, ?_, ?_⟩
  · intro listing listing' plain plain' same
    have read := read?_text plain
    rw [same, read?_text plain'] at read
    exact (Option.some.inj read).symm
  · intro options source listing addressable compiled
    refine ⟨addressable.readsInSpans, fun command member => ?_⟩
    rcases compileClass_eq_ok_iff.mp compiled with ⟨c, lexes, acceptable, code⟩
    have wellNamed := c.code_wellNamed lexes.hasWord acceptable command
      (code ▸ Array.mem_toList_iff.mpr member)
    exact ⟨wellNamed.isPlain, wellNamed⟩

/-- A listing with a call on an object, and one with names that the compiler does not make. -/
theorem Listing.text_lossless_object :
    IsAddressable "class A{function int f(B b){return b.g(7);}}".toList ∧
    ∃ listing : Listing,
      (compileClass {} "class A{function int f(B b){return b.g(7);}}".toList).result =
        .ok listing ∧
      listing.text =
        "function A.f 0\npush argument 0\npush constant 7\ncall B.g 2\nreturn\n" ∧
      read? listing.text = some listing ∧ (∀ c ∈ listing, c.WellNamed) ∧
      read? "call Ω 65535\nlabel not\n" = some #[.call "Ω" 65535, .label "not"] := by
  have compiled := compileClass_of_emitted {}
    "class A{function int f(B b){return b.g(7);}}".toList (by cbv)
  rcases text_lossless with ⟨read, -, names⟩
  have addressable : IsAddressable "class A{function int f(B b){return b.g(7);}}".toList := by
    decide
  rcases names _ _ _ addressable compiled with ⟨-, names⟩
  have plain : ∀ c ∈ (#[.call "Ω" 65535, .label "not"] : Listing), c.IsPlain := by decide
  exact ⟨addressable, _, compiled, by decide +kernel, read _ fun c member => (names c member).1,
    fun c member => (names c member).2, read _ plain⟩

end Jack
