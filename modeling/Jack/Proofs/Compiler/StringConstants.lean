import Jack.Proofs.Compiler.ExpressionSuccess
import Jack.Proofs.Lexer.Spans
import Jack.Proofs.Reaching.Term
import Jack.Proofs.Translation.Code

namespace Jack

/-!
# String constants

A string constant becomes commands that make a string and append its characters one by one.  The
number of characters and the code of each of them are constants of the machine, so they are held to
its bound, and then the characters are found again by reading the commands (`readString_append`).
Wherever the compiler comes to a string constant as a term, it emits these commands or fails at the
constant (`stringConstant_lossless`).
-/

/-! ## Commands and characters -/

/-- Read so many characters that are appended, and yield them with the commands behind them. -/
def readCharacters : Nat → List Command → Option (List Char × List Command)
  | 0, commands => some ([], commands)
  | n + 1, .push .constant code :: .call "String.appendChar" 2 :: commands =>
    (readCharacters n commands).map fun (text, behind) => (Char.ofNat code.toNat :: text, behind)
  | _ + 1, _ => none

/-- Read the text for which commands make a string, and yield it with the commands behind them. -/
def readString : List Command → Option (List Char × List Command)
  | .push .constant size :: .call "String.new" 1 :: commands => readCharacters size.toNat commands
  | _ => none

/-- Numbers up to the largest integer constant are not cut when they become words. -/
theorem toNat_ofNat_of_le_maxInt {n : Nat} (small : n ≤ maxInt) : (UInt16.ofNat n).toNat = n :=
  UInt16.toNat_ofNat_of_lt (Nat.lt_of_le_of_lt small (by decide))

/-- Reading the characters back from their commands gives the same characters.  This needs that no
character was cut. -/
theorem readCharacters_append {text : List Char} (small : ∀ c ∈ text, c.toNat ≤ maxInt)
    (behind : List Command) :
    readCharacters text.length
        ((text.flatMap fun c =>
          [.push .constant (UInt16.ofNat c.toNat), .call "String.appendChar" 2]) ++ behind) =
      some (text, behind) := by
  induction text with
  | nil => rfl
  | cons c text inductionHypothesis =>
      rcases List.forall_mem_cons.mp small with ⟨first, others⟩
      rw [List.flatMap_cons, List.append_assoc, List.length_cons, List.cons_append,
        List.cons_append, List.nil_append, readCharacters, inductionHypothesis others,
        Option.map_some, toNat_ofNat_of_le_maxInt first, Char.ofNat_toNat]

/-- The text is found again by reading the commands for it. -/
theorem readString_append {text : List Char} (fits : FitsMachine text) (behind : List Command) :
    readString (stringCommands text ++ behind) = some (text, behind) := by
  rw [stringCommands, List.append_assoc, List.cons_append, List.cons_append, List.nil_append,
    readString, toNat_ofNat_of_le_maxInt fits.1]
  exact readCharacters_append fits.2 behind

/-! ## The text of a string constant -/

namespace Token

variable {t : Token} {text : List Char}

/-- The quotes do not belong to the text. -/
theorem content_of_quoted (quoted : t.text.toList = '"' :: (text ++ ['"'])) : t.content = text := by
  rw [content_eq, charactersBetweenQuotes_quoted quoted]

/-- A string constant of a source stands between two quotes and has none inside. -/
theorem exists_quoted {source : List Char} (member : .ok t ∈ (Lexer.ofSource source).items)
    (isString : t.kind = .string) :
    ∃ text, t.text.toList = '"' :: (text ++ ['"']) ∧ '"' ∉ text := by
  have more : t.kind ≠ .endOfFile := isString ▸ TokenKind.noConfusion
  rcases Lexer.longest_of_mem member more with ⟨behind, longest⟩
  rw [isString] at longest
  generalize t.text.toList = written at longest ⊢
  cases longest with
  | @string body inside =>
      refine ⟨body, rfl, fun member => ?_⟩
      exact absurd (inside '"' member) (by decide)

end Token

/-! ## The term -/

namespace Step

variable {t : Token} {p : Progress} {text : List Char} (className : String) (bound : Nat)

/-- A string constant is a term by itself. -/
theorem term_string (current : p.stream.current = .ok t) (isString : t.kind = .string) :
    term className (bound + 1) p = stringConstant t { p with stream := p.stream.advance } := by
  simp only [term, Bind.bind, EStateM.bind, peek, TokenStream.peek, current, isString,
    TokenKind.termKind?, skip]

/-- If the characters between the quotes fit the machine, the string is made and filled with them in
their order.  The quotes are not among them. -/
theorem stringConstant_fits (quoted : t.text.toList = '"' :: (text ++ ['"']))
    (fits : FitsMachine text) : stringConstant t p =
      .ok () { p with code := p.code ++ (stringCommands text).toArray } := by
  rw [← Token.content_of_quoted quoted] at fits
  rw [stringConstant_of_fits fits, Token.content_of_quoted quoted, emit,
    List.foldl_push_eq_append']
  rfl

/-- If there are too many characters, that is reported first, whatever the characters are. -/
theorem stringConstant_long (quoted : t.text.toList = '"' :: (text ++ ['"']))
    (long : maxInt < text.length) :
    stringConstant t p = unexpected "shorter string constant" t p := by
  rw [stringConstant, Token.content_of_quoted quoted, if_pos long]

/-- If there are few enough characters, one that is too large is reported at the token, and not
which one it was. -/
theorem stringConstant_large (quoted : t.text.toList = '"' :: (text ++ ['"']))
    (short : text.length ≤ maxInt) (large : ∃ c ∈ text, maxInt < c.toNat) :
    stringConstant t p = unexpected "character with code up to 32767" t p := by
  have hasLarge : text.any (·.toNat > maxInt) = true := by
    rcases large with ⟨c, member, tooLarge⟩
    exact List.any_eq_true.mpr ⟨c, member, decide_eq_true tooLarge⟩
  rw [stringConstant, Token.content_of_quoted quoted, if_neg (Nat.not_lt.mpr short),
    if_pos hasLarge]

end Step

/-- If the compiler comes to a string constant as a term, the constant is a text between two quotes.
A text that the machine can hold is compiled to the commands for its characters, which stay in the
code, and from which it can be read again.  Any other text is a syntax error at the constant, first
for its length and then for its characters.

The offsets of the source have to be words, and then these are also the characters in the span of
the constant.  Nothing is said about longer sources, where the span may be that of other
characters. -/
theorem stringConstant_lossless {options : Options} {source : List Char} {t : Token} {p : Progress}
    (addressable : IsAddressable source) (comesTo : ComesTo options source t p)
    (isString : t.kind = .string) :
    ∃ text, t.text.toList = '"' :: (text ++ ['"']) ∧ '"' ∉ text ∧ t.SpanTells source ∧
      t.span.fragment? source = some ('"' :: (text ++ ['"'])) ∧
      (text.length ≤ 32767 → (∀ c ∈ text, c.toNat ≤ 32767) →
        (∀ className bound, Step.term className (bound + 1) p =
          .ok () { p with
            stream := p.stream.advance
            code := p.code ++ (stringCommands text).toArray }) ∧
        p.code.toList ++ stringCommands text <+:
          (Step.reached
            (Step.wholeClass options (stepBound source) (.ofSource source))).code.toList ∧
        ∀ behind, readString (stringCommands text ++ behind) = some (text, behind)) ∧
      (32767 < text.length → (compileClass options source).result =
        .error (.token (.syntactic (.locate source "shorter string constant" t)))) ∧
      (text.length ≤ 32767 → (∃ c ∈ text, 32767 < c.toNat) →
        (compileClass options source).result =
          .error (.token (.syntactic (.locate source "character with code up to 32767" t)))) := by
  have more : t.kind ≠ .endOfFile := isString ▸ TokenKind.noConfusion
  rcases Token.exists_quoted (comesTo.mem_items more) isString with ⟨text, quoted, noQuote⟩
  have tells := addressable.readsInSpans.spanTells_of_mem (comesTo.mem_items more)
  rcases comesTo.goesOn with ⟨-, current, -⟩
  have term (className : String) (bound : Nat) :=
    Step.term_string className bound current isString
  -- An error quotes the source to which the stream belongs.
  have failed {expected : String} (refused : ∀ q,
      Step.stringConstant t q = Step.unexpected expected t q) :
      (compileClass options source).result =
        .error (.token (.syntactic (.locate source expected t))) := by
    rcases comesTo.standsAtPosition with ⟨position, stands⟩
    have result : (compileClass options source).result =
        .error (.token (p.stream.advance.unexpected expected t)) :=
      comesTo.result_of_failed fun className bound => (term className bound).trans (refused _)
    rwa [TokenStream.unexpected, stands.advance.sameSource] at result
  refine ⟨text, quoted, noQuote, tells, quoted ▸ tells.text, fun short small => ?_,
    fun long => ?_, fun short large => ?_⟩
  · have compiled (className : String) (bound : Nat) :=
      (term className bound).trans (Step.stringConstant_fits quoted ⟨short, small⟩)
    refine ⟨compiled, ?_, readString_append ⟨short, small⟩⟩
    have kept := comesTo.code_prefix compiled
    rwa [Array.toList_append] at kept
  · exact failed fun _ => Step.stringConstant_long quoted long
  · exact failed fun _ => Step.stringConstant_large quoted short large

/-- A text with the marks of a comment, a no-break space and a character of three bytes is kept, and
a character behind the first 65536 is too large. -/
theorem stringConstant_lossless_wide :
    let kept := "class A\x7bfunction void f()\x7bdo g(\"a//\u00a0日\");return;\x7d\x7d".toList
    let large := "class A\x7bfunction void f()\x7bdo g(\"a😀\");return;\x7d\x7d".toList
    IsAddressable kept ∧ IsAddressable large ∧
    (∃ p, ComesTo {} kept ⟨.string, "\"a//\u00a0日\"", ⟨31, 1, 32⟩⟩ p ∧
      (∀ className bound, Step.term className (bound + 1) p =
        .ok () { p with
          stream := p.stream.advance
          code := p.code ++ (stringCommands ['a', '/', '/', '\u00a0', '日']).toArray }) ∧
      readString (stringCommands ['a', '/', '/', '\u00a0', '日']) =
        some (['a', '/', '/', '\u00a0', '日'], [])) ∧
    (∃ p, ComesTo {} large ⟨.string, "\"a😀\"", ⟨31, 1, 32⟩⟩ p) ∧
      (compileClass {} large).result = .error (.token (.syntactic
        (.locate large "character with code up to 32767" ⟨.string, "\"a😀\"", ⟨31, 1, 32⟩⟩))) := by
  intro kept large
  have comesToKept : ∃ p, ComesTo {} kept ⟨.string, "\"a//\u00a0日\"", ⟨31, 1, 32⟩⟩ p := by
    decide +kernel
  have comesToLarge : ∃ p, ComesTo {} large ⟨.string, "\"a😀\"", ⟨31, 1, 32⟩⟩ p := by
    decide +kernel
  have keptFits : IsAddressable kept := by decide
  have largeFits : IsAddressable large := by decide
  refine ⟨keptFits, largeFits, ?_, comesToLarge, ?_⟩
  · rcases comesToKept with ⟨p, comesTo⟩
    rcases stringConstant_lossless keptFits comesTo rfl with
      ⟨text, quoted, -, -, -, fits, -, -⟩
    have content : Token.content ⟨.string, "\"a//\u00a0日\"", ⟨31, 1, 32⟩⟩ =
        ['a', '/', '/', '\u00a0', '日'] := by
      decide +kernel
    have isText := content.symm.trans (Token.content_of_quoted quoted)
    rw [← isText] at fits
    rcases fits (by decide) (by simp) with ⟨term, -, read⟩
    have readAll := read []
    rw [List.append_nil] at readAll
    exact ⟨p, comesTo, term, readAll⟩
  · rcases comesToLarge with ⟨p, comesTo⟩
    rcases stringConstant_lossless largeFits comesTo rfl with
      ⟨text, quoted, -, -, -, -, -, refused⟩
    have content : Token.content ⟨.string, "\"a😀\"", ⟨31, 1, 32⟩⟩ = ['a', '😀'] := by
      decide +kernel
    have isText := content.symm.trans (Token.content_of_quoted quoted)
    rw [← isText] at refused
    exact refused (by decide) (by simp)

end Jack
