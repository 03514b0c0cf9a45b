import Mathlib
import Jack.Proofs.Lexer.Spans
import Jack.Proofs.Redeclaration.Class
import Jack.Proofs.Redeclaration.Strict

namespace Jack

/-!
# Redeclarations are told from the tokens

Strict declarations add nothing to a compilation but one more reason to stop.  The redeclarations
that are recorded otherwise are those of the tokens that could be compiled: a name is recorded if it
has an earlier declaration in its own scope, together with the symbol that the latest of these made.
A name that hides one of the other scope is not recorded.

What is recorded shows in the log, as warnings that are spelled out in `Redeclaration.warning`.
-/

/-- The redeclarations of a source, told from its tokens and from where its compilation ends: they
are found by a scan of all tokens, or of the tokens in front of the error. -/
def FoundInTokens (source : List Char) (found : List Redeclaration) :
    Except CompileError Listing → Prop
  | .ok _ => ∃ tokens, (Lexer.ofSource source).items = tokens.map .ok ∧ found = (scan tokens).found
  | .error e => ∃ item : Item, e.IsAt item ∧ item.StandsBehind source found

/-- Every redeclaration stands at a token of the source that spells its name. -/
theorem FoundInTokens.exists_token {source : List Char} {found : List Redeclaration}
    {result : Except CompileError Listing} (inTokens : FoundInTokens source found result)
    {r : Redeclaration} (member : r ∈ found) :
    ∃ t, .ok t ∈ (Lexer.ofSource source).items ∧ t.text = r.name ∧ t.start = r.place := by
  cases result with
  | ok listing =>
      rcases inTokens with ⟨tokens, items, rfl⟩
      rcases exists_token_of_found member with ⟨t, scanned, same⟩
      exact ⟨t, items ▸ List.mem_map_of_mem scanned, same⟩
  | error e =>
      rcases inTokens with ⟨item, -, before, behind, items, rfl⟩
      rcases exists_token_of_found member with ⟨t, scanned, same⟩
      exact ⟨t, items ▸ List.mem_append_left _ (List.mem_map_of_mem scanned), same⟩

/-- The redeclarations of a source are found by a scan of its tokens.  A compilation that is not
strict warns of each of them, in their order and of nothing else, by name and place and by the
symbol that is replaced.  A strict one fails for the first of them, or has the same result if there
is none.

The offsets of the source have to be words, and then names and places are also those that the spans
of the tokens tell.  Nothing is said about longer sources. -/
theorem compileClass_redeclarations {source : List Char} (addressable : IsAddressable source)
    (foldTailReturn : Bool) :
    let lenient := compileClass ⟨false, foldTailReturn⟩ source
    let strict := compileClass ⟨true, foldTailReturn⟩ source
    ∃ found : List Redeclaration,
      FoundInTokens source found lenient.result ∧
      warnings lenient.events = found.map Redeclaration.warning ∧
      (match found with
        | [] => strict.result = lenient.result
        | r :: _ => strict.result = .error (.redeclared r.name r.place)) ∧
      ∀ r ∈ found, ∃ t, .ok t ∈ (Lexer.ofSource source).items ∧ t.SpanTells source ∧
        t.text = r.name ∧ t.start = r.place := by
  intro lenient strict
  have isLenient : (Options.mk false foldTailReturn).strictDeclarations = false := rfl
  have isStrict : (Options.mk true foldTailReturn).strictDeclarations = true := rfl
  have inTokens : FoundInTokens source (redeclarations lenient.events) lenient.result :=
    compileClass_finds ⟨false, foldTailReturn⟩ source
  refine ⟨redeclarations lenient.events, inTokens, warnings_eq _,
    compileClass_stopsAtFirst isStrict isLenient rfl source, fun r member => ?_⟩
  rcases inTokens.exists_token member with ⟨t, isItem, same⟩
  exact ⟨t, isItem, addressable.readsInSpans.spanTells_of_mem isItem, same⟩

/-- The second parameter hides a field without a warning, and the local variable replaces it. -/
theorem compileClass_redeclarations_hiding :
    let source :=
      "class A\x7bfield int a;method void f(int b,A a)\x7bvar char a;return;\x7d\x7d".toList
    IsAddressable source ∧
      warnings (compileClass ⟨false, false⟩ source).events =
        [⟨.warn, "'a' redeclared at offset 54 (line 1, column 55), replacing Argument A 2"⟩] ∧
      (compileClass ⟨true, false⟩ source).result = .error (.redeclared "a" ⟨54, 1, 55⟩) := by
  intro source
  have addressable : IsAddressable source := by decide
  have compiles : (compileClass ⟨false, false⟩ source).result.isOk = true := by decide +kernel
  have scanned : (scan ((Lexer.ofSource source).items.filterMap Except.toOption)).found =
      [⟨"a", ⟨54, 1, 55⟩, ⟨"a", "A", .argument, 2⟩⟩] := by
    decide +kernel
  have text : [Redeclaration.mk "a" ⟨54, 1, 55⟩ ⟨"a", "A", .argument, 2⟩].map
      Redeclaration.warning =
        [⟨.warn, "'a' redeclared at offset 54 (line 1, column 55), replacing Argument A 2"⟩] := by
    decide +kernel
  clear_value source
  rcases compileClass_redeclarations addressable false with
    ⟨found, inTokens, warned, stops, -⟩
  cases result : (compileClass ⟨false, false⟩ source).result with
  | error e =>
      rw [result] at compiles
      cases compiles
  | ok listing =>
      rw [result] at inTokens
      rcases inTokens with ⟨tokens, items, isFound⟩
      have same : (Lexer.ofSource source).items.filterMap Except.toOption = tokens := by
        rw [items, List.filterMap_map]
        exact List.filterMap_some
      rw [same, ← isFound] at scanned
      rw [scanned] at warned stops
      exact ⟨addressable, warned.trans text, stops⟩

end Jack
