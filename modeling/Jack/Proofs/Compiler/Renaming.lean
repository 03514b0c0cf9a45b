import Mathlib
import Jack.Proofs.Compiler.Language
import Jack.Proofs.Lexer.Spelling
import Jack.Proofs.Renaming.Code

namespace Jack

/-!
# Renaming the variables of a source

Variables are known by their places in a listing, so their names do not matter.
-/

/-- Whatever the lexer takes for an identifier is spelled as one. -/
theorem Lexes.hasIdentifiers {source : List Char} {c : ClassTree} (lexes : Lexes source c.lexemes) :
    c.HasIdentifiers := by
  intro name member
  rcases lexes.isSpelled member with isEnd | isSpelled
  · cases isEnd
  · exact isSpelled

/-- A renamed lexeme can be spelled, since an identifier gets the name of an identifier. -/
theorem Lexeme.Renamed.isSpelled {ρ : String → String} {l l' : Lexeme} (isRenaming : IsRenaming ρ)
    (renamed : Renamed ρ l l') (isSpelled : l.IsSpelled) : l'.IsSpelled := by
  cases renamed with
  | same => exact isSpelled
  | identifier name => exact isRenaming.identifier isSpelled

/-- A class with new names can be written. -/
theorem exists_lexes_rename {ρ : String → String} {source : List Char} {c : ClassTree}
    (isRenaming : IsRenaming ρ) (lexes : Lexes source c.lexemes) :
    ∃ source', Lexes source' (c.rename ρ).lexemes := by
  rw [(c.rename ρ).lexemes_eq_ownLexemes]
  refine exists_lexes fun l' member' => ?_
  rcases List.forall₂_iff_get.mp (c.ownLexemes_rename ρ) with ⟨length, renamed⟩
  rcases List.get_of_mem member' with ⟨⟨i, inRange'⟩, rfl⟩
  have inRange : i < c.ownLexemes.length := by rwa [length]
  refine (renamed i inRange inRange').isSpelled isRenaming ?_
  refine lexes.isSpelled_of_mem_dropLast ?_
  rw [c.lexemes_eq_ownLexemes, List.dropLast_concat]
  exact List.get_mem _ _

/-- The names of variables do not matter.  If the variables of a class that compiles get new names,
different ones for different ones, the class can still be written, and whatever is written so
compiles to the same listing.  The new names only have to leave alone the names in front of a dot
that are no variables. -/
theorem compileClass_rename {options : Options} {source : List Char} {listing : Listing}
    (compiled : (compileClass options source).result = .ok listing) :
    ∃ c : ClassTree, Lexes source c.lexemes ∧
      (∀ c' : ClassTree, Lexes source c'.lexemes → c' = c) ∧
      ∀ ρ : String → String, IsRenaming ρ → c.KeepsClasses ρ →
        Renamed ρ c.lexemes (c.rename ρ).lexemes ∧
        (∃ source', Lexes source' (c.rename ρ).lexemes) ∧
        ∀ source', Lexes source' (c.rename ρ).lexemes →
          (compileClass options source').result = .ok listing := by
  rcases compileClass_eq_ok_iff.mp compiled with ⟨c, lexes, acceptable, code⟩
  refine ⟨c, lexes, fun c' lexes' => lexes.tree_unique lexes', fun ρ isRenaming keeps => ?_⟩
  have identifiers := lexes.hasIdentifiers
  refine ⟨c.lexemes_rename ρ, exists_lexes_rename isRenaming lexes, fun source' lexes' => ?_⟩
  refine compileClass_eq_ok_iff.mpr ⟨c.rename ρ, lexes', ?_, ?_⟩
  · exact ClassTree.acceptable_rename identifiers isRenaming keeps acceptable
  · rw [code, ClassTree.code_rename identifiers isRenaming keeps acceptable]

/-- Exchange the names `x` and `y`. -/
def exchangeNames (name : String) : String :=
  if name = "x" then "y" else if name = "y" then "x" else name

/-- Exchanging two names is a renaming.  That it moves both at once shows that new names may be old
ones. -/
theorem isRenaming_exchangeNames : IsRenaming exchangeNames where
  identifier {name} isIdentifier := by
    have letter {c : Char} (isLetter : isLetter c = true)
        (notReserved : ∀ k : Keyword, k.text.toList ≠ [c]) : IsTextOf .identifier [c] :=
      .identifier isLetter (List.forall_mem_nil _) notReserved
    unfold exchangeNames
    split
    · exact letter (c := 'y') rfl fun k => by cases k <;> decide
    · split
      · exact letter (c := 'x') rfl fun k => by cases k <;> decide
      · exact isIdentifier
  injective {name name'} _ _ same := by
    have twice (name : String) : exchangeNames (exchangeNames name) = name := by
      by_cases isX : name = "x"
      · rw [isX]
        decide
      · by_cases isY : name = "y"
        · rw [isY]
          decide
        · simp only [exchangeNames, isX, isY, if_false]
    rw [← twice name, same, twice]

/-- A class in which a field, a local variable, a type, a method and its caller share two names. -/
def sharedNames : ClassTree where
  name := "A"
  members := [.field ⟨.named "y", "x", []⟩]
  subroutines := [⟨.method, some (.named "y"), "y", [], [⟨.named "y", "y", []⟩],
    .cons (.letVariable "y" (.chain (.plain "x") .nil))
      (.cons (.doCall (.invoke (.own "y") .nil))
        (.cons (.doCall (.invoke (.qualified "x" "y") .nil))
          (.cons (.doCall (.invoke (.qualified "B" "x") .nil))
            (.cons (.returnValue (some (.chain (.plain "y") .nil))) .nil))))⟩]

theorem lexes_sharedNames :
    Lexes
      "class A{field y x;method y y(){var y y;let y=x;do y();do x.y();do B.x();return y;}}".toList
      sharedNames.lexemes :=
  lexes_of_items (by decide +kernel)

/-- The class with the two names exchanged, wherever they are variables.  The method and the class
of the same names keep theirs. -/
def exchangedNames : ClassTree where
  name := "A"
  members := [.field ⟨.named "y", "y", []⟩]
  subroutines := [⟨.method, some (.named "y"), "y", [], [⟨.named "y", "x", []⟩],
    .cons (.letVariable "x" (.chain (.plain "y") .nil))
      (.cons (.doCall (.invoke (.own "y") .nil))
        (.cons (.doCall (.invoke (.qualified "y" "y") .nil))
          (.cons (.doCall (.invoke (.qualified "B" "x") .nil))
            (.cons (.returnValue (some (.chain (.plain "x") .nil))) .nil))))⟩]

theorem lexes_exchangedNames :
    Lexes
      "class A{field y y;method y y(){var y x;let x=y;do y();do y.y();do B.x();return x;}}".toList
      exchangedNames.lexemes :=
  lexes_of_items (by decide +kernel)

/-- The variables exchange their names, but types and subroutines do not. -/
theorem compileClass_rename_exchange :
    (compileClass {}
      "class A{field y x;method y y(){var y y;let y=x;do y();do x.y();do B.x();return y;}}".toList
      ).result = .ok #[.function "A.y" 1, .push .argument 0, .pop .pointer 0, .push .this 0,
        .pop .«local» 0, .push .pointer 0, .call "A.y" 1, .pop .temp 0, .push .this 0,
        .call "y.y" 1, .pop .temp 0, .call "B.x" 0, .pop .temp 0, .push .«local» 0, .«return»] ∧
    (compileClass {}
      "class A{field y y;method y y(){var y x;let x=y;do y();do y.y();do B.x();return x;}}".toList
      ).result = .ok #[.function "A.y" 1, .push .argument 0, .pop .pointer 0, .push .this 0,
        .pop .«local» 0, .push .pointer 0, .call "A.y" 1, .pop .temp 0, .push .this 0,
        .call "y.y" 1, .pop .temp 0, .call "B.x" 0, .pop .temp 0, .push .«local» 0, .«return»] := by
  have compiled := compileClass_of_emitted {}
    "class A{field y x;method y y(){var y y;let y=x;do y();do x.y();do B.x();return y;}}".toList
    (by cbv)
  have exchanged : sharedNames.rename exchangeNames = exchangedNames := by cbv
  rcases compileClass_rename compiled with ⟨c, -, unique, renamed⟩
  cases unique _ lexes_sharedNames
  have keeps : sharedNames.KeepsClasses exchangeNames := by
    unfold ClassTree.KeepsClasses
    decide
  rcases renamed exchangeNames isRenaming_exchangeNames keeps with ⟨-, -, same⟩
  exact ⟨compiled, same _ (exchanged ▸ lexes_exchangedNames)⟩

end Jack
