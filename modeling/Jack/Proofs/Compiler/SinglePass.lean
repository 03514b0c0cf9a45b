import Mathlib
import Jack.Proofs.Compiler.Language
import Jack.Proofs.Translation.Blocks

namespace Jack

/-!
# The single pass is the translation of the tree

Tokens are consumed, names are declared, label numbers are given away and commands are emitted in
one pass.  What it emits is the code of the syntax tree, told apart from reading it.
-/

/-- The single pass computes the translation of the syntax tree: there is exactly one tree, the
listing is the code of that tree, and this code has one block for each subroutine, in their order.
A block begins with its only `function` command and ends with its only `return` command. -/
theorem compileClass_eq_translation {options : Options} {source : List Char} {listing : Listing}
    (compiled : (compileClass options source).result = .ok listing) :
    ∃ (tokens : List Token) (c : ClassTree),
      (Lexer.ofSource source).items = tokens.map .ok ∧
      (∀ c' : ClassTree, tokens.map Token.lexeme = c'.lexemes ↔ c' = c) ∧
      listing.toList = c.code options ∧
      c.numbered.map Prod.snd = c.subroutines ∧
      c.code options = c.numbered.flatMap (fun block => block.2.code options c block.1) ∧
      ∀ (n : Nat) (s : Subroutine), ∃ inner : List Command,
        s.code options c n =
          .function (c.name ++ "." ++ s.name)
              (UInt16.ofNat (countKind .«local» (s.declarations c.name))) ::
            (inner ++ [.«return»]) ∧
        inner.all Command.isInner = true ∧
        inner =
          (match s.kind with
            | .constructor =>
              [.push .constant (UInt16.ofNat (countKind .field c.declarations)),
                .call "Memory.alloc" 1, .pop .pointer 0]
            | .method => [.push .argument 0, .pop .pointer 0]
            | .function => []) ++
          (s.statements.code (c.namesIn s) (c.frame options n) options.foldTailReturn (n + 1) ++
            ((if s.statements.jumps options.foldTailReturn || !options.foldTailReturn then
                [.label (Code.endLabel n)] else []) ++
              (if s.isVoid then [.push .constant 0] else []))) := by
  rcases compileClass_eq_ok_iff.mp compiled with ⟨c, ⟨tokens, items, written⟩, -, code⟩
  refine ⟨tokens, c, items, fun c' => ?_, code, map_snd_numberedBehind 0 c.subroutines,
    c.code_eq_flatMap options, fun n s => ⟨s.inner options c n, s.code_eq_inner options c n,
      s.inner_isInner options c n, rfl⟩⟩
  rw [written]
  constructor
  · intro same
    exact ClassTree.lexemes_injective same.symm
  · intro same
    rw [same]

/-- A constructor of a class with a field. -/
theorem compileClass_eq_translation_constructor :
    (compileClass {}
        "class A{field int x;constructor A new(){let x=1;return this;}}".toList).result =
        .ok #[.function "A.new" 0, .push .constant 1, .call "Memory.alloc" 1, .pop .pointer 0,
          .push .constant 1, .pop .this 0, .push .pointer 0, .«return»] ∧
      ∃ c : ClassTree,
        Lexes "class A{field int x;constructor A new(){let x=1;return this;}}".toList c.lexemes ∧
        c.code {} = [.function "A.new" 0, .push .constant 1, .call "Memory.alloc" 1,
          .pop .pointer 0, .push .constant 1, .pop .this 0, .push .pointer 0, .«return»] := by
  have compiled := compileClass_of_emitted {}
    "class A{field int x;constructor A new(){let x=1;return this;}}".toList (by cbv)
  rcases compileClass_eq_translation compiled with ⟨tokens, c, items, tree, code, -⟩
  exact ⟨compiled, c, ⟨tokens, items, (tree c).mpr rfl⟩, code.symm⟩

end Jack
