import Mathlib
import Jack.Proofs.Grammar.Follow

namespace Jack

open Computability

/-!
# Languages and their first lexemes

What may stand in front of a compilation, from its current token to the end of the source, is a
language of lexemes.  The forms of the grammar are put together from smaller languages by
concatenation, choice and repetition.  `Narrows` says that one lexeme is enough to tell which part
of a language is meant; the grammar allows this wherever a function of the compiler decides.
-/

/-- The sequences that are written by the trees of a form. -/
def languageOf {τ : Type} (lexemes : τ → List Lexeme) : Language Lexeme :=
  {w | ∃ tree, lexemes tree = w}

/-- One lexeme of an allowed kind. -/
def single (allowed : TokenKind → Bool) : Language Lexeme :=
  {w | ∃ l, allowed l.kind = true ∧ w = [l]}

/-- One lexeme of a given kind. -/
def ofKind (kind : TokenKind) : Language Lexeme :=
  single fun k => k = kind

/-- At least one member, and separators between the members. -/
def separated (separator : TokenKind) (members : Language Lexeme) : Language Lexeme :=
  members * (ofKind separator * members)∗

/-- The sequence is the front of a member of the language. -/
def Viable (L : Language Lexeme) (w : List Lexeme) : Prop :=
  ∃ v, w ++ v ∈ L

/-- Every member begins with a lexeme of an allowed kind. -/
def BeginsWith (allowed : TokenKind → Bool) (L : Language Lexeme) : Prop :=
  ∀ w ∈ L, Begins allowed w

/-- The language has a member. -/
class Productive (L : Language Lexeme) : Prop where
  viable : Viable L []

variable {L M K : Language Lexeme} {allowed : TokenKind → Bool} {l : Lexeme} {w : List Lexeme}

theorem lexemes_mem_languageOf {τ : Type} {lexemes : τ → List Lexeme} (tree : τ) :
    lexemes tree ∈ languageOf lexemes := ⟨tree, rfl⟩

theorem mem_single : w ∈ single allowed ↔ ∃ l, allowed l.kind = true ∧ w = [l] := Iff.rfl

theorem mem_ofKind {kind : TokenKind} : w ∈ ofKind kind ↔ ∃ l, l.kind = kind ∧ w = [l] := by
  simp only [ofKind, mem_single, decide_eq_true_eq]

@[simp] theorem cons_mem_single_mul :
    l :: w ∈ single allowed * L ↔ allowed l.kind = true ∧ w ∈ L := by
  constructor
  · intro member
    rcases Language.mem_mul.mp member with ⟨_, ⟨l', kind, rfl⟩, v, rest, same⟩
    cases same
    exact ⟨kind, rest⟩
  · rintro ⟨kind, rest⟩
    exact Language.append_mem_mul (a := [l]) ⟨l, kind, rfl⟩ rest

/-- A lexeme of a kind is the first one, and the rest is a member of the other language. -/
@[simp] theorem cons_mem_ofKind_mul {kind : TokenKind} :
    l :: w ∈ ofKind kind * L ↔ l.kind = kind ∧ w ∈ L := by
  rw [ofKind, cons_mem_single_mul, decide_eq_true_eq]

@[simp] theorem singleton_mem_ofKind {kind : TokenKind} : [l] ∈ ofKind kind ↔ l.kind = kind := by
  simp only [mem_ofKind, List.cons.injEq, and_true, exists_eq_right']

/-- A lexeme and the rest of a member. -/
theorem mem_ofKind_mul {kind : TokenKind} :
    w ∈ ofKind kind * L ↔ ∃ l v, l.kind = kind ∧ v ∈ L ∧ w = l :: v := by
  constructor
  · intro member
    rcases Language.mem_mul.mp member with ⟨_, one, v, rest, rfl⟩
    rcases mem_ofKind.mp one with ⟨l, kind, rfl⟩
    exact ⟨l, v, kind, rest, rfl⟩
  · rintro ⟨l, v, kind, rest, rfl⟩
    exact cons_mem_ofKind_mul.mpr ⟨kind, rest⟩

/-- A tree is written in front, with a member of the other language behind it. -/
theorem mem_languageOf_mul {τ : Type} {lexemes : τ → List Lexeme} :
    w ∈ languageOf lexemes * L ↔ ∃ tree, ∃ v ∈ L, w = lexemes tree ++ v := by
  rw [Language.mem_mul]
  constructor
  · rintro ⟨_, ⟨tree, rfl⟩, v, member, rfl⟩
    exact ⟨tree, v, member, rfl⟩
  · rintro ⟨tree, v, member, rfl⟩
    exact ⟨_, ⟨tree, rfl⟩, v, member, rfl⟩

/-- The forms of a list of trees are repetitions of the form of a tree. -/
theorem languageOf_flatMap {τ : Type} (lexemes : τ → List Lexeme) :
    languageOf (List.flatMap lexemes) = (languageOf lexemes)∗ := by
  apply Language.ext
  intro w
  rw [Language.mem_kstar]
  constructor
  · rintro ⟨trees, rfl⟩
    refine ⟨trees.map lexemes, List.flatMap_def .., fun v member => ?_⟩
    rcases List.mem_map.mp member with ⟨tree, -, same⟩
    exact ⟨tree, same⟩
  · rintro ⟨parts, rfl, members⟩
    induction parts with
    | nil => exact ⟨[], rfl⟩
    | cons first parts inductionHypothesis =>
        rcases List.forall_mem_cons.mp members with ⟨⟨tree, written⟩, others⟩
        rcases inductionHypothesis others with ⟨trees, same⟩
        exact ⟨tree :: trees, by rw [List.flatMap_cons, written, same, List.flatten_cons]⟩

/-! ## Languages with members -/

/-- What starts a member of a language starts one of every larger language. -/
theorem Viable.mono {L M : Language Lexeme} (viable : Viable L w) (le : L ≤ M) : Viable M w := by
  rcases viable with ⟨v, member⟩
  exact ⟨v, le member⟩

/-- Nothing has been read, and something is possible. -/
theorem viable_nil [productive : Productive L] : Viable L [] := productive.viable

theorem productive_of_mem (member : w ∈ L) : Productive L := ⟨w, member⟩

instance {τ : Type} [Nonempty τ] (lexemes : τ → List Lexeme) : Productive (languageOf lexemes) :=
  ⟨_, lexemes_mem_languageOf (Classical.arbitrary τ)⟩

instance (kind : TokenKind) : Productive (ofKind kind) := by
  have exists_lexeme : ∃ l : Lexeme, l.kind = kind := by
    cases kind with
    | symbol p => exact ⟨.symbol p, rfl⟩
    | keyword k => exact ⟨.keyword k, rfl⟩
    | identifier => exact ⟨.identifier "", rfl⟩
    | integer => exact ⟨.integer "", rfl⟩
    | string => exact ⟨.string "", rfl⟩
    | endOfFile => exact ⟨.endOfFile, rfl⟩
  rcases exists_lexeme with ⟨l, kind⟩
  exact productive_of_mem (singleton_mem_ofKind.mpr kind)

instance : Productive 1 := productive_of_mem Language.nil_mem_one

instance [Productive L] [Productive M] : Productive (L * M) := by
  rcases viable_nil (L := L) with ⟨v, first⟩
  rcases viable_nil (L := M) with ⟨v', second⟩
  exact productive_of_mem (Language.append_mem_mul first second)

instance [Productive L] : Productive (L + M) := by
  rcases viable_nil (L := L) with ⟨v, member⟩
  exact productive_of_mem ((Language.mem_add L M v).mpr (.inl member))

instance : Productive L∗ := productive_of_mem (Language.nil_mem_kstar L)

instance (separator : TokenKind) [Productive L] : Productive (separated separator L) := by
  unfold separated
  infer_instance

/-- One lexeme has been read, and something is possible behind it. -/
theorem viable_of_kind {kind : TokenKind} [Productive L] (same : l.kind = kind) :
    Viable (ofKind kind * L) [l] := by
  rcases viable_nil (L := L) with ⟨v, member⟩
  exact ⟨v, cons_mem_ofKind_mul.mpr ⟨same, member⟩⟩

/-! ## First lexemes -/

/-- More kinds may be allowed. -/
theorem BeginsWith.mono {wider : TokenKind → Bool} (begins : BeginsWith allowed L)
    (weaker : ∀ k, allowed k = true → wider k = true) : BeginsWith wider L :=
  fun w member => (begins w member).mono weaker

/-- The beginning of a member is that of its first part.  The first part is not empty, since it
begins with a lexeme. -/
theorem BeginsWith.mul (begins : BeginsWith allowed L) : BeginsWith allowed (L * M) := by
  intro w member
  rcases Language.mem_mul.mp member with ⟨a, first, b, -, rfl⟩
  rcases begins a first with ⟨l, rest, rfl, kind⟩
  exact begins_cons.mpr kind

theorem BeginsWith.add (begins : BeginsWith allowed L) (begins' : BeginsWith allowed M) :
    BeginsWith allowed (L + M) := by
  intro w member
  rcases (Language.mem_add L M w).mp member with left | right
  · exact begins w left
  · exact begins' w right

theorem beginsWith_iSup {ι : Type} {forms : ι → Language Lexeme}
    (begins : ∀ i, BeginsWith allowed (forms i)) : BeginsWith allowed (⨆ i, forms i) := by
  intro w member
  rcases Language.mem_iSup.mp member with ⟨i, member⟩
  exact begins i w member

theorem beginsWith_single (allowed : TokenKind → Bool) : BeginsWith allowed (single allowed) := by
  rintro _ ⟨l, kind, rfl⟩
  exact begins_cons.mpr kind

theorem beginsWith_ofKind {kind : TokenKind} (isAllowed : allowed kind = true) :
    BeginsWith allowed (ofKind kind) :=
  (beginsWith_single _).mono fun _ same => of_decide_eq_true same ▸ isAllowed

/-- Repetitions are closed under one more member in front. -/
theorem append_mem_kstar {v : List Lexeme} (first : w ∈ L) (rest : v ∈ L∗) : w ++ v ∈ L∗ := by
  rw [← Language.one_add_self_mul_kstar_eq_kstar]
  exact (Language.mem_add 1 (L * L∗) _).mpr (.inr (Language.append_mem_mul first rest))

/-- A language that is closed under one more member in front holds all repetitions. -/
theorem kstar_subset (nil : [] ∈ M) (cons : ∀ w ∈ L, ∀ v ∈ M, w ++ v ∈ M) : L∗ ≤ M := by
  apply kstar_le_of_mul_le_right
  · rintro _ rfl
    exact nil
  · intro w member
    rcases Language.mem_mul.mp member with ⟨a, first, b, rest, rfl⟩
    exact cons a first b rest

/-- A repetition is over, or there is one more member.  This is how the loops of the compiler see
it. -/
theorem kstar_mul_eq : L∗ * K = K + L * (L∗ * K) := by
  conv_lhs => rw [← Language.one_add_self_mul_kstar_eq_kstar, add_mul, one_mul, mul_assoc]

/-- Behind a member, a separator promises another one. -/
theorem kstar_separated_mul (separator : TokenKind) :
    (ofKind separator * L)∗ * K = K + ofKind separator * (separated separator L * K) := by
  rw [kstar_mul_eq, separated, mul_assoc, mul_assoc]

/-- A repetition begins with its first member, or with what is behind it. -/
theorem BeginsWith.kstar_mul (begins : BeginsWith allowed L) (begins' : BeginsWith allowed K) :
    BeginsWith allowed (L∗ * K) := by
  rw [kstar_mul_eq]
  exact begins'.add begins.mul

/-- A lexeme of another kind does not begin a member. -/
theorem BeginsWith.not_viable (begins : BeginsWith allowed L) (refused : allowed l.kind = false) :
    ¬ Viable L [l] := by
  rintro ⟨v, member⟩
  have kind := begins_cons.mp (begins _ member)
  rw [refused] at kind
  exact Bool.false_ne_true kind

/-- A language in which every member begins with something has no empty member. -/
theorem BeginsWith.ne_nil (begins : BeginsWith allowed L) : [] ∉ L := by
  intro member
  rcases begins [] member with ⟨l, rest, same, -⟩
  exact List.cons_ne_nil l rest same.symm

/-! ## Choices that one lexeme makes -/

/-- In front of the lexeme, only a part of the language is meant. -/
structure Narrows (l : Lexeme) (wide narrow : Language Lexeme) : Prop where
  le : narrow ≤ wide
  mem : ∀ v, l :: v ∈ wide → l :: v ∈ narrow

namespace Narrows

/-- A lexeme narrows down in several steps. -/
theorem trans {wide middle narrow : Language Lexeme} (first : Narrows l wide middle)
    (second : Narrows l middle narrow) : Narrows l wide narrow where
  le := second.le.trans first.le
  mem v member := second.mem v (first.mem v member)

/-- A lexeme that is not possible in the second language chooses the first one. -/
theorem left (other : ¬ Viable M [l]) : Narrows l (L + M) L where
  le w member := (Language.mem_add L M w).mpr (.inl member)
  mem v member :=
    ((Language.mem_add L M _).mp member).resolve_right fun right => other ⟨v, right⟩

/-- A lexeme that is not possible in the first language chooses the second one. -/
theorem right (other : ¬ Viable L [l]) : Narrows l (L + M) M where
  le w member := (Language.mem_add L M w).mpr (.inr member)
  mem v member :=
    ((Language.mem_add L M _).mp member).resolve_left fun left => other ⟨v, left⟩

/-- The choice in front is not influenced by what comes behind. -/
theorem mul_right {wide narrow : Language Lexeme} (narrows : Narrows l wide narrow)
    (notEmpty : [] ∉ wide) : Narrows l (wide * K) (narrow * K) where
  le := mul_le_mul_left narrows.le K
  mem v member := by
    rcases Language.mem_mul.mp member with ⟨a, first, b, second, same⟩
    cases a with
    | nil => exact absurd first notEmpty
    | cons l' rest =>
        cases same
        exact Language.append_mem_mul (narrows.mem rest first) second

/-- The repetition goes on. -/
theorem repeats (other : ¬ Viable K [l]) :
    Narrows l (L∗ * K) (L * (L∗ * K)) := by
  have unfolded : Narrows l (K + L * (L∗ * K)) (L * (L∗ * K)) := right other
  rwa [← kstar_mul_eq] at unfolded

/-- The repetition ends. -/
theorem ends (begins : BeginsWith allowed L) (refused : allowed l.kind = false) :
    Narrows l (L∗ * K) K := by
  rw [kstar_mul_eq]
  exact left (begins.mul.not_viable refused)

end Narrows

/-- The kind of the first lexeme tells the form. -/
def Selects {ι : Type} (select : TokenKind → Option ι) (forms : ι → Language Lexeme) : Prop :=
  ∀ i, ∀ w ∈ forms i, ∃ l rest, w = l :: rest ∧ select l.kind = some i

/-- Forms that start with lexemes of different kinds are told apart by them. -/
theorem selects_ofKind_mul {ι : Type} {select : TokenKind → Option ι} {kind : ι → TokenKind}
    (rests : ι → Language Lexeme) (selected : ∀ i, select (kind i) = some i) :
    Selects select fun i => ofKind (kind i) * rests i := by
  intro i w member
  rcases mem_ofKind_mul.mp member with ⟨l, v, same, -, rfl⟩
  exact ⟨l, v, rfl, same ▸ selected i⟩

namespace Selects

variable {ι : Type} {select : TokenKind → Option ι} {forms : ι → Language Lexeme}

/-- All forms together begin with what selects one of them. -/
theorem beginsWith (selects : Selects select forms) :
    BeginsWith (fun k => (select k).isSome) (⨆ i, forms i) := by
  apply beginsWith_iSup
  intro i w member
  rcases selects i w member with ⟨l, rest, rfl, selected⟩
  rw [begins_cons, selected, Option.isSome_some]

/-- What selects a form narrows all forms down to it. -/
theorem narrows (selects : Selects select forms) {i : ι} (selected : select l.kind = some i) :
    Narrows l (⨆ i, forms i) (forms i) where
  le w member := Language.mem_iSup.mpr ⟨i, member⟩
  mem v member := by
    rcases Language.mem_iSup.mp member with ⟨i', member⟩
    rcases selects i' _ member with ⟨l', rest, same, selected'⟩
    cases same
    rw [selected] at selected'
    cases selected'
    exact member

/-- The same with something behind the form. -/
theorem narrows_mul (selects : Selects select forms) {i : ι} (selected : select l.kind = some i) :
    Narrows l ((⨆ i, forms i) * K) (forms i * K) :=
  (selects.narrows selected).mul_right selects.beginsWith.ne_nil

/-- A repetition of forms goes on with the form that the lexeme tells. -/
theorem narrows_kstar_mul (selects : Selects select forms) {i : ι}
    (selected : select l.kind = some i) (other : ¬ Viable K [l]) :
    Narrows l ((⨆ i, forms i)∗ * K) (forms i * ((⨆ i, forms i)∗ * K)) :=
  (Narrows.repeats other).trans (selects.narrows_mul selected)

/-- A repetition of forms ends in front of a lexeme that tells no form. -/
theorem narrows_end (selects : Selects select forms) (refused : select l.kind = none) :
    Narrows l ((⨆ i, forms i)∗ * K) K := by
  apply Narrows.ends selects.beginsWith
  rw [refused, Option.isSome_none]

end Selects

end Jack
