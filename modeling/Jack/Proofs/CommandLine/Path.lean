import Jack.CommandLine.Path

namespace Jack

/-!
# Paths with another extension

Where a program writes its output is told from the path of its source: the last name in the path
gets another extension.  `Path.Replaces` says what this means without taking the path apart, and
`Path.replaces_replaceExtension` that it is what the program does.
-/

namespace Path

/-- Slashes, some of them with a single dot behind, which name nothing. -/
def IsUnnamed (text : List Char) : Prop :=
  ∃ pieces : List (List Char), (∀ piece ∈ pieces, piece = ['/'] ∨ piece = ['/', '.']) ∧
    text = pieces.flatten

/-- The part of a path in front of a name. -/
def IsDirectory (text : List Char) : Prop := text = [] ∨ text.getLast? = some '/'

/-- The path ends with a name, behind which nothing else is named.  Single and double dots are no
names. -/
structure EndsWith (path directory name behind : List Char) : Prop where
  split : path = directory ++ (name ++ behind)
  isDirectory : IsDirectory directory
  noSlash : '/' ∉ name
  isName : name ≠ [] ∧ name ≠ ['.'] ∧ name ≠ ['.', '.']
  isUnnamed : IsUnnamed behind

/-- A path and the same path with another extension. -/
inductive Replaces (extension path : List Char) : List Char → Prop
  /-- The path has no name at its end. -/
  | unnamed {front behind : List Char} (split : path = front ++ behind)
    (noName : front = [] ∨ front = ['.'] ∨
      ∃ directory, IsDirectory directory ∧ front = directory ++ ['.', '.'])
    (isUnnamed : IsUnnamed behind) : Replaces extension path path
  /-- The name has no extension: it has no dot, apart from its first character. -/
  | added {directory name behind : List Char} (ends : EndsWith path directory name behind)
    (noExtension : '.' ∉ name.tail) :
    Replaces extension path (directory ++ (name ++ '.' :: extension))
  /-- The name has an extension behind its last dot. -/
  | replaced {directory stem old behind : List Char}
    (ends : EndsWith path directory (stem ++ '.' :: old) behind) (isStem : stem ≠ [])
    (last : '.' ∉ old) (staysName : stem ≠ ['.'] ∨ behind ≠ []) :
    Replaces extension path (directory ++ (stem ++ '.' :: extension))
  /-- Without its extension, the name leads to the parent directory. -/
  | parent {directory old : List Char} (ends : EndsWith path directory ('.' :: '.' :: old) [])
    (last : '.' ∉ old) : Replaces extension path (directory ++ ['.', '.'])

/-- From its end, a directory begins with a slash. -/
theorem IsDirectory.reversed {text : List Char} (isDirectory : IsDirectory text) :
    text.reverse = [] ∨ text.reverse.head? = some '/' := by
  rcases isDirectory with rfl | isSlash
  · exact .inl rfl
  · exact .inr (List.head?_reverse.trans isSlash)

theorem isUnnamed_nil : IsUnnamed [] := ⟨[], nofun, rfl⟩

/-- Slashes and single dots behind slashes name nothing, and neither do more of them. -/
theorem IsUnnamed.append {text piece : List Char} (isUnnamed : IsUnnamed text)
    (isPiece : piece = ['/'] ∨ piece = ['/', '.']) : IsUnnamed (text ++ piece) := by
  rcases isUnnamed with ⟨pieces, each, rfl⟩
  refine ⟨pieces ++ [piece], fun other member => ?_, by rw [List.flatten_concat]⟩
  rcases List.mem_append.mp member with inPieces | isLast
  · exact each other inPieces
  · rw [List.mem_singleton.mp isLast]
    exact isPiece

/-- What is dropped from a path names nothing, and a single dot may be dropped in front of it. -/
theorem dropUnnamed_drops (reversed : List Char) :
    ∃ behind, IsUnnamed behind ∧
      (reversed.reverse = (dropUnnamed reversed).reverse ++ behind ∨
        dropUnnamed reversed = [] ∧ reversed.reverse = '.' :: behind) := by
  have goesOn {rest piece : List Char} (isPiece : piece = ['/'] ∨ piece = ['/', '.'])
      (dropped : ∃ behind, IsUnnamed behind ∧
        (rest.reverse = (dropUnnamed rest).reverse ++ behind ∨
          dropUnnamed rest = [] ∧ rest.reverse = '.' :: behind)) :
      ∃ behind, IsUnnamed behind ∧
        (rest.reverse ++ piece = (dropUnnamed rest).reverse ++ behind ∨
          dropUnnamed rest = [] ∧ rest.reverse ++ piece = '.' :: behind) := by
    rcases dropped with ⟨behind, isUnnamed, split | ⟨nothing, split⟩⟩
    · exact ⟨behind ++ piece, isUnnamed.append isPiece, .inl (by rw [split, List.append_assoc])⟩
    · exact ⟨behind ++ piece, isUnnamed.append isPiece, .inr ⟨nothing, by rw [split]; rfl⟩⟩
  fun_induction dropUnnamed reversed with
  | case1 rest inductionHypothesis =>
      rw [List.reverse_cons]
      exact goesOn (.inl rfl) inductionHypothesis
  | case2 rest inductionHypothesis =>
      rw [List.reverse_cons, List.reverse_cons, List.append_assoc]
      exact goesOn (.inr rfl) inductionHypothesis
  | case3 => exact ⟨[], isUnnamed_nil, .inr ⟨rfl, rfl⟩⟩
  | case4 reversed _ _ _ => exact ⟨[], isUnnamed_nil, .inl (List.append_nil _).symm⟩

/-- Neither a slash nor a single dot is left at the end. -/
theorem dropUnnamed_stops (reversed : List Char) :
    (∀ rest, dropUnnamed reversed ≠ '/' :: rest) ∧
      (∀ rest, dropUnnamed reversed ≠ '.' :: '/' :: rest) ∧ dropUnnamed reversed ≠ ['.'] := by
  fun_induction dropUnnamed reversed with
  | case1 rest inductionHypothesis => exact inductionHypothesis
  | case2 rest inductionHypothesis => exact inductionHypothesis
  | case3 => exact ⟨nofun, nofun, nofun⟩
  | case4 reversed noSlash noDot notOneDot => exact ⟨noSlash, noDot, notOneDot⟩

/-- A text is split in front of the last occurrence of a character. -/
theorem split_at_last (c : Char) (text : List Char) :
    ∃ front behind, text.reverse.dropWhile (· ≠ c) = front ∧
      (text.reverse.takeWhile (· ≠ c)).reverse = behind ∧ text = front.reverse ++ behind ∧
      c ∉ behind ∧ (front = [] ∨ front.head? = some c) := by
  refine ⟨_, _, rfl, rfl, ?_, ?_, ?_⟩
  · rw [← List.reverse_append, List.takeWhile_append_dropWhile, List.reverse_reverse]
  · intro member
    have passed := List.all_eq_true.mp List.all_takeWhile c (List.mem_reverse.mp member)
    exact absurd rfl (of_decide_eq_true passed)
  · have first := List.head?_dropWhile_not (· ≠ c) text.reverse
    cases front : text.reverse.dropWhile (· ≠ c) with
    | nil => exact .inl rfl
    | cons d rest =>
        rw [front] at first
        exact .inr (congrArg some (Decidable.of_not_not (of_decide_eq_false first)))

/-- A name without an extension has no dot, apart from its first character. -/
theorem not_mem_tail_of_stem? {name : List Char} (noStem : stem? name = none) :
    '.' ∉ name.tail := by
  rcases split_at_last '.' name with ⟨front, behind, isFront, -, split, noDot, first⟩
  rw [stem?, isFront] at noStem
  cases front with
  | nil =>
      rw [split]
      exact fun member => noDot (List.mem_of_mem_tail member)
  | cons d rest =>
      rcases first with isNil | isDot
      · cases isNil
      · cases isDot
        cases rest with
        | nil =>
            rw [split]
            exact noDot
        | cons c rest => cases noStem

/-- A name with a stem is the stem, a dot and an extension without a dot. -/
theorem split_of_stem? {name stem : List Char} (isStem : stem? name = some stem) :
    ∃ old, name = stem ++ '.' :: old ∧ stem ≠ [] ∧ '.' ∉ old := by
  rcases split_at_last '.' name with ⟨front, old, isFront, -, split, noDot, -⟩
  rw [stem?, isFront] at isStem
  split at isStem
  · rename_i c rest
    cases isStem
    refine ⟨old, ?_, List.reverse_ne_nil_iff.mpr (List.cons_ne_nil _ _), noDot⟩
    rw [split, List.reverse_cons, List.append_assoc]
    rfl
  · cases isStem

/-- What is left of a path ends with a name, or nothing is left of it. -/
theorem endsWith_of_dropped {path named behind : List Char} (isUnnamed : IsUnnamed behind)
    (split : path = named.reverse ++ behind) (notSlash : ∀ rest, named ≠ '/' :: rest)
    (notDotSlash : ∀ rest, named ≠ '.' :: '/' :: rest) (notDot : named ≠ ['.']) :
    IsDirectory (named.dropWhile (· ≠ '/')).reverse ∧
      named.reverse =
        (named.dropWhile (· ≠ '/')).reverse ++ (named.takeWhile (· ≠ '/')).reverse ∧
      ((named.takeWhile (· ≠ '/')).reverse = [] → named = []) ∧
      ((named.takeWhile (· ≠ '/')).reverse ≠ [] →
        (named.takeWhile (· ≠ '/')).reverse ≠ ['.', '.'] →
        EndsWith path (named.dropWhile (· ≠ '/')).reverse (named.takeWhile (· ≠ '/')).reverse
          behind) := by
  rcases split_at_last '/' named.reverse with ⟨front, name, isFront, isName, parts, noSlash, first⟩
  rw [List.reverse_reverse] at isFront isName
  rw [isFront, isName]
  have isDirectory : IsDirectory front.reverse := by
    rcases first with rfl | isSlash
    · exact .inl rfl
    · exact .inr (List.getLast?_reverse.trans isSlash)
  have whole : named = name.reverse ++ front := by
    rw [← List.reverse_reverse named, parts, List.reverse_append, List.reverse_reverse]
  refine ⟨isDirectory, parts, ?_, fun some notDots => ?_⟩
  · rintro rfl
    rcases first with rfl | isSlash
    · exact whole
    · rcases List.head?_eq_some_iff.mp isSlash with ⟨rest, rfl⟩
      exact absurd whole (notSlash rest)
  · refine ⟨by rw [split, parts, List.append_assoc], isDirectory, noSlash, ⟨some, ?_, notDots⟩,
      isUnnamed⟩
    rintro rfl
    rcases first with rfl | isSlash
    · exact notDot whole
    · rcases List.head?_eq_some_iff.mp isSlash with ⟨rest, rfl⟩
      exact notDotSlash rest whole

/-- The program replaces the extension of a path. -/
theorem replaces_replaceExtension (path extension : String) :
    Replaces extension.toList path.toList (replaceExtension path extension).toList := by
  rcases dropUnnamed_drops path.toList.reverse with ⟨behind, isUnnamed, dropped⟩
  rcases dropUnnamed_stops path.toList.reverse with ⟨notSlash, notDotSlash, notDot⟩
  rw [List.reverse_reverse] at dropped
  unfold replaceExtension
  dsimp only
  generalize dropUnnamed path.toList.reverse = named at dropped notSlash notDotSlash notDot ⊢
  rcases dropped with split | ⟨rfl, split⟩
  · rcases endsWith_of_dropped isUnnamed split notSlash notDotSlash notDot with
      ⟨isDirectory, parts, nothing, endsWith⟩
    generalize (named.takeWhile (· ≠ '/')).reverse = name at parts nothing endsWith ⊢
    generalize (named.dropWhile (· ≠ '/')).reverse = directory at isDirectory parts endsWith ⊢
    by_cases noName : name = [] ∨ name = ['.', '.']
    · rw [if_pos noName]
      refine .unnamed split ?_ isUnnamed
      rcases noName with isNil | rfl
      · rw [nothing isNil]
        exact .inl rfl
      · exact .inr (.inr ⟨directory, isDirectory, parts⟩)
    · have ends := endsWith (fun isNil => noName (.inl isNil)) fun dots => noName (.inr dots)
      rw [if_neg noName]
      -- Without its extension the name may be a dot, and with the dot put on it leads upwards.
      by_cases leadsUp : stem? name = some ['.'] ∧ named = path.toList.reverse
      · rcases split_of_stem? leadsUp.1 with ⟨old, rfl, -, noDot⟩
        have nothingBehind : behind = [] := by
          have whole := split
          rw [leadsUp.2, List.reverse_reverse] at whole
          exact List.self_eq_append_right.mp whole
        rw [if_pos leadsUp, String.toList_ofList]
        exact .parent (nothingBehind ▸ ends) noDot
      · rw [if_neg leadsUp, String.toList_ofList, replaceInName]
        cases isStem : stem? name with
        | none => exact .added ends (not_mem_tail_of_stem? isStem)
        | some stem =>
            rcases split_of_stem? isStem with ⟨old, rfl, isText, noDot⟩
            rw [Option.getD_some]
            refine .replaced ends isText noDot (Decidable.or_iff_not_imp_left.mpr ?_)
            rintro isDot rfl
            have isOne : stem = ['.'] := Decidable.of_not_not isDot
            refine leadsUp ⟨by rw [isStem, isOne], ?_⟩
            rw [split, List.append_nil, List.reverse_reverse]
  · have noName : (([] : List Char).takeWhile (· ≠ '/')).reverse = [] := rfl
    rw [if_pos (.inl noName)]
    have isDot : path.toList = ['.'] ++ behind := split
    exact .unnamed isDot (.inr (.inl rfl)) isUnnamed

/-! ## Nothing else replaces it -/

/-- Characters are passed up to the first one of a kind. -/
theorem passes_upTo {c : Char} {passed rest : List Char} (other : c ∉ passed)
    (stops : rest = [] ∨ rest.head? = some c) :
    (passed ++ rest).takeWhile (· ≠ c) = passed ∧ (passed ++ rest).dropWhile (· ≠ c) = rest := by
  have passes : ∀ d ∈ passed, decide (d ≠ c) = true := by
    intro d member
    refine decide_eq_true ?_
    rintro rfl
    exact other member
  rw [List.takeWhile_append_of_pos passes, List.dropWhile_append_of_pos passes]
  rcases stops with rfl | first
  · exact ⟨List.append_nil _, rfl⟩
  · rcases List.head?_eq_some_iff.mp first with ⟨more, rfl⟩
    have stopsHere : ¬ decide (c ≠ c) = true := fun holds => of_decide_eq_true holds rfl
    rw [List.takeWhile_cons_of_neg (p := (decide <| · ≠ c)) stopsHere,
      List.dropWhile_cons_of_neg (p := (decide <| · ≠ c)) stopsHere, List.append_nil]
    exact ⟨rfl, rfl⟩

/-- What names nothing is dropped from the end of a path. -/
theorem dropUnnamed_append {behind : List Char} (front : List Char) (isUnnamed : IsUnnamed behind) :
    dropUnnamed (front ++ behind).reverse = dropUnnamed front.reverse := by
  rcases isUnnamed with ⟨pieces, each, rfl⟩
  induction pieces generalizing front with
  | nil => rw [List.flatten_nil, List.append_nil]
  | cons piece pieces inductionHypothesis =>
      rcases List.forall_mem_cons.mp each with ⟨first, others⟩
      rw [List.flatten_cons, ← List.append_assoc, inductionHypothesis _ others,
        List.reverse_append]
      rcases first with rfl | rfl
      · exact dropUnnamed.eq_1 front.reverse
      · exact dropUnnamed.eq_2 front.reverse

namespace EndsWith

variable {path directory name behind : List Char} (ends : EndsWith path directory name behind)

include ends

/-- The directory and the name of a path stay when what names nothing is dropped from the end. -/
theorem dropUnnamed_eq : dropUnnamed path.reverse = name.reverse ++ directory.reverse := by
  rcases ends with ⟨rfl, -, noSlash, ⟨notNil, notDot, -⟩, isUnnamed⟩
  rw [← List.append_assoc, dropUnnamed_append _ isUnnamed, List.reverse_append]
  cases reversed : name.reverse with
  | nil => exact absurd (List.reverse_eq_nil_iff.mp reversed) notNil
  | cons last more =>
      have noSlash : '/' ∉ last :: more := by
        rw [← reversed]
        exact fun member => noSlash (List.mem_reverse.mp member)
      have notDot : last :: more ≠ ['.'] := by
        rw [← reversed]
        exact fun isDot => notDot (List.reverse_eq_iff.mp isDot)
      rw [dropUnnamed]
      · rintro rest same
        exact noSlash ((List.cons.inj same).1 ▸ List.mem_cons_self)
      · rintro rest same
        rcases List.cons.inj same with ⟨rfl, behindDot⟩
        cases more with
        | nil => exact notDot rfl
        | cons c more =>
            have isSlash := (List.cons.inj behindDot).1
            exact noSlash (isSlash ▸ List.mem_cons_of_mem _ List.mem_cons_self)
      · intro same
        rcases List.cons.inj same with ⟨rfl, nothing⟩
        exact notDot (by rw [(List.append_eq_nil_iff.mp nothing).1])

/-- The name is what stands behind the last slash. -/
theorem parts_eq : ((dropUnnamed path.reverse).takeWhile (· ≠ '/')).reverse = name ∧
    ((dropUnnamed path.reverse).dropWhile (· ≠ '/')).reverse = directory := by
  have noSlash : '/' ∉ name.reverse := fun member => ends.noSlash (List.mem_reverse.mp member)
  rcases passes_upTo noSlash ends.isDirectory.reversed with ⟨isName, isDirectory⟩
  rw [ends.dropUnnamed_eq, isName, isDirectory, List.reverse_reverse, List.reverse_reverse]
  exact ⟨rfl, rfl⟩

/-- Nothing is dropped if nothing stands behind the name. -/
theorem dropUnnamed_eq_self_iff : dropUnnamed path.reverse = path.reverse ↔ behind = [] := by
  have reversed : path.reverse = behind.reverse ++ (name.reverse ++ directory.reverse) := by
    rw [ends.split, List.reverse_append, List.reverse_append, List.append_assoc]
  rw [ends.dropUnnamed_eq, reversed, List.self_eq_append_left, List.reverse_eq_nil_iff]

end EndsWith

/-- The parent directory is left at the end of a path. -/
theorem parts_of_parent {directory : List Char} (isDirectory : IsDirectory directory) :
    ((dropUnnamed (directory ++ ['.', '.']).reverse).takeWhile (· ≠ '/')).reverse =
      ['.', '.'] := by
  have reversed : (directory ++ ['.', '.']).reverse = ['.', '.'] ++ directory.reverse :=
    List.reverse_append
  have kept : dropUnnamed (['.', '.'] ++ directory.reverse) = ['.', '.'] ++ directory.reverse :=
    dropUnnamed.eq_4 _ nofun nofun nofun
  rw [reversed, kept, (passes_upTo (by decide) isDirectory.reversed).1]
  rfl

/-- A name without a dot has no stem, and a dot in front of it does not count. -/
theorem stem?_eq_none {name : List Char} (noExtension : '.' ∉ name.tail) : stem? name = none := by
  cases isStem : stem? name with
  | none => rfl
  | some stem =>
      rcases split_of_stem? isStem with ⟨old, rfl, notNil, -⟩
      rcases List.exists_cons_of_ne_nil notNil with ⟨c, more, rfl⟩
      exact absurd (List.mem_append_right _ List.mem_cons_self) noExtension

/-- The last dot ends the stem. -/
theorem stem?_eq_some {stem old : List Char} (isStem : stem ≠ []) (last : '.' ∉ old) :
    stem? (stem ++ '.' :: old) = some stem := by
  have noDot : '.' ∉ old.reverse := fun member => last (List.mem_reverse.mp member)
  have stops : ('.' :: stem.reverse) = [] ∨ ('.' :: stem.reverse).head? = some '.' := .inr rfl
  have reversed : (stem ++ '.' :: old).reverse = old.reverse ++ '.' :: stem.reverse := by
    rw [List.reverse_append, List.reverse_cons, List.append_assoc]
    rfl
  rw [stem?, reversed, (passes_upTo noDot stops).2]
  cases backwards : stem.reverse with
  | nil => exact absurd (List.reverse_eq_nil_iff.mp backwards) isStem
  | cons c rest => exact congrArg some (List.reverse_eq_iff.mpr backwards.symm)

/-- A path has no more than one form with another extension. -/
theorem replaces_iff (path extension result : String) :
    Replaces extension.toList path.toList result.toList ↔
      result = replaceExtension path extension := by
  refine ⟨fun replaces => String.toList_inj.mp ?_, ?_⟩
  · unfold replaceExtension
    dsimp only
    generalize result.toList = characters at replaces ⊢
    cases replaces with
    | unnamed split noName isUnnamed =>
        rw [if_pos]
        rw [split, dropUnnamed_append _ isUnnamed]
        rcases noName with rfl | rfl | ⟨directory, isDirectory, rfl⟩
        · exact .inl rfl
        · exact .inl rfl
        · exact .inr (parts_of_parent isDirectory)
    | added ends noExtension =>
        rcases ends.parts_eq with ⟨isName, isDirectory⟩
        have named : ¬ (_ = [] ∨ _ = ['.', '.']) :=
          not_or.mpr ⟨ends.isName.1, ends.isName.2.2⟩
        rw [isName, isDirectory, if_neg named, stem?_eq_none noExtension, if_neg nofun,
          replaceInName, stem?_eq_none noExtension, String.toList_ofList]
        rfl
    | replaced ends isStem last staysName =>
        rcases ends.parts_eq with ⟨isName, isDirectory⟩
        rw [isName, isDirectory, if_neg (not_or.mpr ⟨ends.isName.1, ends.isName.2.2⟩),
          replaceInName, stem?_eq_some isStem last, if_neg, String.toList_ofList]
        · rfl
        · rintro ⟨isDot, nothingDropped⟩
          cases isDot
          have nothingBehind := ends.dropUnnamed_eq_self_iff.mp nothingDropped
          exact staysName.elim (absurd rfl) (absurd nothingBehind)
    | parent ends last =>
        rcases ends.parts_eq with ⟨isName, isDirectory⟩
        have isStem : stem? ('.' :: '.' :: _) = some ['.'] :=
          stem?_eq_some (List.cons_ne_nil '.' []) last
        rw [isName, isDirectory, if_neg (not_or.mpr ⟨ends.isName.1, ends.isName.2.2⟩),
          if_pos ⟨isStem, ends.dropUnnamed_eq_self_iff.mpr rfl⟩, String.toList_ofList]
  · rintro rfl
    exact replaces_replaceExtension path extension

/-- The first name keeps its other dots, a name without an extension gets one, and nothing is put on
behind two dots. -/
example : ["a.b/Main.v1.jack", "./src/.Main/", "..jack", "src/."].map (replaceExtension · "vm") =
    ["a.b/Main.v1.vm", "./src/.Main.vm", "..", "src.vm"] := by
  decide +kernel

end Path

end Jack
