import Jack.CommandLine.FileTree

namespace Jack

/-!
# Files that are created and written

A tree in which a file has been written differs from the tree before at one place.  Paths that led
somewhere lead there still, and the path of a file that has been created reads back what is written
to its place.
-/

namespace FileTree

variable {t : FileTree} {p q : FilePlace} {bytes : ByteArray} {path : String}

/-! ## One file -/

/-- The entry of a file after bytes have been written to a place. -/
def rewritten (p : FilePlace) (bytes : ByteArray) (f : FilePlace × ByteArray) :
    FilePlace × ByteArray :=
  if f.1 = p then (p, bytes) else f

theorem rewritten_fst (p : FilePlace) (bytes : ByteArray) (f : FilePlace × ByteArray) :
    (rewritten p bytes f).1 = f.1 := by
  unfold rewritten
  split
  case isTrue same => exact same.symm
  case isFalse => rfl

/-- A file that is there gets new bytes and keeps its place in the tree. -/
theorem insert_of_any (present : t.files.any (·.1 = p) = true) :
    t.insert p bytes = ⟨t.files.map (rewritten p bytes)⟩ := by
  rw [insert, if_pos present]
  rfl

/-- A file that is not there yet comes behind all others. -/
theorem insert_of_not_any (absent : ¬ t.files.any (·.1 = p) = true) :
    t.insert p bytes = ⟨t.files ++ [(p, bytes)]⟩ := by
  rw [insert, if_neg absent]

/-- Writing to a place changes the file at that place and no other. -/
theorem file?_insert : (t.insert p bytes).file? q = if q = p then some bytes else t.file? q := by
  by_cases present : t.files.any (·.1 = p) = true
  · rw [insert_of_any present, file?, file?, List.find?_map]
    have samePlaces : (fun f : FilePlace × ByteArray => decide (f.1 = q)) ∘ rewritten p bytes =
        fun f => decide (f.1 = q) := by
      funext f
      simp only [Function.comp_apply, rewritten_fst]
    rw [samePlaces]
    cases found : t.files.find? (·.1 = q) with
    | none =>
        split
        case isTrue same =>
          rcases List.any_eq_true.mp present with ⟨f, member, place⟩
          exact absurd (same ▸ place) (List.find?_eq_none.mp found f member)
        case isFalse => rfl
    | some f =>
        have place : f.1 = q := by simpa using List.find?_some found
        simp only [Option.map_some, rewritten, place]
        split <;> rfl
  · rw [insert_of_not_any present, file?, file?, List.find?_append]
    split
    case isTrue same =>
      have missing : t.files.find? (·.1 = q) = none := by
        rw [List.find?_eq_none]
        intro f member place
        exact present (List.any_eq_true.mpr ⟨f, member, same ▸ place⟩)
      rw [missing, Option.none_or, List.find?_cons_of_pos (by simpa using same.symm)]
      rfl
    case isFalse other =>
      rw [List.find?_cons_of_neg (by simpa using Ne.symm other), List.find?_nil, Option.or_none]

/-- Of what is written to a place only the last counts. -/
theorem insert_insert (first second : ByteArray) :
    (t.insert p first).insert p second = t.insert p second := by
  by_cases present : t.files.any (·.1 = p) = true
  · have twice : rewritten p second ∘ rewritten p first = rewritten p second := by
      funext f
      by_cases place : f.1 = p
      · simp only [Function.comp_apply, rewritten, if_pos place, if_true]
      · simp only [Function.comp_apply, rewritten, if_neg place]
    have still : (t.files.map (rewritten p first)).any (·.1 = p) = true := by
      rw [List.any_map]
      simpa only [Function.comp_def, rewritten_fst] using present
    rw [insert_of_any present, insert_of_any (t := ⟨t.files.map (rewritten p first)⟩) still,
      insert_of_any present, List.map_map, twice]
  · have now : (t.files ++ [(p, first)]).any (·.1 = p) = true := by simp
    have others : t.files.map (rewritten p second) = t.files := by
      rw [List.map_congr_left fun f member => ?_, List.map_id]
      have elsewhere : f.1 ≠ p := fun same =>
        present (List.any_eq_true.mpr ⟨f, member, decide_eq_true same⟩)
      exact if_neg elsewhere
    rw [insert_of_not_any present, insert_of_any now, insert_of_not_any present, List.map_append,
      others, List.map_singleton, rewritten, if_pos rfl]

/-- Writing goes on behind what has been written. -/
theorem append_insert (first second : ByteArray) :
    (t.insert p first).append p second = t.insert p (first ++ second) := by
  rw [append, file?_insert, if_pos rfl, Option.getD_some, insert_insert]

/-! ## Paths -/

/-- A place is a directory because of the places below it. -/
theorem isDirectory_insert :
    (t.insert p bytes).isDirectory q = (t.isDirectory q || p.isBelow q) := by
  by_cases present : t.files.any (·.1 = p) = true
  · have among : p.isBelow q = true → t.isDirectory q = true := by
      intro below
      rcases List.any_eq_true.mp present with ⟨f, member, place⟩
      have fBelow : f.1.isBelow q = true := by rwa [of_decide_eq_true place]
      rw [isDirectory, List.any_eq_true.mpr ⟨f, member, fBelow⟩, Bool.or_true]
    have same : (t.insert p bytes).isDirectory q = t.isDirectory q := by
      rw [insert_of_any present, isDirectory, isDirectory, List.any_map]
      simp only [Function.comp_def, rewritten_fst]
    rw [same]
    cases below : p.isBelow q with
    | false => rw [Bool.or_false]
    | true => rw [among below, Bool.or_true]
  · rw [insert_of_not_any present, isDirectory, isDirectory, List.any_append, List.any_cons,
      List.any_nil, Bool.or_false, Bool.or_assoc]

/-- No place is below itself. -/
theorem isBelow_self (p : FilePlace) : p.isBelow p = false := by
  simp only [FilePlace.isBelow, ne_eq, not_true_eq_false, decide_false, Bool.and_false,
    Bool.false_and]

/-- A step into a directory that was possible before a file is written is possible behind it. -/
theorem enter_insert {here : FilePlace} {name : String} (entered : t.enter here name = .ok q) :
    (t.insert p bytes).enter here name = .ok q := by
  unfold enter at entered ⊢
  split at entered
  case isTrue here' => rwa [if_pos here']
  case isFalse notHere =>
    rw [if_neg notHere]
    split at entered
    case isTrue up => rwa [if_pos up]
    case isFalse notUp =>
      rw [if_neg notUp]
      simp only at entered ⊢
      split at entered
      case isTrue isDirectory =>
        rwa [if_pos (by rw [isDirectory_insert, isDirectory, Bool.true_or])]
      case isFalse =>
        split at entered <;> cases entered

/-- A path that led to a target before a file is written leads to the same one behind it. -/
theorem follow_insert {slash : Bool} {here : FilePlace} {names : List String} {target : Target}
    (followed : t.follow slash here names = .ok target) :
    (t.insert p bytes).follow slash here names = .ok target := by
  induction names generalizing here with
  | nil => exact followed
  | cons name rest inductionHypothesis =>
      cases rest with
      | nil => exact followed
      | cons following rest =>
          rw [follow] at followed ⊢
          cases entered : t.enter here name with
          | error f =>
              rw [entered] at followed
              cases followed
          | ok next =>
              rw [entered] at followed
              rw [enter_insert entered]
              exact inductionHypothesis followed

/-- Writing a file changes no path that led somewhere.  Nothing is said about paths that led
nowhere; the new file may now stand at the end of one. -/
theorem locate_insert {target : Target} (located : t.locate path = .ok target) :
    (t.insert p bytes).locate path = .ok target := by
  by_cases empty : path.toList = []
  · simp only [locate, if_pos empty] at located
    cases located
  · simp only [locate, if_neg empty] at located ⊢
    exact follow_insert located

/-- A file that has been created is read at its path. -/
theorem read_of_create {created : FileTree} (creates : t.create path = .ok (p, created)) :
    created = t.insert p .empty ∧ ∀ bytes, (t.insert p bytes).read path = .ok bytes := by
  unfold create at creates
  split at creates
  case h_1 => cases creates
  case h_2 => cases creates
  case h_3 place slash located =>
    split at creates
    case isTrue => cases creates
    case isFalse plain =>
      cases creates
      rw [Bool.or_eq_true, not_or, Bool.not_eq_true, Bool.not_eq_true] at plain
      refine ⟨rfl, fun bytes => ?_⟩
      rw [read, locate_insert located]
      simp only [isDirectory_insert, plain.1, plain.2, isBelow_self, file?_insert]
      rfl

end FileTree

end Jack
