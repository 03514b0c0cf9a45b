import Jack.CommandLine.FileTree
import Jack.CommandLine.Program
import Jack.Proofs.CommandLine.Arguments
import Jack.Proofs.CommandLine.FileTree
import Jack.Proofs.CommandLine.Path
import Jack.Proofs.Lexer.Spans
import Jack.Proofs.Text.Utf8

namespace Jack

/-!
# The program changes one file or none

The program writes the text of the whole listing to one file, or it leaves all files as they are.
Everything that can fail comes before the output is created; `Invocation.run_perform` says so for
the trees of files in memory, in which a file that is open can be written.  The listing is written
in pieces, which come to the text that the compiler gives.
-/

/-- Pieces that are appended to a file stand there one behind the other. -/
theorem FileTree.run_appendAll (t : FileTree) (p : FilePlace) (pieces : List String)
    (written : String) :
    (access.appendAll p pieces).run (t.insert p written.toUTF8) =
      (.ok (), t.insert p (pieces.foldl (· ++ ·) written).toUTF8) := by
  induction pieces generalizing written with
  | nil => rfl
  | cons piece rest inductionHypothesis =>
      have appended : (t.insert p written.toUTF8).append p piece.toUTF8 =
          t.insert p (written ++ piece).toUTF8 := by
        rw [append_insert, String.toUTF8_eq_toByteArray, String.toUTF8_eq_toByteArray,
          String.toUTF8_eq_toByteArray, String.toByteArray_append]
      calc (access.appendAll p (piece :: rest)).run (t.insert p written.toUTF8)
          = (access.appendAll p rest).run ((t.insert p written.toUTF8).append p piece.toUTF8) :=
            rfl
        _ = (.ok (), t.insert p (rest.foldl (· ++ ·) (written ++ piece)).toUTF8) := by
            rw [appended, inductionHypothesis]

/-- The text of a source compiles if its class does. -/
theorem compileWith_eq_ok_iff {options : Options} {text written : String} :
    compileWith options text = .ok written ↔
      ∃ listing, (compileClass options text.toList).result = .ok listing ∧
        listing.text = written := by
  unfold compileWith
  cases (compileClass options text.toList).result with
  | error e => simp only [Except.map, reduceCtorEq, false_and, exists_false]
  | ok listing => simp only [Except.map, Except.ok.injEq, exists_eq_left']

namespace Invocation

variable {i : Invocation}

/-- Bytes compile if they encode a text that compiles. -/
theorem compileBytes_eq_ok_iff {bytes : ByteArray} {listing : Listing} :
    (i.compileBytes bytes).1 = .ok listing ↔
      ∃ text : String, bytes = text.toUTF8 ∧
        (compileClass i.options text.toList).result = .ok listing := by
  unfold compileBytes
  cases decoded : Utf8.decode bytes.data.toList with
  | error e =>
      constructor
      · intro compiled
        cases compiled
      · rintro ⟨text, rfl, -⟩
        have encoding : text.toUTF8 = (String.ofList text.toList).toUTF8 := by
          rw [String.ofList_toList]
        rw [Utf8.decode_eq_ok_iff.mpr encoding] at decoded
        cases decoded
  | ok source =>
      have encoding := Utf8.decode_eq_ok_iff.mp decoded
      have mapped : ((compileClass i.options source).result.mapError ProgramError.compilation =
          .ok listing) ↔ (compileClass i.options source).result = .ok listing := by
        cases (compileClass i.options source).result with
        | error e => exact ⟨nofun, nofun⟩
        | ok listing' =>
            exact ⟨fun same => congrArg Except.ok (Except.ok.inj same),
              fun same => congrArg Except.ok (Except.ok.inj same)⟩
      constructor
      · intro compiled
        refine ⟨String.ofList source, encoding, ?_⟩
        rw [String.toList_ofList]
        exact mapped.mp compiled
      · rintro ⟨text, same, compiled⟩
        have sameText : String.ofList source = text :=
          String.toByteArray_inj.mp (encoding.symm.trans same)
        rw [← sameText, String.toList_ofList] at compiled
        exact mapped.mpr compiled

/-- What performing an invocation does to the files. -/
theorem run_perform (i : Invocation) (t : FileTree) :
    (i.perform FileTree.access).run t =
      match t.read i.source with
      | .error f => ((.error (.file f), #[]), t)
      | .ok bytes =>
        match i.compileBytes bytes with
        | (.error e, log) => ((.error e, log), t)
        | (.ok listing, log) =>
          match t.create i.outputPath with
          | .error f => ((.error (.file f), log), t)
          | .ok (p, _) => ((.ok listing.size, log), t.insert p listing.text.toUTF8) := by
  cases read : t.read i.source with
  | error f =>
      have run : FileTree.access.read i.source t = (.error f, t) := congrArg (·, t) read
      simp only [perform, bind, StateT.run, StateT.bind, run]
      rfl
  | ok bytes =>
      have run : FileTree.access.read i.source t = (.ok bytes, t) := congrArg (·, t) read
      simp only [perform, bind, StateT.run, StateT.bind, run]
      rcases i.compileBytes bytes with ⟨e | listing, log⟩
      · rfl
      · cases creates : t.create i.outputPath with
        | error f =>
            have run : FileTree.access.create i.outputPath t = (.error f, t) := by
              simp only [FileTree.access, creates]
            simp only [StateT.bind, bind, run]
            rfl
        | ok opened =>
            rcases opened with ⟨p, created⟩
            have run : FileTree.access.create i.outputPath t = (.ok p, created) := by
              simp only [FileTree.access, creates]
            rcases FileTree.read_of_create creates with ⟨rfl, -⟩
            have appended := FileTree.run_appendAll t p listing.pieces ""
            rw [Listing.foldl_pieces] at appended
            simp only [StateT.bind, bind, run]
            change FileTree.access.appendAll p listing.pieces (t.insert p .empty) = _ at appended
            simp only [appended]
            rfl

/-- If nothing fails, the text of the listing is written to the place of the output. -/
theorem perform_writes {t created : FileTree} {text written : String} {p : FilePlace}
    (reads : t.read i.source = .ok text.toUTF8)
    (compiles : compileWith i.options text = .ok written)
    (creates : t.create i.outputPath = .ok (p, created)) :
    ∃ count log, (i.perform FileTree.access).run t =
      ((.ok count, log), t.insert p written.toUTF8) := by
  rcases compileWith_eq_ok_iff.mp compiles with ⟨listing, compiled, rfl⟩
  have result := compileBytes_eq_ok_iff.mpr ⟨text, rfl, compiled⟩
  rcases outcome : i.compileBytes text.toUTF8 with ⟨result', log⟩
  rw [outcome] at result
  cases result
  refine ⟨listing.size, log, ?_⟩
  rw [run_perform, reads]
  simp only [outcome, creates]

/-- Otherwise nothing is written. -/
theorem perform_fails {t : FileTree}
    (fails : ¬ ∃ (text written : String) (opened : FilePlace × FileTree),
      t.read i.source = .ok text.toUTF8 ∧ compileWith i.options text = .ok written ∧
        t.create i.outputPath = .ok opened) :
    ∃ e log, (i.perform FileTree.access).run t = ((.error e, log), t) := by
  rw [run_perform]
  cases reads : t.read i.source with
  | error f => exact ⟨.file f, #[], rfl⟩
  | ok bytes =>
      rcases outcome : i.compileBytes bytes with ⟨e | listing, log⟩
      · refine ⟨e, log, ?_⟩
        simp only [outcome]
      · cases creates : t.create i.outputPath with
        | error f =>
            refine ⟨.file f, log, ?_⟩
            simp only [outcome]
        | ok opened =>
            have result : (i.compileBytes bytes).1 = .ok listing := by rw [outcome]
            rcases compileBytes_eq_ok_iff.mp result with ⟨text, rfl, compiled⟩
            exact absurd ⟨text, listing.text, opened, reads,
              compileWith_eq_ok_iff.mpr ⟨listing, compiled, rfl⟩, creates⟩ fails

/-- A well-formed invocation is performed, and its outcome is reported. -/
theorem run_runProgram {arguments : List String} (t : FileTree)
    (parsed : parse arguments = some i) :
    (runProgram FileTree.access arguments).run t =
      (i.report ((i.perform FileTree.access).run t).1, ((i.perform FileTree.access).run t).2) := by
  simp only [runProgram, parsed]
  rfl

end Invocation

/-- If the arguments are not well-formed, the program exits with 64 and no file changes.  Otherwise
they ask for a source, an output and options; without a path for the output, it is the path of the
source with the extension `vm`.  If the source is the encoding of a text, the text compiles and the
output can be created, the program exits with 0, the output holds the listing, and no other file has
changed.  In all other cases the program exits with 1 and no file has changed.

Nothing is said about a source file that encodes a text with offsets that are no words. -/
theorem runProgram_allOrNothing (arguments : List String) (t : FileTree) :
    let outcome := (runProgram FileTree.access arguments).run t
    (Invocation.parse arguments = none → outcome.1.exitCode = 64 ∧ outcome.2 = t) ∧
    ∀ i, Invocation.parse arguments = some i →
      (∀ text : String, t.read i.source = .ok text.toUTF8 → IsAddressable text.toList) →
      (∃ items : List Invocation.Item, arguments = items.flatMap Invocation.Item.words ∧
        (∀ item ∈ items, item.Legal) ∧
        items.filterMap Invocation.Item.source? = [i.source] ∧
        (items.filterMap Invocation.Item.output?).getLast? = i.output ∧
        i.options = ⟨decide (.strict ∈ items), decide (.noFold ∉ items)⟩) ∧
      (∀ text : String, t.read i.source = .ok text.toUTF8 → ReadsInSpans text.toList) ∧
      ∃ output : String,
        (match i.output with
          | some given => output = given
          | none => Path.Replaces "vm".toList i.source.toList output.toList) ∧
        (∀ (text listing : String) (place : FilePlace) (created : FileTree),
          t.read i.source = .ok text.toUTF8 → compileWith i.options text = .ok listing →
          t.create output = .ok (place, created) →
          outcome.1.exitCode = 0 ∧ outcome.2.read output = .ok listing.toUTF8 ∧
            ∀ other, outcome.2.file? other =
              if other = place then some listing.toUTF8 else t.file? other) ∧
        ((¬ ∃ (text listing : String) (opened : FilePlace × FileTree),
            t.read i.source = .ok text.toUTF8 ∧ compileWith i.options text = .ok listing ∧
            t.create output = .ok opened) →
          outcome.1.exitCode = 1 ∧ outcome.2 = t) := by
  refine ⟨fun refused => ?_, fun i parsed addressable => ⟨?_, ?_, i.outputPath, ?_, ?_, ?_⟩⟩
  · simp only [runProgram, refused]
    exact ⟨rfl, rfl⟩
  · rcases Invocation.exists_asks_of_parse parsed with ⟨items, same, asks⟩
    refine ⟨items, same, asks.legal, asks.source, ?_, ?_⟩
    · rw [asks.output, Option.or_none]
    · have flags : i.options = ⟨i.options.strictDeclarations, i.options.foldTailReturn⟩ := rfl
      rw [flags, asks.strict, asks.fold, Bool.false_or, Bool.true_and]
  · exact fun text reads => (addressable text reads).readsInSpans
  · unfold Invocation.outputPath
    cases i.output with
    | some given => rfl
    | none => exact Path.replaces_replaceExtension i.source "vm"
  · intro text listing place created reads compiles creates
    rcases Invocation.perform_writes reads compiles creates with ⟨count, log, run⟩
    rw [Invocation.run_runProgram t parsed, run]
    exact ⟨rfl, (FileTree.read_of_create creates).2 _, fun other => FileTree.file?_insert⟩
  · intro fails
    rcases Invocation.perform_fails fails with ⟨e, log, run⟩
    rw [Invocation.run_runProgram t parsed, run]
    exact ⟨rfl, rfl⟩

/-- Without a path for the output, the listing of `A.jack` is written to `A.vm`. -/
theorem runProgram_allOrNothing_besideSource :
    let text := "class A\x7bfunction int f()\x7breturn 7;\x7d\x7d"
    let t : FileTree := ⟨[(FilePlace.working.child "A.jack", text.toUTF8)]⟩
    ∃ outcome, (runProgram FileTree.access ["A.jack"]).run t = outcome ∧
      outcome.1.exitCode = 0 ∧
      outcome.2.read "A.vm" = .ok "function A.f 0\npush constant 7\nreturn\n".toUTF8 ∧
      outcome.2.file? (FilePlace.working.child "A.jack") = some text.toUTF8 := by
  intro text t
  have reads : t.read "A.jack" = .ok text.toUTF8 := rfl
  have creates : t.create "A.vm" = .ok (FilePlace.working.child "A.vm",
      t.insert (FilePlace.working.child "A.vm") .empty) := rfl
  have source : t.file? (FilePlace.working.child "A.jack") = some text.toUTF8 := rfl
  have short : IsAddressable text.toList := by decide
  have compiles : compileWith {} text =
      .ok "function A.f 0\npush constant 7\nreturn\n" := by
    decide +kernel
  clear_value text t
  have addressable : ∀ text' : String, t.read "A.jack" = .ok text'.toUTF8 →
      IsAddressable text'.toList := by
    intro text' same
    rw [reads] at same
    rwa [← String.toByteArray_inj.mp (Except.ok.inj same)]
  rcases (runProgram_allOrNothing ["A.jack"] t).2 ⟨"A.jack", none, {}⟩ rfl addressable with
    ⟨-, -, output, replaces, writes, -⟩
  have isOutput : output = "A.vm" :=
    ((Path.replaces_iff "A.jack" "vm" output).mp replaces).trans (by decide +kernel)
  subst isOutput
  rcases writes text _ _ _ reads compiles creates with ⟨exits, written, others⟩
  refine ⟨_, rfl, exits, written, ?_⟩
  rw [others, if_neg (by decide)]
  exact source

end Jack
