import Jack.Machine.Listing

namespace Jack

/-!
# Writing into a space that may be too small

A listing is written piece by piece, and the space may come to its end at any byte of any piece.
Writing bytes leaves what fits of the text, whatever its pieces are, and it fails exactly if that is
not all of it.  Writing text has the same condition, but it leaves nothing unless the text fits
(`Listing.write_capacity`).

Both arguments carry along what has been written: it fits, and together with the pieces it makes up
the whole.  A step writes a piece that fits, which keeps this, or it is the last one.
-/

/-! ## The front of bytes -/

/-- A prefix that goes beyond the first of two runs of bytes. -/
theorem extract_append_add (first second : ByteArray) (n : Nat) :
    (first ++ second).extract 0 (first.size + n) = first ++ second.extract 0 n := by
  rw [ByteArray.extract_eq_extract_append_extract first.size (Nat.zero_le _) (Nat.le_add_right _ n),
    ByteArray.extract_append_eq_left rfl]
  congr 1
  exact ByteArray.extract_append_size_add (i := 0)

/-- A prefix that stays in the first of two runs of bytes. -/
theorem extract_append_of_le {first : ByteArray} (second : ByteArray) {n : Nat}
    (within : n ≤ first.size) : (first ++ second).extract 0 n = first.extract 0 n := by
  rw [ByteArray.extract_append, Nat.zero_sub, Nat.sub_eq_zero_of_le within, ByteArray.extract_same,
    ByteArray.append_empty]

namespace Listing

variable {capacity : Nat} {pieces : List String}

/-! ## Bytes -/

/-- A piece that fits is written behind the others. -/
theorem fillBytes_of_fits {written : ByteArray} {piece : String} {rest : List String}
    (fits : written.size + piece.utf8ByteSize ≤ capacity) :
    fillBytes capacity written (piece :: rest) =
      fillBytes capacity (written ++ piece.toByteArray) rest := by
  rw [fillBytes, String.toUTF8_eq_toByteArray, String.size_toByteArray]
  exact if_pos fits

/-- The first piece that does not fit is cut, and nothing comes behind it. -/
theorem fillBytes_of_not_fits {written : ByteArray} {piece : String} {rest : List String}
    (cut : ¬ written.size + piece.utf8ByteSize ≤ capacity) :
    fillBytes capacity written (piece :: rest) =
      (written ++ piece.toByteArray.extract 0 (capacity - written.size), .error .full) := by
  rw [fillBytes, String.toUTF8_eq_toByteArray, String.size_toByteArray]
  exact if_neg cut

/-- Behind bytes that fit, as much is written as fits of all pieces together. -/
theorem fillBytes_eq {written : ByteArray} (fits : written.size ≤ capacity) :
    fillBytes capacity written pieces =
      (written ++ (String.join pieces).toByteArray.extract 0
          (min (capacity - written.size) (String.join pieces).utf8ByteSize),
        if capacity < written.size + (String.join pieces).utf8ByteSize then .error .full
        else .ok ()) := by
  induction pieces generalizing written with
  | nil =>
      have nothing : (String.join []).toByteArray.extract 0
          (min (capacity - written.size) (String.join []).utf8ByteSize) = .empty := by
        rw [String.join_nil, String.utf8ByteSize_empty, Nat.min_zero, ByteArray.extract_same]
      rw [nothing, ByteArray.append_empty, String.join_nil, String.utf8ByteSize_empty, Nat.add_zero,
        if_neg (Nat.not_lt.mpr fits)]
      rfl
  | cons piece rest inductionHypothesis =>
      rw [String.join_cons, String.toByteArray_append, String.utf8ByteSize_append]
      by_cases pieceFits : written.size + piece.utf8ByteSize ≤ capacity
      · have fits : (written ++ piece.toByteArray).size ≤ capacity := by
          rw [ByteArray.size_append, String.size_toByteArray]
          exact pieceFits
        have front : min (capacity - written.size)
            (piece.utf8ByteSize + (String.join rest).utf8ByteSize) =
              piece.toByteArray.size + min (capacity - (written.size + piece.utf8ByteSize))
                (String.join rest).utf8ByteSize := by
          rw [String.size_toByteArray]
          omega
        rw [fillBytes_of_fits pieceFits, inductionHypothesis fits, ByteArray.size_append,
          String.size_toByteArray, Nat.add_assoc, front, extract_append_add, ByteArray.append_assoc]
      · have front : min (capacity - written.size)
            (piece.utf8ByteSize + (String.join rest).utf8ByteSize) = capacity - written.size := by
          omega
        have within : capacity - written.size ≤ piece.toByteArray.size := by
          rw [String.size_toByteArray]
          omega
        rw [fillBytes_of_not_fits pieceFits, front, extract_append_of_le _ within,
          if_pos (by omega)]

/-! ## Text -/

/-- Behind text that fits, all pieces are written if they fit together. -/
theorem fillText_eq {written : String} (fits : written.utf8ByteSize ≤ capacity) :
    fillText capacity written pieces =
      if capacity < written.utf8ByteSize + (String.join pieces).utf8ByteSize then .error .refused
      else .ok (written ++ String.join pieces) := by
  induction pieces generalizing written with
  | nil =>
      rw [fillText, String.join_nil, String.utf8ByteSize_empty, Nat.add_zero,
        if_neg (Nat.not_lt.mpr fits), String.append_empty]
  | cons piece rest inductionHypothesis =>
      rw [fillText, String.join_cons, String.utf8ByteSize_append]
      by_cases pieceFits : written.utf8ByteSize + piece.utf8ByteSize ≤ capacity
      · have fits : (written ++ piece).utf8ByteSize ≤ capacity := by
          rw [String.utf8ByteSize_append]
          exact pieceFits
        rw [if_pos pieceFits, inductionHypothesis fits, String.utf8ByteSize_append, Nat.add_assoc,
          String.append_assoc]
      · rw [if_neg pieceFits, if_pos (by omega)]

/-! ## Listings -/

/-- The pieces in which a listing is written make up its text. -/
theorem join_pieces (listing : Listing) : String.join listing.pieces = listing.text :=
  listing.foldl_pieces

/-- The text of a listing is that of its lines. -/
theorem text_eq_join (listing : Listing) :
    listing.text = String.join (listing.toList.map fun c => c.text ++ "\n") := by
  rw [← join_pieces, Listing.pieces]
  induction listing.toList with
  | nil => rfl
  | cons c rest inductionHypothesis =>
      rw [List.flatMap_cons, List.map_cons, String.join_append, String.join_cons, String.join_cons,
        String.join_cons, String.join_nil, String.append_empty, inductionHypothesis]

/-- The bytes that are written do not depend on the pieces into which the text is cut. -/
theorem fillBytes_of_join {listing : Listing} (same : String.join pieces = listing.text) :
    fillBytes capacity .empty pieces =
      (listing.text.toByteArray.extract 0 (min capacity listing.text.utf8ByteSize),
        if capacity < listing.text.utf8ByteSize then .error .full else .ok ()) := by
  rw [fillBytes_eq (Nat.zero_le capacity), same, ByteArray.size_empty, Nat.sub_zero, Nat.zero_add,
    ByteArray.empty_append]

/-- Text is refused as a whole if it does not fit, and otherwise it is all there.  How it is cut
into pieces does not matter. -/
theorem fillText_of_join {listing : Listing} (same : String.join pieces = listing.text) :
    fillText capacity "" pieces =
      if capacity < listing.text.utf8ByteSize then .error .refused else .ok listing.text := by
  rw [fillText_eq (Nat.zero_le capacity), same, String.utf8ByteSize_empty, Nat.zero_add,
    String.empty_append]

/-- Into a space of some bytes, as many bytes of the text are written as fit, and writing fails if
that is not the whole text.  As text, the listing is written under the same condition, and then as a
whole.  The text consists of the lines of the commands.  It does not matter into which pieces it is
cut. -/
theorem write_capacity (listing : Listing) (capacity : Nat) :
    listing.writeBytes capacity =
        (listing.text.toUTF8.extract 0 (min capacity listing.text.toUTF8.size),
          if capacity < listing.text.toUTF8.size then .error .full else .ok ()) ∧
      (listing.writeBytes capacity).1.size = min capacity listing.text.toUTF8.size ∧
      listing.formatText capacity =
        (if capacity < listing.text.toUTF8.size then .error .refused else .ok listing.text) ∧
      listing.text = String.join (listing.toList.map fun c => c.text ++ "\n") ∧
      ∀ pieces, String.join pieces = listing.text →
        fillBytes capacity .empty pieces = listing.writeBytes capacity ∧
          fillText capacity "" pieces = listing.formatText capacity := by
  have bytes : listing.writeBytes capacity = _ := fillBytes_of_join listing.join_pieces
  have text : listing.formatText capacity = _ := fillText_of_join listing.join_pieces
  have size : (listing.writeBytes capacity).1.size = min capacity listing.text.utf8ByteSize := by
    rw [bytes, ByteArray.size_extract, String.size_toByteArray]
    omega
  rw [String.toUTF8_eq_toByteArray, String.size_toByteArray]
  refine ⟨bytes, size, text, listing.text_eq_join, fun pieces same => ?_⟩
  exact ⟨(fillBytes_of_join same).trans bytes.symm, (fillText_of_join same).trans text.symm⟩

/-- A listing in the pieces in which the parts of its commands are written, and a space that ends
inside a word. -/
theorem write_capacity_insideWord :
    String.join ["push ", "constant", " ", "5", "\n", "return", "\n"] =
        Listing.text #[.push .constant 5, .«return»] ∧
      fillBytes 7 .empty ["push ", "constant", " ", "5", "\n", "return", "\n"] =
        ("push co".toUTF8, .error .full) ∧
      fillText 7 "" ["push ", "constant", " ", "5", "\n", "return", "\n"] = .error .refused := by
  have same : String.join ["push ", "constant", " ", "5", "\n", "return", "\n"] =
      Listing.text #[.push .constant 5, .«return»] := by
    decide +kernel
  rcases write_capacity #[.push .constant 5, .«return»] 7 with ⟨bytes, -, text, -, anyPieces⟩
  rcases anyPieces _ same with ⟨sameBytes, sameText⟩
  have tooSmall : 7 < (Listing.text #[.push .constant 5, .«return»]).toUTF8.size := by
    decide +kernel
  have front : (Listing.text #[.push .constant 5, .«return»]).toUTF8.extract 0
      (min 7 (Listing.text #[.push .constant 5, .«return»]).toUTF8.size) = "push co".toUTF8 := by
    decide +kernel
  rw [if_pos tooSmall] at bytes text
  rw [front] at bytes
  exact ⟨same, sameBytes.trans bytes, sameText.trans text⟩

end Listing

end Jack
