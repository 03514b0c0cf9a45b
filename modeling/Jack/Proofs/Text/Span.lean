import Jack.Proofs.Text.Location
import Jack.Token.Basic

namespace Jack

/-!
# Spans of thirty-two bits

A token carries its text here, and its place as a number without a bound.  To save room, a token may
be kept as a span instead, an offset and a size in words of thirty-two bits, and its text is then
cut out of the source whenever it is asked for.  These are such spans: offsets are cut to words, and
sums of words wrap around.

In a source of fewer than `2 ^ 32` bytes nothing is lost (`Token.spanTells_of_between`).  Nothing is
claimed for longer sources: their spans may tell of other places, or of none.
-/

/-- All offsets of the source, that of its end included, are words of thirty-two bits. -/
def IsAddressable (source : List Char) : Prop := byteSize source < UInt32.size

instance (source : List Char) : Decidable (IsAddressable source) :=
  inferInstanceAs (Decidable (_ < _))

/-- An offset and a size, both in bytes. -/
structure Span where
  index : UInt32
  size : UInt32
deriving DecidableEq

namespace Span

/-- The span between two offsets, of which each is cut to a word. -/
def between (start stop : Nat) : Span :=
  ⟨UInt32.ofNat start, UInt32.ofNat stop - UInt32.ofNat start⟩

/-- The offset behind the span, which wraps around. -/
def stop (s : Span) : UInt32 := s.index + s.size

/-- The characters in a span of the source.  There is no answer if the span ends in front of its
start, or if one of its ends lies inside a character or behind the end of the source. -/
def fragment? (source : List Char) (s : Span) : Option (List Char) :=
  let size := s.stop.toNat - s.index.toNat
  let inside := slice source s.index.toNat size
  if s.index ≤ s.stop ∧ byteSize (slice source 0 s.index.toNat) = s.index.toNat ∧
      byteSize inside = size then
    some inside
  else none

variable {start stop : Nat}

/-- The end of a span is cut to a word.  In a span that goes around zero, it comes before the
beginning. -/
theorem stop_between (start stop : Nat) : (between start stop).stop = UInt32.ofNat stop := by
  rw [Span.stop, between, UInt32.add_comm, UInt32.sub_add_cancel]

/-- Offsets that are small enough are kept as they are. -/
theorem toNat_between (inOrder : start ≤ stop) (small : stop < UInt32.size) :
    (between start stop).index.toNat = start ∧ (between start stop).size.toNat = stop - start ∧
      (between start stop).stop.toNat = stop := by
  have startWord : (UInt32.ofNat start).toNat = start :=
    UInt32.toNat_ofNat_of_lt (Nat.lt_of_le_of_lt inOrder small)
  have stopWord : (UInt32.ofNat stop).toNat = stop := UInt32.toNat_ofNat_of_lt small
  refine ⟨startWord, ?_, ?_⟩
  · have noWrap : UInt32.ofNat start ≤ UInt32.ofNat stop := by
      rwa [UInt32.le_iff_toNat_le, startWord, stopWord]
    rw [between, UInt32.toNat_sub_of_le _ _ noWrap, startWord, stopWord]
  · rw [stop_between, stopWord]

/-- The characters between two parts of a source are those in the span between the two parts. -/
theorem fragment?_between {before run behind : List Char}
    (addressable : IsAddressable (before ++ (run ++ behind))) :
    (between (byteSize before) (byteSize (before ++ run))).fragment? (before ++ (run ++ behind)) =
      some run := by
  have small : byteSize (before ++ run) < UInt32.size := by
    have whole : byteSize (before ++ (run ++ behind)) =
        byteSize (before ++ run) + byteSize behind := by
      rw [← List.append_assoc, byteSize_append]
    unfold IsAddressable at addressable
    omega
  have inOrder : byteSize before ≤ byteSize (before ++ run) := by
    rw [byteSize_append]
    exact Nat.le_add_right _ _
  rcases toNat_between inOrder small with ⟨index, -, stop⟩
  have size : byteSize (before ++ run) - byteSize before = byteSize run := by
    rw [byteSize_append, Nat.add_sub_cancel_left]
  have front : slice (before ++ (run ++ behind)) 0 (byteSize before) = before :=
    slice_append [] before (run ++ behind)
  have noWrap : (between (byteSize before) (byteSize (before ++ run))).index ≤
      (between (byteSize before) (byteSize (before ++ run))).stop := by
    rwa [UInt32.le_iff_toNat_le, index, stop]
  simp only [fragment?, noWrap, index, stop, size, front, slice_append, and_self, if_true]

end Span

/-! ## Spans of tokens -/

/-- The span of a token. -/
def Token.span (t : Token) : Span := .between t.start.offset t.stop

/-- The span of a token tells its place and its text. -/
structure Token.SpanTells (source : List Char) (t : Token) : Prop where
  index : t.span.index.toNat = t.start.offset
  size : t.span.size.toNat = t.size
  place : Location.ofOffset source t.span.index.toNat = t.start
  text : t.span.fragment? source = some t.text.toList

/-- A token that is written in a source without long offsets is told by its span. -/
theorem Token.spanTells_of_between {source before behind : List Char} {t : Token}
    (addressable : IsAddressable source) (split : source = before ++ (t.text.toList ++ behind))
    (place : t.start = Location.start.after before) : t.SpanTells source := by
  have offset : t.start.offset = byteSize before := by
    rw [place, Location.offset_after_start]
  have sizeOfText : t.size = byteSize t.text.toList := by
    rw [Token.size, byteSize, String.ofList_toList]
  have stop : t.stop = byteSize (before ++ t.text.toList) := by
    rw [Token.stop, offset, sizeOfText, byteSize_append]
  have span : t.span = .between (byteSize before) (byteSize (before ++ t.text.toList)) := by
    rw [Token.span, offset, stop]
  subst split
  have inOrder : byteSize before ≤ byteSize (before ++ t.text.toList) := by
    rw [byteSize_append]
    exact Nat.le_add_right _ _
  have small : byteSize (before ++ t.text.toList) < UInt32.size := by
    have whole : byteSize (before ++ (t.text.toList ++ behind)) =
        byteSize (before ++ t.text.toList) + byteSize behind := by
      rw [← List.append_assoc, byteSize_append]
    unfold IsAddressable at addressable
    omega
  rcases Span.toNat_between inOrder small with ⟨index, size, -⟩
  exact
    { index := by rw [span, index, offset]
      size := by rw [span, size, byteSize_append, Nat.add_sub_cancel_left, sizeOfText]
      place := by rw [span, index, Location.ofOffset_append, place]
      text := by rw [span, Span.fragment?_between addressable] }

end Jack
