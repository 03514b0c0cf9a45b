import Jack.Text.Utf8

namespace Jack

/-!
# Decoding is the inverse of encoding

`decode_eq_ok_iff` says that decoding accepts exactly the bytes that encode characters, and finds
these characters again.  Both directions take one character at a time: a first byte announces how
many bytes follow, and the bytes read so far hold the leading bits of the character.
-/

namespace Utf8

/-- What first bytes announce, in terms of their numbers. -/
theorem lead?_eq (b : UInt8) :
    lead? b =
      if 0xC2 ≤ b.toNat ∧ b.toNat ≤ 0xDF then some ⟨1, b.toNat - 0xC0, 0x80, 0xBF⟩
      else if 0xE0 ≤ b.toNat ∧ b.toNat ≤ 0xEF then
        some ⟨2, b.toNat - 0xE0, if b.toNat = 0xE0 then 0xA0 else 0x80,
          if b.toNat = 0xED then 0x9F else 0xBF⟩
      else if 0xF0 ≤ b.toNat ∧ b.toNat ≤ 0xF4 then
        some ⟨3, b.toNat - 0xF0, if b.toNat = 0xF0 then 0x90 else 0x80,
          if b.toNat = 0xF4 then 0x8F else 0xBF⟩
      else none := by
  simp only [lead?, UInt8.le_iff_toNat_le, ← UInt8.toNat_inj, Bool.and_eq_true, decide_eq_true_eq,
    UInt8.reduceToNat]
  grind

/-- Whatever is announced, the next byte is one that continues a character. -/
theorem bounds_of_lead? {b : UInt8} {l : Lead} (announced : lead? b = some l) :
    0x80 ≤ l.low.toNat ∧ l.high.toNat ≤ 0xBF := by
  rw [lead?_eq] at announced
  split at announced
  · cases announced
    exact ⟨Nat.le_refl _, Nat.le_refl _⟩
  · split at announced
    · cases announced
      simp only [apply_ite UInt8.toNat, UInt8.reduceToNat]
      grind
    · split at announced
      · cases announced
        simp only [apply_ite UInt8.toNat, UInt8.reduceToNat]
        grind
      · cases announced

/-- A first byte announces so many further bytes, and the first of them may bring the last six bits
of a number; the others are the bits of the first byte. -/
def Announces (b : UInt8) (more n : Nat) : Prop :=
  ∃ low high, lead? b = some ⟨more, n / 64, low, high⟩ ∧
    low.toNat ≤ n % 64 + 0x80 ∧ n % 64 + 0x80 ≤ high.toNat

/-- Bytes are announced for the leading bits of all characters that need them.  Over-long forms,
surrogates and too large numbers are seen at the second byte. -/
theorem announces_iff {b : UInt8} {more n : Nat} :
    Announces b more n ↔
      (more = 1 ∧ b.toNat = n / 64 + 0xC0 ∧ 0x80 ≤ n ∧ n < 0x800) ∨
      (more = 2 ∧ b.toNat = n / 64 + 0xE0 ∧ 0x20 ≤ n ∧ n < 0x400 ∧ ¬ (0x360 ≤ n ∧ n < 0x380)) ∨
      (more = 3 ∧ b.toNat = n / 64 + 0xF0 ∧ 0x10 ≤ n ∧ n < 0x110) := by
  unfold Announces
  rw [lead?_eq]
  constructor
  · rintro ⟨low, high, announced, above, below⟩
    split at announced
    case isTrue two =>
      simp only [Option.some.injEq, Lead.mk.injEq] at announced
      omega
    case isFalse notTwo =>
      split at announced
      case isTrue three =>
        -- The second byte is held to smaller ranges behind two of the first bytes.
        simp only [Option.some.injEq, Lead.mk.injEq] at announced
        rcases announced with ⟨count, value, rfl, rfl⟩
        simp only [apply_ite UInt8.toNat, UInt8.reduceToNat] at above below
        grind
      case isFalse notThree =>
        split at announced
        case isTrue four =>
          simp only [Option.some.injEq, Lead.mk.injEq] at announced
          rcases announced with ⟨count, value, rfl, rfl⟩
          simp only [apply_ite UInt8.toNat, UInt8.reduceToNat] at above below
          grind
        case isFalse => cases announced
  · rintro (⟨rfl, byte, least, greatest⟩ | ⟨rfl, byte, least, greatest, noSurrogate⟩ |
      ⟨rfl, byte, least, greatest⟩)
    · refine ⟨0x80, 0xBF, ?_, ?_, ?_⟩
      · rw [if_pos (by omega), byte, Nat.add_sub_cancel]
      · simp only [UInt8.reduceToNat]
        omega
      · simp only [UInt8.reduceToNat]
        omega
    · refine ⟨if b.toNat = 0xE0 then 0xA0 else 0x80, if b.toNat = 0xED then 0x9F else 0xBF,
        ?_, ?_, ?_⟩
      · rw [if_neg (by omega), if_pos (by omega), byte, Nat.add_sub_cancel]
      · simp only [apply_ite UInt8.toNat, UInt8.reduceToNat]
        grind
      · simp only [apply_ite UInt8.toNat, UInt8.reduceToNat]
        grind
    · refine ⟨if b.toNat = 0xF0 then 0x90 else 0x80, if b.toNat = 0xF4 then 0x8F else 0xBF,
        ?_, ?_, ?_⟩
      · rw [if_neg (by omega), if_neg (by omega), if_pos (by omega), byte, Nat.add_sub_cancel]
      · simp only [apply_ite UInt8.toNat, UInt8.reduceToNat]
        grind
      · simp only [apply_ite UInt8.toNat, UInt8.reduceToNat]
        grind

/-! ## One character -/

variable {done cs : List Char} {index : Nat} {bytes rest : List UInt8}

/-- Numbers up to 255 fit a byte. -/
theorem toNat_ofNat {n : Nat} (small : n ≤ 255) : (UInt8.ofNat n).toNat = n :=
  UInt8.toNat_ofNat_of_lt' (Nat.lt_succ_of_le small)

/-- A byte within the bounds brings six more bits of a character. -/
theorem decodeFrom_some {seen more n : Nat} {low high : UInt8}
    (above : low.toNat ≤ n % 64 + 0x80) (below : n % 64 + 0x80 ≤ high.toNat) :
    decodeFrom done index (some ⟨seen, more, n / 64, low, high⟩)
        (UInt8.ofNat (n % 64 + 0x80) :: rest) =
      if more ≤ 1 then decodeFrom (Char.ofNat n :: done) (index + seen + 1) none rest
      else decodeFrom done index (some ⟨seen + 1, more - 1, n, 0x80, 0xBF⟩) rest := by
  have byte : (UInt8.ofNat (n % 64 + 0x80)).toNat = n % 64 + 0x80 := toNat_ofNat (by omega)
  have inside : (low ≤ UInt8.ofNat (n % 64 + 0x80) && UInt8.ofNat (n % 64 + 0x80) ≤ high) =
      true := by
    simp only [UInt8.le_iff_toNat_le, byte, above, below, decide_true, Bool.and_self]
  have bits : n / 64 * 64 + ((UInt8.ofNat (n % 64 + 0x80)).toNat - 0x80) = n := by
    rw [byte]
    omega
  rw [decodeFrom, if_pos inside, bits]

/-- Nothing but such a byte continues a character. -/
theorem exists_of_decodeFrom_some {seen more value : Nat} {low high : UInt8}
    (bound : 0x80 ≤ low.toNat ∧ high.toNat ≤ 0xBF)
    (decoded : decodeFrom done index (some ⟨seen, more, value, low, high⟩) bytes = .ok cs) :
    ∃ n rest, value = n / 64 ∧ bytes = UInt8.ofNat (n % 64 + 0x80) :: rest ∧
      low.toNat ≤ n % 64 + 0x80 ∧ n % 64 + 0x80 ≤ high.toNat := by
  cases bytes with
  | nil =>
      rw [decodeFrom] at decoded
      cases decoded
  | cons b rest =>
      rw [decodeFrom] at decoded
      split at decoded
      case isFalse => cases decoded
      case isTrue inside =>
        simp only [Bool.and_eq_true, decide_eq_true_eq, UInt8.le_iff_toNat_le] at inside
        have bits : (value * 64 + (b.toNat - 0x80)) % 64 + 0x80 = b.toNat := by omega
        refine ⟨value * 64 + (b.toNat - 0x80), rest, by omega, ?_, ?_, ?_⟩
        · rw [bits, UInt8.ofNat_toNat]
        · rw [bits]
          exact inside.1
        · rw [bits]
          exact inside.2

/-- A first byte is followed by what it announces. -/
theorem decodeFrom_lead {b : UInt8} {l : Lead} (announced : lead? b = some l) :
    decodeFrom done index none (b :: rest) =
      decodeFrom done index (some ⟨1, l.more, l.value, l.low, l.high⟩) rest := by
  have large : ¬ b < 0x80 := by
    rw [lead?_eq] at announced
    simp only [UInt8.lt_iff_toNat_lt, UInt8.reduceToNat]
    grind
  rw [decodeFrom, if_neg large, announced]

/-- A first byte and one byte behind it.  Either the character is complete, or it goes on with what
the two bytes have told. -/
theorem Announces.decodeFrom_eq {b : UInt8} {more n : Nat} (announces : Announces b more n) :
    decodeFrom done index none (b :: UInt8.ofNat (n % 64 + 0x80) :: rest) =
      if more ≤ 1 then decodeFrom (Char.ofNat n :: done) (index + 1 + 1) none rest
      else decodeFrom done index (some ⟨1 + 1, more - 1, n, 0x80, 0xBF⟩) rest := by
  rcases announces with ⟨low, high, announced, above, below⟩
  rw [decodeFrom_lead announced, decodeFrom_some above below]

/-- Only announced bytes are decoded behind a byte that is no character of its own. -/
theorem exists_announces {b : UInt8} (large : ¬ b < 0x80)
    (decoded : decodeFrom done index none (b :: bytes) = .ok cs) :
    ∃ more n rest, Announces b more n ∧ bytes = UInt8.ofNat (n % 64 + 0x80) :: rest := by
  rw [decodeFrom, if_neg large] at decoded
  cases announced : lead? b with
  | none =>
      rw [announced] at decoded
      cases decoded
  | some l =>
      rw [announced] at decoded
      rcases exists_of_decodeFrom_some (bounds_of_lead? announced) decoded with
        ⟨n, rest, value, same, above, below⟩
      exact ⟨l.more, n, rest, ⟨l.low, l.high, by rw [announced, ← value], above, below⟩, same⟩

/-- Behind the second byte any byte may come that continues a character. -/
theorem within (n : Nat) :
    (0x80 : UInt8).toNat ≤ n % 64 + 0x80 ∧ n % 64 + 0x80 ≤ (0xBF : UInt8).toNat := by
  simp only [UInt8.reduceToNat]
  omega

/-- The bytes of the character with a number. -/
theorem utf8EncodeChar_ofNat {n : Nat} (scalar : n.isValidChar) :
    String.utf8EncodeChar (Char.ofNat n) =
      if n ≤ 0x7F then [UInt8.ofNat n]
      else if n ≤ 0x7FF then [UInt8.ofNat (n / 64 + 0xC0), UInt8.ofNat (n % 64 + 0x80)]
      else if n ≤ 0xFFFF then
        [UInt8.ofNat (n / 64 / 64 + 0xE0), UInt8.ofNat (n / 64 % 64 + 0x80),
          UInt8.ofNat (n % 64 + 0x80)]
      else
        [UInt8.ofNat (n / 64 / 64 / 64 + 0xF0), UInt8.ofNat (n / 64 / 64 % 64 + 0x80),
          UInt8.ofNat (n / 64 % 64 + 0x80), UInt8.ofNat (n % 64 + 0x80)] := by
  have number : (Char.ofNat n).val.toNat = n := by
    rw [Char.ofNat, dif_pos scalar]
    rfl
  have least : n < 0x110000 := by
    rcases scalar with small | ⟨-, small⟩ <;> omega
  have second : n / 4096 = n / 64 / 64 := by omega
  simp only [String.utf8EncodeChar, number, second]
  split
  · rfl
  · split
    · have first : n / 64 % 0x20 = n / 64 := by omega
      rw [first]
    · split
      · have first : n / 64 / 64 % 0x10 = n / 64 / 64 := by omega
        rw [first]
      · have first : n / 262144 % 0x08 = n / 64 / 64 / 64 := by omega
        rw [first]

/-- The encoding of a character is decoded to the character. -/
theorem decodeFrom_encoded (done : List Char) (index : Nat) (c : Char) (rest : List UInt8) :
    ∃ index', decodeFrom done index none (String.utf8EncodeChar c ++ rest) =
      decodeFrom (c :: done) index' none rest := by
  have scalar : c.toNat.isValidChar := c.valid
  rw [← Char.ofNat_toNat c, utf8EncodeChar_ofNat scalar]
  generalize c.toNat = n at scalar
  have least : n < 0xD800 ∨ 0xDFFF < n ∧ n < 0x110000 := scalar
  split
  case isTrue one =>
    have byte : (UInt8.ofNat n).toNat = n := toNat_ofNat (by omega)
    have small : UInt8.ofNat n < 0x80 := by
      rw [UInt8.lt_iff_toNat_lt, byte]
      exact Nat.lt_succ_of_le one
    refine ⟨index + 1, ?_⟩
    rw [List.cons_append, List.nil_append, decodeFrom, if_pos small, byte]
  case isFalse notOne =>
    split
    case isTrue two =>
      have announces : Announces (UInt8.ofNat (n / 64 + 0xC0)) 1 n := by
        rw [announces_iff, toNat_ofNat (by omega)]
        omega
      refine ⟨index + 1 + 1, ?_⟩
      rw [List.cons_append, List.cons_append, List.nil_append, announces.decodeFrom_eq,
        if_pos (Nat.le_refl 1)]
    case isFalse notTwo =>
      split
      case isTrue three =>
        have announces : Announces (UInt8.ofNat (n / 64 / 64 + 0xE0)) 2 (n / 64) := by
          rw [announces_iff, toNat_ofNat (by omega)]
          omega
        refine ⟨index + 2 + 1, ?_⟩
        simp only [List.cons_append, List.nil_append]
        rw [announces.decodeFrom_eq, if_neg (by omega), decodeFrom_some (within n).1 (within n).2,
          if_pos (Nat.le_refl 1)]
      case isFalse notThree =>
        have announces : Announces (UInt8.ofNat (n / 64 / 64 / 64 + 0xF0)) 3 (n / 64 / 64) := by
          rw [announces_iff, toNat_ofNat (by omega)]
          omega
        refine ⟨index + 3 + 1, ?_⟩
        simp only [List.cons_append, List.nil_append]
        rw [announces.decodeFrom_eq, if_neg (by omega),
          decodeFrom_some (within (n / 64)).1 (within (n / 64)).2, if_neg (by omega),
          decodeFrom_some (within n).1 (within n).2, if_pos (Nat.le_refl 1)]

/-- What is decoded begins with the encoding of a character. -/
theorem exists_encoded {b : UInt8}
    (decoded : decodeFrom done index none (b :: bytes) = .ok cs) :
    ∃ c index' rest, b :: bytes = String.utf8EncodeChar c ++ rest ∧
      decodeFrom (c :: done) index' none rest = .ok cs := by
  by_cases one : b < 0x80
  · have small : b.toNat ≤ 0x7F := Nat.le_of_lt_succ (UInt8.lt_iff_toNat_lt.mp one)
    rw [decodeFrom, if_pos one] at decoded
    refine ⟨Char.ofNat b.toNat, index + 1, bytes, ?_, decoded⟩
    rw [utf8EncodeChar_ofNat (.inl (by omega)), if_pos small, UInt8.ofNat_toNat,
      List.singleton_append]
  · rcases exists_announces one decoded with ⟨more, n, rest, announces, rfl⟩
    rw [announces.decodeFrom_eq] at decoded
    have first : UInt8.ofNat b.toNat = b := UInt8.ofNat_toNat
    rcases announces_iff.mp announces with ⟨rfl, byte, least, greatest⟩ |
      ⟨rfl, byte, least, greatest, noSurrogate⟩ | ⟨rfl, byte, least, greatest⟩
    · rw [if_pos (Nat.le_refl 1)] at decoded
      refine ⟨_, _, rest, ?_, decoded⟩
      rw [utf8EncodeChar_ofNat (.inl (by omega)), if_neg (by omega), if_pos (by omega), ← byte,
        first]
      rfl
    · rw [if_neg (by omega)] at decoded
      rcases exists_of_decodeFrom_some ⟨Nat.le_refl _, Nat.le_refl _⟩ decoded with
        ⟨m, rest, rfl, rfl, above, below⟩
      rw [decodeFrom_some above below, if_pos (Nat.le_refl 1)] at decoded
      refine ⟨_, _, rest, ?_, decoded⟩
      have scalar : m < 0xD800 ∨ 0xDFFF < m ∧ m < 0x110000 := by omega
      rw [utf8EncodeChar_ofNat scalar, if_neg (by omega), if_neg (by omega), if_pos (by omega),
        ← byte, first]
      rfl
    · rw [if_neg (by omega)] at decoded
      rcases exists_of_decodeFrom_some ⟨Nat.le_refl _, Nat.le_refl _⟩ decoded with
        ⟨m, rest, rfl, rfl, above, below⟩
      rw [decodeFrom_some above below, if_neg (by omega)] at decoded
      rcases exists_of_decodeFrom_some ⟨Nat.le_refl _, Nat.le_refl _⟩ decoded with
        ⟨k, rest, rfl, rfl, above, below⟩
      rw [decodeFrom_some above below, if_pos (Nat.le_refl 1)] at decoded
      refine ⟨_, _, rest, ?_, decoded⟩
      have scalar : k < 0xD800 ∨ 0xDFFF < k ∧ k < 0x110000 := by omega
      rw [utf8EncodeChar_ofNat scalar, if_neg (by omega), if_neg (by omega), if_neg (by omega),
        ← byte, first]
      rfl

/-! ## All characters -/

/-- What was encoded is decoded again, behind whatever was decoded before. -/
theorem decodeFrom_flatMap (more : List Char) :
    decodeFrom done index none (more.flatMap String.utf8EncodeChar) =
      .ok (done.reverse ++ more) := by
  induction more generalizing done index with
  | nil => rw [List.flatMap_nil, decodeFrom, List.append_nil]
  | cons c more inductionHypothesis =>
      rcases decodeFrom_encoded done index c (more.flatMap String.utf8EncodeChar) with
        ⟨index', decoded⟩
      rw [List.flatMap_cons, decoded, inductionHypothesis, List.reverse_cons,
        List.append_assoc, List.singleton_append]

/-- Whatever can be decoded was encoded so, and in no other way. -/
theorem eq_flatMap_of_decodeFrom (decoded : decodeFrom done index none bytes = .ok cs) :
    ∃ more, cs = done.reverse ++ more ∧ bytes = more.flatMap String.utf8EncodeChar := by
  induction length : bytes.length using Nat.strongRecOn generalizing bytes done index with
  | ind n inductionHypothesis =>
      cases bytes with
      | nil =>
          rw [decodeFrom] at decoded
          cases decoded
          exact ⟨[], (List.append_nil _).symm, rfl⟩
      | cons b bytes =>
          rcases exists_encoded decoded with ⟨c, index', rest, front, decodedRest⟩
          have shorter : rest.length < n := by
            have lengths := congrArg List.length front
            have positive := c.utf8Size_pos
            rw [List.length_append, String.length_utf8EncodeChar] at lengths
            omega
          rcases inductionHypothesis rest.length shorter decodedRest rfl with ⟨more, rfl, encoded⟩
          refine ⟨c :: more, ?_, ?_⟩
          · rw [List.reverse_cons, List.append_assoc, List.singleton_append]
          · rw [front, encoded, List.flatMap_cons]

/-- Decoding accepts exactly the bytes that encode characters, and finds the characters. -/
theorem decode_eq_ok_iff {bytes : ByteArray} :
    decode bytes.data.toList = .ok cs ↔ bytes = (String.ofList cs).toUTF8 := by
  have encoding : (String.ofList cs).toUTF8 = (cs.flatMap String.utf8EncodeChar).toByteArray := by
    rw [String.toUTF8_eq_toByteArray, String.toByteArray_ofList, List.utf8Encode]
  rw [encoding]
  constructor
  · intro decoded
    rcases eq_flatMap_of_decodeFrom decoded with ⟨more, rfl, encoded⟩
    rw [← encoded]
    exact ByteArray.ext (by rw [List.data_toByteArray, Array.toArray_toList])
  · rintro rfl
    rw [decode, List.data_toByteArray, decodeFrom_flatMap, List.reverse_nil, List.nil_append]

end Utf8

end Jack
