namespace Jack

/-!
# Strict UTF-8

Source files are bytes and have to be UTF-8 before anything else is asked of them.  Decoding refuses
over-long forms, surrogates and code points past U+10FFFF.  A refusal says how many bytes were good
and whether the input is wrong there or merely stops inside a character.
-/

/-- Why a byte sequence is not UTF-8.  `index` counts the bytes that were good. -/
inductive Utf8Error
  /-- The next `size` bytes begin a character that the byte behind them does not continue. -/
  | malformed (index size : Nat)
  /-- The input ends inside a character. -/
  | truncated (index : Nat)
deriving DecidableEq

namespace Utf8Error

/-- The text of the refusal. -/
def message : Utf8Error → String
  | malformed index size => s!"invalid utf-8 sequence of {size} bytes from index {index}"
  | truncated index => s!"incomplete utf-8 byte sequence from index {index}"

end Utf8Error

namespace Utf8

/-- The bytes that may follow each first byte of a longer character, and how many bytes follow.  The
second byte decides whether the form is the shortest one, a surrogate, or too large. -/
structure Lead where
  /-- Number of bytes behind the first. -/
  more : Nat
  /-- The value that the first byte contributes. -/
  value : Nat
  /-- Least and greatest second byte. -/
  low : UInt8
  high : UInt8

/-- What a first byte of `0x80` and above announces, if it may begin a character at all. -/
def lead? (b : UInt8) : Option Lead :=
  if 0xC2 ≤ b && b ≤ 0xDF then some ⟨1, b.toNat - 0xC0, 0x80, 0xBF⟩
  else if b = 0xE0 then some ⟨2, 0, 0xA0, 0xBF⟩
  else if b = 0xED then some ⟨2, 0xD, 0x80, 0x9F⟩
  else if 0xE1 ≤ b && b ≤ 0xEF then some ⟨2, b.toNat - 0xE0, 0x80, 0xBF⟩
  else if b = 0xF0 then some ⟨3, 0, 0x90, 0xBF⟩
  else if 0xF1 ≤ b && b ≤ 0xF3 then some ⟨3, b.toNat - 0xF0, 0x80, 0xBF⟩
  else if b = 0xF4 then some ⟨3, 4, 0x80, 0x8F⟩
  else none

/-- What decoding still expects: `more` further bytes of a character of which `seen` bytes have been
read with the value `value`, the next of them between `low` and `high`. -/
structure Pending where
  seen : Nat
  more : Nat
  value : Nat
  low : UInt8
  high : UInt8

/-- Decode bytes behind `index` good ones; `done` holds the characters so far in reverse. -/
def decodeFrom (done : List Char) (index : Nat) :
    Option Pending → List UInt8 → Except Utf8Error (List Char)
  | none, [] => .ok done.reverse
  | some _, [] => .error (.truncated index)
  | none, b :: rest =>
    if b < 0x80 then decodeFrom (Char.ofNat b.toNat :: done) (index + 1) none rest
    else
      match lead? b with
      | none => .error (.malformed index 1)
      | some l => decodeFrom done index (some ⟨1, l.more, l.value, l.low, l.high⟩) rest
  | some p, b :: rest =>
    if p.low ≤ b && b ≤ p.high then
      let value := p.value * 64 + (b.toNat - 0x80)
      if p.more ≤ 1 then
        decodeFrom (Char.ofNat value :: done) (index + p.seen + 1) none rest
      else
        decodeFrom done index (some ⟨p.seen + 1, p.more - 1, value, 0x80, 0xBF⟩) rest
    else .error (.malformed index p.seen)

/-- The characters that a byte sequence encodes. -/
def decode (bytes : List UInt8) : Except Utf8Error (List Char) :=
  decodeFrom [] 0 none bytes

end Utf8

end Jack
