import Reflash.Word
/-! # How bytes are shown

  Words and bytes are shown in base sixteen with lower-case digits, padded with
  zeros to the width that the place calls for. A file is shown with its
  checksum.

  What another program said is shown as text. Its bytes are read as UTF-8. Where
  they are none, a replacement character stands for each piece that cannot be
  read: a byte that starts no character, or the beginning of a character that is
  broken off. The byte that breaks a character off is looked at again as the
  start of the next.
-/

namespace Reflash

/-! ### Hexadecimal digits -/

namespace Hex

/-- The digit for a number below sixteen. -/
def digit (n : Nat) : Char :=
  ("0123456789abcdef".toList[n]?).getD '?'

/-- The lowest `width` digits of a number. -/
def digits : Nat → Nat → List Char
  | 0, _ => []
  | width + 1, n => digits width (n / 16) ++ [digit (n % 16)]

/-- A byte in two digits. -/
def byte (b : UInt8) : String := String.ofList (digits 2 b.toNat)

/-- A word in eight digits. -/
def word (w : UInt32) : String := String.ofList (digits 8 w.toNat)

/-- Bytes, two digits each. -/
def bytes (bs : Bytes) : String := String.ofList (bs.flatMap fun b => digits 2 b.toNat)

/-- A list of bytes in brackets, two digits each. -/
def list (bs : Bytes) : String := "[" ++ String.intercalate ", " (bs.map byte) ++ "]"

end Hex

/-! ### Checksums -/

namespace Checksum

/-- The divisor, its bits in reverse order. -/
def polynomial : UInt32 := 0xEDB88320

/-- Shift the lowest bit out of the register. -/
def shift (r : UInt32) : UInt32 :=
  if r &&& 1 = 1 then (r >>> 1) ^^^ polynomial else r >>> 1

/-- Shift a byte through the register. -/
def step (r : UInt32) (b : UInt8) : UInt32 :=
  shift (shift (shift (shift (shift (shift (shift (shift (r ^^^ b.toUInt32))))))))

/-- The cyclic redundancy check of 32 bits. The register starts at all ones and is
    inverted at the end. -/
def crc32 (bytes : Bytes) : UInt32 := bytes.foldl step 0xFFFFFFFF ^^^ 0xFFFFFFFF

end Checksum

/-! ### Characters -/

namespace Utf8

/-- A character of which not all bytes have come. -/
structure Unfinished where
  /-- The number made of the bits so far. -/
  bits : Nat
  /-- The least byte that may come next. -/
  low : UInt8
  /-- The greatest byte that may come next. -/
  high : UInt8
  /-- How many bytes must come after the next. -/
  more : Nat
deriving DecidableEq, Inhabited

/-- Stands for what cannot be read. -/
def replacement : Char := '\uFFFD'

/-- The beginning of a character that its first byte makes. Of the second byte only
    such values may follow that the character could not be written shorter, is no
    surrogate, and is not beyond the last. -/
def begun? (b : UInt8) : Option Unfinished :=
  let n := b.toNat
  if b < 0xC2 then none
  else if b ≤ 0xDF then some ⟨n - 0xC0, 0x80, 0xBF, 0⟩
  else if b ≤ 0xEF then
    some ⟨n - 0xE0, if b = 0xE0 then 0xA0 else 0x80, if b = 0xED then 0x9F else 0xBF, 1⟩
  else if b ≤ 0xF4 then
    some ⟨n - 0xF0, if b = 0xF0 then 0x90 else 0x80, if b = 0xF4 then 0x8F else 0xBF, 2⟩
  else none

/-- Text that is being read, and the character at its end that is not complete. -/
structure Reading where
  text : String
  pending : Option Unfinished
deriving DecidableEq, Inhabited

namespace Reading

/-- Take a byte as the start of a character. -/
def start (text : String) (b : UInt8) : Reading :=
  if b < 0x80 then ⟨text.push (Char.ofNat b.toNat), none⟩
  else match begun? b with
    | some p => ⟨text, some p⟩
    | none => ⟨text.push replacement, none⟩

/-- Take the next byte. -/
def take (r : Reading) (b : UInt8) : Reading :=
  match r.pending with
  | none => start r.text b
  | some p =>
    if p.low ≤ b && b ≤ p.high then
      let bits := p.bits * 64 + (b.toNat - 0x80)
      match p.more with
      | 0 => ⟨r.text.push (Char.ofNat bits), none⟩
      | more + 1 => ⟨r.text, some ⟨bits, 0x80, 0xBF, more⟩⟩
    else start (r.text.push replacement) b

/-- The text when no more bytes come. -/
def finish (r : Reading) : String :=
  match r.pending with
  | none => r.text
  | some _ => r.text.push replacement

end Reading

/-- Bytes as text. -/
def text (bytes : Bytes) : String := (bytes.foldl Reading.take ⟨"", none⟩).finish

end Utf8

end Reflash
