import Reflash.Word
/-! # Variable-length numbers

  On the wire a number is written in groups of seven bits, lowest first, one
  group in a byte; every byte but the last has its high bit set. A reader takes
  a bounded number of groups and bounds the last of them, so that the number
  fits its type. It accepts forms that are longer than need be.
-/

namespace Reflash

/-! ### Errors of reading -/

/-- Why bytes cannot be read as a value. -/
inductive DecodeError where
  /-- The bytes end too early. -/
  | unexpectedEnd
  /-- A number does not end, or is too large. -/
  | badVarint
  | badBool
  | badOption
  /-- A choice, a status or a length that the type does not have. -/
  | invalidValue
  /-- The frame is not well formed. -/
  | badEncoding
deriving DecidableEq, Inhabited

/-- The text of an error of reading. -/
def DecodeError.message : DecodeError → String
  | .unexpectedEnd => "Hit the end of buffer, expected more data"
  | .badVarint => "Found a varint that didn't terminate. Is the usize too big for this platform?"
  | .badBool => "Found a bool that wasn't 0 or 1"
  | .badOption => "Found an Option discriminant that wasn't 0 or 1"
  | .invalidValue => "Serde Deserialization Error"
  | .badEncoding => "The original data was not well encoded"

/-- How many groups a number may have, and the largest last group of a number
    with that many. -/
structure VarintWidth where
  groups : Nat
  lastGroup : Nat
deriving DecidableEq, Inhabited

namespace Varint

/-- Numbers of 32 bits. -/
def word : VarintWidth := ⟨5, 15⟩

/-- Numbers of 64 bits, as lengths are. -/
def length : VarintWidth := ⟨10, 1⟩

/-- The bytes of a number. -/
def encode (n : Nat) : Bytes :=
  if n < 128 then [UInt8.ofNat n] else UInt8.ofNat (n % 128 + 128) :: encode (n / 128)
termination_by n
decreasing_by omega

/-- Read a number of at most `groups` groups, and give back the bytes after
    it. -/
def decodeGroups (lastGroup : Nat) : Nat → Bytes → Except DecodeError (Nat × Bytes)
  | 0, _ => .error .badVarint
  | _ + 1, [] => .error .unexpectedEnd
  | groups + 1, b :: rest =>
    if b.toNat < 128 then
      if groups = 0 && lastGroup < b.toNat then .error .badVarint else .ok (b.toNat, rest)
    else do
      let (n, rest) ← decodeGroups lastGroup groups rest
      return (b.toNat - 128 + 128 * n, rest)

/-- Read a number of the given width, and give back the bytes after it. -/
def decode (w : VarintWidth) (bytes : Bytes) : Except DecodeError (Nat × Bytes) :=
  decodeGroups w.lastGroup w.groups bytes

end Varint

end Reflash
