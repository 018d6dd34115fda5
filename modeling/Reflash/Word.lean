/-! # 32-bit words and bytes

  The device computes with 32-bit words. They lie in memory, in sectors and on
  the wire as four little-endian bytes, and arithmetic on them must not wrap
  where a wrap would corrupt an address or a count. The checked operations here
  report such a wrap as a `Fault` instead of hiding it, so that freedom from
  wraps is a property of a run and not an assumption.
-/

namespace Reflash

/-- A run of bytes: a payload, a frame, a file. -/
abbrev Bytes := List UInt8

/-! ### Faults -/

/-- A broken internal promise. No input may lead to one. -/
inductive Fault where
  /-- A sum, difference or product left the range of a word. -/
  | overflow
  /-- A job that already carries a result was queued again. -/
  | resultAlreadySet
deriving DecidableEq, Inhabited

/-- The text that a fault is reported with. -/
def Fault.message : Fault → String
  | .overflow => "arithmetic overflow"
  | .resultAlreadySet => "queued task already has a result"

namespace Word

/-! ### Checked arithmetic -/

/-- The sum of two words, if it is a word. -/
def plus (a b : UInt32) : Except Fault UInt32 :=
  if a.toNat + b.toNat < UInt32.size then .ok (a + b) else .error .overflow

/-- The difference of two words, if it is a word. -/
def minus (a b : UInt32) : Except Fault UInt32 :=
  if b ≤ a then .ok (a - b) else .error .overflow

/-- The product of two words, if it is a word. -/
def times (a b : UInt32) : Except Fault UInt32 :=
  if a.toNat * b.toNat < UInt32.size then .ok (a * b) else .error .overflow

theorem plus_eq_ok {a b : UInt32} (h : a.toNat + b.toNat < UInt32.size) :
    plus a b = .ok (a + b) := if_pos h

theorem minus_eq_ok {a b : UInt32} (h : b ≤ a) : minus a b = .ok (a - b) := if_pos h

theorem times_eq_ok {a b : UInt32} (h : a.toNat * b.toNat < UInt32.size) :
    times a b = .ok (a * b) := if_pos h

/-- The product of two words, or the largest word where the product is none. -/
def timesCapped (a b : UInt32) : UInt32 :=
  if a.toNat * b.toNat < UInt32.size then a * b else 0xFFFFFFFF

/-- The sum of two words, or the largest word where the sum is none. -/
def plusCapped (a b : UInt32) : UInt32 :=
  if a.toNat + b.toNat < UInt32.size then a + b else 0xFFFFFFFF

/-! ### Little-endian bytes -/

/-- The four bytes of a word, lowest first. -/
def bytes (w : UInt32) : Vector UInt8 4 :=
  #v[w.toUInt8, (w >>> 8).toUInt8, (w >>> 16).toUInt8, (w >>> 24).toUInt8]

/-- The word with the given bytes, lowest first. -/
def ofBytes (b0 b1 b2 b3 : UInt8) : UInt32 :=
  b0.toUInt32 ||| (b1.toUInt32 <<< 8) ||| (b2.toUInt32 <<< 16) ||| (b3.toUInt32 <<< 24)

end Word

end Reflash
