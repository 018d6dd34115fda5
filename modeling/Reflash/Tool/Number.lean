import Reflash.Word
/-! # Numbers on the command line

  Addresses and lengths are written in decimal, or in hexadecimal behind `0x`.
  Underscores may stand anywhere behind the marker and count for nothing; a plus
  sign may stand before the digits.
-/

namespace Reflash

namespace Number

/-- Why a text is not a number. -/
inductive Flaw where
  | empty
  | invalidDigit
  | tooLarge
  | tooSmall
deriving DecidableEq, Inhabited

/-- The text of a flaw. -/
def Flaw.message : Flaw → String
  | .empty => "cannot parse integer from empty string"
  | .invalidDigit => "invalid digit found in string"
  | .tooLarge => "number too large to fit in target type"
  | .tooSmall => "number too small to fit in target type"

/-- The value of a digit in base ten or sixteen. -/
def digit? (base : Nat) (c : Char) : Option Nat :=
  let value :=
    if '0' ≤ c ∧ c ≤ '9' then some (c.toNat - '0'.toNat)
    else if 'a' ≤ c ∧ c ≤ 'f' then some (c.toNat - 'a'.toNat + 10)
    else if 'A' ≤ c ∧ c ≤ 'F' then some (c.toNat - 'A'.toNat + 10)
    else none
  value.filter (· < base)

/-- The value of some digits behind those that make up `value`. The first
    flaw counts: a digit that is none, or a value above `most`, which is found
    to be `excess`. -/
def digits (base most : Nat) (excess : Flaw) : Nat → List Char → Except Flaw Nat
  | value, [] => .ok value
  | value, c :: rest =>
    match digit? base c with
    | none => .error .invalidDigit
    | some d =>
      if most < value * base + d then .error excess
      else digits base most excess (value * base + d) rest

/-- A number that is not negative: an optional plus sign, then digits. -/
def natural (base most : Nat) : List Char → Except Flaw Nat
  | [] => .error .empty
  | ['+'] | ['-'] => .error .invalidDigit
  | '+' :: cs => digits base most .tooLarge 0 cs
  | cs => digits base most .tooLarge 0 cs

/-- A number with an optional sign, in 64 bits. -/
def signed : List Char → Except Flaw Int
  | [] => .error .empty
  | ['+'] | ['-'] => .error .invalidDigit
  | '-' :: cs => (digits 10 0x8000000000000000 .tooSmall 0 cs).map fun n => -(n : Int)
  | '+' :: cs => (digits 10 0x7FFFFFFFFFFFFFFF .tooLarge 0 cs).map Int.ofNat
  | cs => (digits 10 0x7FFFFFFFFFFFFFFF .tooLarge 0 cs).map Int.ofNat

/-- The base of a text and the characters behind its marker. -/
def splitBase : List Char → Nat × List Char
  | '0' :: 'x' :: cs => (16, cs)
  | '0' :: 'X' :: cs => (16, cs)
  | cs => (10, cs)

/-- The largest word. -/
def largestWord : Nat := 0xFFFFFFFF

/-- The word that a text stands for. -/
def word? (text : List Char) : Except Flaw UInt32 :=
  let (base, cs) := splitBase text
  (natural base largestWord (cs.filter (· != '_'))).map UInt32.ofNat

/-- The complaint about a text that stands for no word. -/
def flawText (text : String) (flaw : Flaw) : String :=
  "invalid number '" ++ text ++ "': " ++ flaw.message

/-- The word that an argument stands for, or the complaint. -/
def parse (text : String) : Except String UInt32 :=
  (word? text.toList).mapError (flawText text)

/-- A delay: a plain decimal word. It is read as a signed number first, so one
    that is out of range is named in the complaint. -/
def parseDelay (text : String) : Except String UInt32 :=
  match signed text.toList with
  | .error flaw => .error flaw.message
  | .ok n =>
    if 0 ≤ n ∧ n ≤ largestWord then .ok (UInt32.ofNat n.toNat)
    else .error (toString n ++ " is not in 0..=4294967295")

end Number

end Reflash
