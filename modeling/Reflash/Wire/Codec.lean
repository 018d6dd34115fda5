import Reflash.Wire.Varint
import Reflash.Wire.Stuffing
import Reflash.Message
/-! # Messages as bytes

  A choice is written as the number of the alternative and then its fields, in
  the order of their declaration. Words and lengths are variable-length numbers,
  a status is its code, a truth value a byte, an optional value a byte that says
  whether it is there. A run of bytes is preceded by its length.

  A message travels in a frame: its bytes, stuffed, and a zero.
-/

namespace Reflash

/-! ### Writing -/

namespace Encode

/-- A word. -/
def word (w : UInt32) : Bytes := Varint.encode w.toNat

/-- A run of bytes. -/
def blob (bytes : Bytes) : Bytes := Varint.encode bytes.length ++ bytes

/-- A truth value. -/
def bool (b : Bool) : Bytes := [if b then 1 else 0]

/-- A status. -/
def status (s : Status) : Bytes := [s.code]

/-- The number of an alternative. -/
def choice (n : Nat) : Bytes := Varint.encode n

/-- An access mode. -/
def mode (m : AccessMode) : Bytes := choice m.toNat

/-- An optional value. -/
def option {α : Type} (value : α → Bytes) : Option α → Bytes
  | none => [0]
  | some a => 1 :: value a

/-- How far an upload has come. -/
def progress : Progress → Bytes
  | .idle => choice 0
  | .active => choice 1
  | .complete => choice 2

/-- What is told about an upload. -/
def uploadStatus (s : UploadStatus) : Bytes :=
  progress s.progress ++ word s.validCount ++ word s.numBlocks ++ bool s.inRam

/-- A command. -/
def command : Command → Bytes
  | .getStatus => choice 0
  | .exclusiveAccess m => choice 1 ++ mode m
  | .read addr len => choice 2 ++ word addr ++ word len
  | .write addr data => choice 3 ++ word addr ++ blob data
  | .flashErase addr len => choice 4 ++ word addr ++ word len
  | .exec addr => choice 5 ++ word addr
  | .reboot r => choice 6 ++ word r.entry ++ word r.stack ++ word r.delayMs
  | .writeSector lba data => choice 7 ++ word lba ++ blob data

/-- A response. -/
def response : Response → Bytes
  | .ack token s => choice 0 ++ word token ++ status s
  | .data token s bytes => choice 1 ++ word token ++ status s ++ blob bytes
  | .status upload fence rebooting =>
    choice 2 ++ uploadStatus upload ++ option mode fence ++ bool rebooting

end Encode

/-! ### Reading -/

/-- A reader takes a value off the front of some bytes. -/
abbrev Decoder (α : Type) := StateT Bytes (Except DecodeError) α

namespace Decode

/-- The next byte. -/
def byte : Decoder UInt8
  | [] => .error .unexpectedEnd
  | b :: rest => .ok (b, rest)

/-- A variable-length number. -/
def number (w : VarintWidth) : Decoder Nat := fun bytes => Varint.decode w bytes

/-- A word. -/
def word : Decoder UInt32 := do return UInt32.ofNat (← number Varint.word)

/-- The next `n` bytes. Where there is room for no more than `limit`, one byte
    beyond the room is an error, unless the bytes end before it. -/
def take (limit : Option Nat) (n : Nat) : Decoder Bytes := fun bytes =>
  match limit with
  | none => if bytes.length < n then .error .unexpectedEnd else .ok (bytes.take n, bytes.drop n)
  | some room =>
    if bytes.length < min n (room + 1) then .error .unexpectedEnd
    else if room < n then .error .invalidValue
    else .ok (bytes.take n, bytes.drop n)

/-- A run of bytes behind its length. -/
def blob (limit : Option Nat) : Decoder Bytes := do take limit (← number Varint.length)

/-- A truth value. -/
def bool : Decoder Bool := do
  match ← byte with
  | 0 => return false
  | 1 => return true
  | _ => throw .badBool

/-- A value that the type may lack. -/
def present {α : Type} : Option α → Decoder α
  | some a => return a
  | none => throw .invalidValue

/-- A status. -/
def status : Decoder Status := do present (Status.ofCode? (← byte))

/-- The number of an alternative. -/
def choice : Decoder Nat := number Varint.word

/-- An access mode. -/
def mode : Decoder AccessMode := do present (AccessMode.ofNat? (← choice))

/-- An optional value. -/
def option {α : Type} (value : Decoder α) : Decoder (Option α) := do
  match ← byte with
  | 0 => return none
  | 1 => return some (← value)
  | _ => throw .badOption

/-- How far an upload has come. -/
def progress : Decoder Progress := do
  match ← choice with
  | 0 => return .idle
  | 1 => return .active
  | 2 => return .complete
  | _ => throw .invalidValue

/-- What is told about an upload. -/
def uploadStatus : Decoder UploadStatus := do
  return { progress := ← progress, validCount := ← word, numBlocks := ← word, inRam := ← bool }

/-- A command. -/
def command (limits : Limits) : Decoder Command := do
  match ← choice with
  | 0 => return .getStatus
  | 1 => return .exclusiveAccess (← mode)
  | 2 => return .read (← word) (← word)
  | 3 => return .write (← word) (← blob limits.memory)
  | 4 => return .flashErase (← word) (← word)
  | 5 => return .exec (← word)
  | 6 => return .reboot { entry := ← word, stack := ← word, delayMs := ← word }
  | 7 => return .writeSector (← word) (← blob limits.sector)
  | _ => throw .invalidValue

/-- A response. -/
def response (limits : Limits) : Decoder Response := do
  match ← choice with
  | 0 => return .ack (← word) (← status)
  | 1 => return .data (← word) (← status) (← blob limits.memory)
  | 2 => return .status (← uploadStatus) (← option mode) (← bool)
  | _ => throw .invalidValue

end Decode

/-- Read a value off the front of some bytes, and forget the rest. -/
def Decoder.run {α : Type} (d : Decoder α) (bytes : Bytes) : Except DecodeError α :=
  (StateT.run d bytes).map Prod.fst

/-! ### Frames -/

namespace Frame

/-- The frame around a message. -/
def wrap (message : Bytes) : Bytes := Stuffing.stuff message ++ [0]

/-- The frame around a message, if it fits into a buffer. -/
def wrap? (room : Nat) (message : Bytes) : Option Bytes :=
  if (wrap message).length ≤ room then some (wrap message) else none

/-- The message in a buffer, which ends at its first zero or at its end. An
    empty buffer holds none. -/
def body (buffer : Bytes) : Except DecodeError Bytes :=
  if buffer.isEmpty then .error .badEncoding
  else match Stuffing.unstuff? (buffer.takeWhile (· != 0)) with
    | some message => .ok message
    | none => .error .badEncoding

/-- The value in a buffer that holds a frame. -/
def decode {α : Type} (d : Decoder α) (buffer : Bytes) : Except DecodeError α := do
  d.run (← body buffer)

end Frame

end Reflash
