import Reflash.Upload
/-! # Messages between host and device

  The host sends commands and the device answers with responses. The device
  numbers the commands it receives; an answer to a command that was carried out
  bears that number, the token.

  The device has room for short payloads only: a page for memory, a sector for
  the disk. `Limits` says which payloads a party can hold.
-/

namespace Reflash

/-- What the host asks for. -/
inductive Command where
  | getStatus
  | exclusiveAccess (mode : AccessMode)
  | read (addr len : UInt32)
  | write (addr : UInt32) (data : Bytes)
  | flashErase (addr len : UInt32)
  | exec (addr : UInt32)
  | reboot (request : RebootRequest)
  /-- A sector, as if written to the disk. -/
  | writeSector (lba : UInt32) (data : Bytes)
deriving DecidableEq, Inhabited

/-- What the device answers. -/
inductive Response where
  /-- The command is done. -/
  | ack (token : UInt32) (status : Status)
  /-- The command is done, and this was read. -/
  | data (token : UInt32) (status : Status) (bytes : Bytes)
  /-- The state of the device. -/
  | status (upload : UploadStatus) (fence : Option AccessMode) (rebooting : Bool)
deriving DecidableEq, Inhabited

/-- The most bytes that a read or write moves. -/
def maxTransfer : Nat := 256

/-- The bytes of a sector. -/
def sectorSize : Nat := 512

/-- The longest frame that either side sends or takes in. -/
def maxFrame : Nat := 1024

/-- The most payload bytes that a party can hold; `none` is no limit. -/
structure Limits where
  memory : Option Nat
  sector : Option Nat
deriving DecidableEq, Inhabited

namespace Limits

/-- The host holds payloads of any length. -/
def host : Limits := ⟨none, none⟩

/-- The device holds a page or a sector. -/
def device : Limits := ⟨some maxTransfer, some sectorSize⟩

end Limits

namespace Command

/-- Write bytes to memory, if they are few enough for one command. -/
def write? (addr : UInt32) (data : Bytes) : Option Command :=
  if data.length ≤ maxTransfer then some (.write addr data) else none

/-- Send a sector, if the bytes are no more than one. -/
def writeSector? (lba : UInt32) (data : Bytes) : Option Command :=
  if data.length ≤ sectorSize then some (.writeSector lba data) else none

end Command

namespace Response

/-- The answer to a read. What does not fit is cut off. -/
def readBack (token : UInt32) (status : Status) (bytes : Bytes) : Response :=
  .data token status (bytes.take maxTransfer)

/-- The token and status of an answer that bears a token. -/
def completion : Response → Option (UInt32 × Status)
  | .ack token result => some (token, result)
  | .data token result _ => some (token, result)
  | .status .. => none

end Response

/-- The answer that reports a finished job. One that never ran counts as kept
    out. -/
def Job.response (j : Job) : Response :=
  let status := j.result.getD .disabled
  if j.transfer = some .read then Response.readBack j.token status j.payload
  else .ack j.token status

end Reflash
