import Reflash.AddressMap
/-! # Jobs

  A job is a privileged operation that one side asks for and the worker carries
  out later. It is a bundle of independent effects: change who may write, call
  code, erase flash, write memory, read memory. The worker applies them in one
  fixed order, so a job says what is to happen and not when.
-/

namespace Reflash

/-! ### Statuses and modes -/

/-- How a job ended. -/
inductive Status where
  | ok
  /-- The job came from the disk while another party held exclusive access. -/
  | disabled
  | invalidTransferLength
  | invalidAddress
  | badAlignment
  /-- The other party wrote in between. -/
  | interleavedWrite
  /-- A reboot is due; nothing is carried out any more. -/
  | rebooting
deriving DecidableEq, Inhabited

namespace Status

/-- The byte that stands for a status on the wire. -/
def code : Status → UInt8
  | .ok => 0
  | .disabled => 1
  | .invalidTransferLength => 3
  | .invalidAddress => 4
  | .badAlignment => 5
  | .interleavedWrite => 6
  | .rebooting => 7

/-- The status that a byte stands for. -/
def ofCode? (code : UInt8) : Option Status :=
  [ok, disabled, invalidTransferLength, invalidAddress, badAlignment, interleavedWrite,
    rebooting].find? fun s => s.code = code

/-- Whether the job did what it was asked for. -/
def isOk (s : Status) : Bool := s = .ok

/-- The name a status is shown with. -/
def name : Status → String
  | .ok => "Ok"
  | .disabled => "Disabled"
  | .invalidTransferLength => "InvalidTransferLength"
  | .invalidAddress => "InvalidAddress"
  | .badAlignment => "BadAlignment"
  | .interleavedWrite => "InterleavedWrite"
  | .rebooting => "Rebooting"

/-- The complaint about a byte that stands for no status. -/
def unknownText (code : UInt8) : String := "unknown status code " ++ toString code.toNat

@[simp] theorem ofCode?_code (s : Status) : ofCode? s.code = some s := by cases s <;> rfl

end Status

/-- Who may write: both parties, or the control channel alone. -/
inductive AccessMode where
  /-- The disk takes part. -/
  | shared
  /-- The disk is fenced off. -/
  | exclusive
  /-- The disk is fenced off and the volume is ejected. -/
  | exclusiveAndEject
deriving DecidableEq, Inhabited

namespace AccessMode

/-- The number of a mode. -/
def ofNat? : Nat → Option AccessMode
  | 0 => some .shared
  | 1 => some .exclusive
  | 2 => some .exclusiveAndEject
  | _ => none

/-- The number of a mode. -/
def toNat : AccessMode → Nat
  | .shared => 0
  | .exclusive => 1
  | .exclusiveAndEject => 2

/-- Whether the mode keeps the disk out. -/
def isExclusive (m : AccessMode) : Bool := m != .shared

/-- The name a mode is shown with. -/
def name : AccessMode → String
  | .shared => "Shared"
  | .exclusive => "Exclusive"
  | .exclusiveAndEject => "ExclusiveAndEject"

@[simp] theorem ofNat?_toNat (m : AccessMode) : ofNat? m.toNat = some m := by cases m <;> rfl

end AccessMode

/-- The two parties that hand jobs to the worker, each through a slot of its
    own: the virtual disk and the control channel. -/
inductive Channel where
  | disk
  | control
deriving DecidableEq, Inhabited

namespace Channel

/-- The name of a party as a writer. -/
def name : Channel → String
  | .disk => "VirtualDisk"
  | .control => "Control"

/-- The name of a party's slot. -/
def slotName : Channel → String
  | .disk => "virtual disk"
  | .control => "control"

end Channel

/-- Which way bytes move between a job and memory. -/
inductive Direction where
  /-- From the job into memory. -/
  | write
  /-- From memory into the job. -/
  | read
deriving DecidableEq, Inhabited

/-- A name for a direction. -/
def Direction.name : Direction → String
  | .write => "Write"
  | .read => "Read"

/-- A run of flash to be erased. -/
structure EraseRange where
  addr : UInt32
  len : UInt32
deriving DecidableEq, Inhabited

/-- Who is told when a job is done. -/
inductive Listener where
  /-- The host alone. -/
  | host
  /-- The upload first, which counts the block as written, then the host. -/
  | upload
deriving DecidableEq, Inhabited

/-! ### The job -/

/-- A page of bytes that travels with a job. -/
abbrev Page := Vector UInt8 256

/-- One deferred operation. -/
structure Job where
  /-- Change who may write. -/
  access : Option AccessMode
  /-- Call the code at `addr`. -/
  execute : Bool
  /-- Flash may be touched: it is taken out of execute-in-place mode. -/
  exitXip : Bool
  /-- Flash to be erased before anything is written. -/
  erase : Option EraseRange
  /-- Move bytes between `data` and memory at `addr`. -/
  transfer : Option Direction
  /-- Refuse to write after the other party wrote. -/
  guarded : Bool
  addr : UInt32
  /-- How many bytes of `data` count. -/
  length : UInt32
  data : Page
  source : Channel
  /-- The number under which the host knows the operation. -/
  token : UInt32
  /-- How the job ended, once it has. -/
  result : Option Status
  listener : Option Listener
deriving DecidableEq, Inhabited

namespace Job

/-- A page that starts with the given bytes and goes on as `old` does. -/
def overlay (old : Page) (bytes : Bytes) : Page :=
  ⟨(bytes.take 256 ++ old.toList.drop bytes.length).toArray, by
    simp only [List.size_toArray, List.length_append, List.length_take, List.length_drop,
      Vector.length_toList]
    omega⟩

/-- A job with no effect. -/
def idle (source : Channel) (token : UInt32) : Job :=
  { access := none, execute := false, exitXip := false, erase := none, transfer := none
    guarded := false, addr := 0, length := 0, data := Vector.replicate 256 0, source, token
    result := none, listener := none }

/-- Write bytes to memory. No more than a page fits. -/
def write (source : Channel) (token addr : UInt32) (bytes : Bytes) : Except Status Job :=
  if bytes.length ≤ 256 then
    .ok { idle source token with
      transfer := some .write, addr, length := UInt32.ofNat bytes.length
      data := overlay (Vector.replicate 256 0) bytes }
  else .error .invalidTransferLength

/-- Read memory. No more than a page fits. -/
def read (source : Channel) (token addr len : UInt32) : Except Status Job :=
  if len ≤ 256 then
    .ok { idle source token with transfer := some .read, addr, length := len }
  else .error .invalidTransferLength

/-- Erase flash. -/
def eraseFlash (source : Channel) (token addr len : UInt32) : Job :=
  { idle source token with erase := some ⟨addr, len⟩, exitXip := true }

/-- Call code. -/
def call (source : Channel) (token entry : UInt32) : Job :=
  { idle source token with execute := true, addr := entry }

/-- Change who may write. -/
def changeAccess (source : Channel) (token : UInt32) (mode : AccessMode) : Job :=
  { idle source token with access := some mode }

/-- Whether the job changes the contents of memory. -/
def isMutation (j : Job) : Bool := j.erase.isSome || j.transfer = some .write

/-- The bytes of the job that count: what is to be written, or what was read. -/
def payload (j : Job) : Bytes := j.data.toList.take j.length.toNat

/-! ### Effects at a glance -/

/-- The effects of a job, in the order in which they are listed, each with its
    bit. -/
def effectBits : List (String × UInt8) :=
  [("EXCLUSIVE_ACCESS", 1), ("EXECUTE", 2), ("WRITE", 4), ("READ", 8), ("FLASH_ERASE", 16),
    ("EXIT_XIP", 32), ("CHECK_INTERLEAVE", 64)]

/-- Which of the listed effects a job has. -/
def effectFlags (j : Job) : List Bool :=
  [j.access.isSome, j.execute, j.transfer = some .write, j.transfer = some .read,
    j.erase.isSome, j.exitXip, j.guarded]

/-- The effects of a job that are present. -/
def presentEffects (j : Job) : List (String × UInt8) :=
  (effectBits.zip j.effectFlags).filterMap fun (e, present) => if present then some e else none

/-- The bits of all present effects. -/
def effects (j : Job) : UInt8 := j.presentEffects.foldl (fun bits e => bits ||| e.2) 0

end Job

end Reflash
