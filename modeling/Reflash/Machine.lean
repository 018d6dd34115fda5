import Reflash.Message
/-! # The machine underneath

  A device acts on the world through a few calls: read and write memory, update
  flash, run code, eject the volume, arm a reset, report a finished job. Any
  type that can carry them out is a `Machine`. Every address is checked before a
  call is made, so a machine may trust the ranges that it is given.
-/

namespace Reflash

/-- A change of flash, made in one go: first the erasing, then the
    programming. -/
structure FlashUpdate where
  erase : Option EraseRange
  program : Option (UInt32 × Bytes)
deriving DecidableEq, Inhabited

/-- What a device asks of the machine. -/
inductive Call where
  /-- Read `len` bytes from `addr` on. -/
  | read (addr len : UInt32)
  /-- Store bytes in RAM. -/
  | writeRam (addr : UInt32) (bytes : Bytes)
  | updateFlash (update : FlashUpdate)
  /-- Run the code at `entry` and come back. -/
  | exec (entry : UInt32)
  /-- Take the volume away from the host. -/
  | eject
  /-- Reset the chip after a while. -/
  | reboot (request : RebootRequest)
  /-- Tell the host about a finished job. -/
  | complete (response : Response)
deriving DecidableEq, Inhabited

/-- A world that carries out calls. -/
class Machine (σ : Type) where
  /-- The world after a call. -/
  perform : σ → Call → σ
  /-- The bytes that memory holds. -/
  load : σ → UInt32 → UInt32 → Bytes
  length_load : ∀ (m : σ) (addr len : UInt32), (load m addr len).length = len.toNat

/-- The world after several calls. -/
def Machine.performAll {σ : Type} [Machine σ] (m : σ) (calls : List Call) : σ :=
  calls.foldl Machine.perform m

end Reflash
