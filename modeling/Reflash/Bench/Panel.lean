import Reflash.RebootTimer
import Reflash.Loader.Service
/-! # Machines that write everything down

  On the bench a device runs over a recorder: a machine that keeps a list of the
  calls made to it. Its memory cannot be changed: every address holds its own
  lowest byte.

  A recorder with a reboot timer is all that the service of the loader needs of
  a chip. Notes are not kept.
-/

namespace Reflash

/-! ### The recorder -/

/-- The calls made so far, the latest first. -/
structure Recorder where
  calls : List Call
deriving DecidableEq, Inhabited

namespace Recorder

/-- The byte at an address. -/
def byteAt (addr : UInt32) : UInt8 := addr.toUInt8

/-- The bytes from an address on. -/
def load (addr len : UInt32) : Bytes :=
  (List.range len.toNat).map fun i => byteAt (addr + UInt32.ofNat i)

instance : Machine Recorder where
  perform r call := ⟨call :: r.calls⟩
  load _ addr len := load addr len
  length_load := by simp [load]

/-- The calls made so far, in order, and a recorder that has seen none. -/
def flush (r : Recorder) : List Call × Recorder := (r.calls.reverse, ⟨[]⟩)

end Recorder

/-! ### The panel -/

/-- A recorder with a reboot timer. -/
structure Panel where
  recorder : Recorder
  timer : RebootTimer
deriving DecidableEq, Inhabited

namespace Panel

/-- A panel that has recorded nothing. -/
def fresh : Panel := ⟨⟨[]⟩, .zero⟩

instance : Hardware Panel where
  perform p call :=
    { p with
      recorder := Machine.perform p.recorder call
      timer := match call with
        | .reboot r => p.timer.arm r
        | _ => p.timer }
  load _ addr len := Recorder.load addr len
  length_load := by simp [Recorder.load]
  warn p _ := p
  armReset p r := { p with timer := p.timer.arm r }

/-- The calls made so far, and a panel that has recorded none. -/
def flush (p : Panel) : List Call × Panel :=
  let (calls, recorder) := p.recorder.flush
  (calls, { p with recorder })

/-- The loader in update mode over a panel. -/
def service : Loader.Service Panel := .fresh .fresh Rp2040.freshUpload

end Panel

end Reflash
