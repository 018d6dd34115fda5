import Reflash.Device
/-! # The disk

  To the host the device is a disk, and the disk looks like a volume that can be
  read sector by sector. Its contents are made up on the spot. What the host
  writes goes to the upload, and none of it is ever read back.
-/

namespace Reflash

/-- What the host sees in each sector. -/
abbrev Volume := UInt32 → Sector

namespace Volume

/-- A sector of zeros. -/
def zeros : Sector := Vector.replicate 512 0

/-- A volume without contents. -/
def blank : Volume := fun _ => zeros

/-- A volume whose sectors open with their own numbers. -/
def numbered : Volume := fun lba =>
  Word.bytes lba ++ (Vector.replicate 508 0 : Vector UInt8 508)

end Volume

/-- The disk: the volume that the host reads, and the core that takes what it writes. -/
structure Disk where
  volume : Volume
  core : Core

namespace Disk

/-- What the host asks of a disk. -/
inductive Access where
  | read (token lba : UInt32)
  | write (token lba : UInt32) (sector : Sector)
  /-- The bus is reset, or the medium is changed. -/
  | reset

/-- Read a sector. No job is ever left for it. -/
def read (d : Disk) (_token lba : UInt32) : Sector × Bool := (d.volume lba, false)

/-- Write a sector, wherever on the disk. The answer says whether a job was left for it. -/
def write (d : Disk) (token _lba : UInt32) (sector : Sector) : Except Fault (Disk × Bool) := do
  let (core, queued) ← d.core.writeSector token sector
  return ({ d with core }, queued)

/-- The disk after one access. -/
def access (d : Disk) : Access → Except Fault Disk
  | .read .. => .ok d
  | .write token lba sector => (d.write token lba sector).map Prod.fst
  | .reset => .ok { d with core := d.core.resetDisk }

theorem volume_access {d d' : Disk} {a : Access} (h : d.access a = .ok d') :
    d'.volume = d.volume := by
  cases a with
  | read token lba =>
    cases h
    rfl
  | write token lba sector =>
    simp only [access, write] at h
    cases hwrite : d.core.writeSector token sector with
    | error f =>
      simp only [hwrite] at h
      cases h
    | ok answer =>
      simp only [hwrite] at h
      cases h
      rfl
  | reset =>
    cases h
    rfl

/-- Whatever the host has written, it reads what it would have read before. -/
theorem read_after {accesses : List Access} {d d' : Disk}
    (h : accesses.foldlM access d = .ok d') (token lba : UInt32) :
    d'.read token lba = d.read token lba := by
  induction accesses generalizing d with
  | nil =>
    cases h
    rfl
  | cons a rest ih =>
    rw [List.foldlM_cons] at h
    cases haccess : d.access a with
    | error f =>
      rw [haccess] at h
      cases h
    | ok mid =>
      rw [haccess] at h
      rw [ih h]
      exact congrArg (fun volume => (volume lba, false)) (volume_access haccess)

end Disk

end Reflash
