import Reflash.IndexSet
import Reflash.Sector
import Reflash.Job
/-! # Uploads

  One image is uploaded at a time, block by block and in any order. An upload
  knows how many blocks its image has, which of them are known to be in memory
  and, for a flash image, which erase sectors have been erased for it.

  * `Upload.accept` looks at an arriving block and makes the job that writes it.
    A block that announces another number of blocks starts a new upload; a block
    that makes no sense ends the current one.
  * `Upload.credit` takes note of a finished job. A block counts once, however
    often it is sent. The block that completes the image calls for a reboot.

  A block is credited by the token of the job accepted last, so a job that was
  overtaken by a later block counts for nothing.
-/

namespace Reflash

/-- Where the chip starts after a reset. -/
structure RebootRequest where
  /-- The entry point; zero stands for a normal boot from flash. -/
  entry : UInt32
  /-- The stack pointer, if there is an entry point. -/
  stack : UInt32
  delayMs : UInt32
deriving DecidableEq, Inhabited

/-- What a device is told about itself. -/
structure Config where
  map : AddressMap
  /-- The family whose images the device takes. -/
  familyId : UInt32
  /-- How long after the last block the device reboots. -/
  rebootDelayMs : UInt32
  /-- The stack pointer of an image in RAM. -/
  ramStack : UInt32
deriving DecidableEq, Inhabited

/-! ### Progress -/

/-- How far an upload has come. -/
inductive Progress where
  | idle
  | active
  /-- Every block is in memory. -/
  | complete
deriving DecidableEq, Inhabited

/-- The name of a stage of progress. -/
def Progress.name : Progress → String
  | .idle => "Idle"
  | .active => "Active"
  | .complete => "Complete"

/-- What is told about an upload. -/
structure UploadStatus where
  progress : Progress
  /-- How many blocks are in memory. -/
  validCount : UInt32
  numBlocks : UInt32
  /-- Whether the image goes to RAM and not to flash. -/
  inRam : Bool
deriving DecidableEq, Inhabited

/-! ### The upload -/

/-- The current upload. -/
structure Upload where
  /-- The blocks in memory, if the image goes to RAM. -/
  ramBlocks : IndexSet
  /-- The blocks in memory, if the image goes to flash. -/
  flashBlocks : IndexSet
  /-- The erase sectors erased for this upload, counted from the start of
      flash. -/
  erasedSectors : IndexSet
  /-- How many blocks the image has; zero if there is no upload. -/
  numBlocks : UInt32
  validCount : UInt32
  /-- The lowest address that a block was written to. -/
  lowestAddr : UInt32
  inRam : Bool
  /-- The block accepted last. -/
  blockNo : UInt32
  /-- The token of the job for that block. -/
  token : UInt32
deriving DecidableEq, Inhabited

namespace Upload

/-- No upload, over sets that may hold anything: a start clears those that it
    needs. -/
def onSets (ramBlocks flashBlocks erasedSectors : IndexSet) : Upload :=
  { ramBlocks, flashBlocks, erasedSectors, numBlocks := 0, validCount := 0
    lowestAddr := 0xFFFFFFFF, inRam := false, blockNo := 0, token := 0 }

/-- No upload, over sets of the given sizes in words. -/
def fresh (ramWords flashWords erasedWords : Nat) : Upload :=
  onSets (IndexSet.empty ramWords) (IndexSet.empty flashWords) (IndexSet.empty erasedWords)

/-- Give the upload up. Its counts stay readable until the next one starts. -/
def reset (u : Upload) : Upload := { u with numBlocks := 0 }

/-- How far the upload has come. -/
def progress (u : Upload) : Progress :=
  if u.numBlocks = 0 then .idle
  else if u.validCount = u.numBlocks then .complete
  else .active

/-- What is told about the upload. -/
def status (u : Upload) : UploadStatus :=
  { progress := u.progress, validCount := u.validCount, numBlocks := u.numBlocks
    inRam := u.inRam }

/-- The blocks known to be in memory. -/
def validBlocks (u : Upload) : IndexSet := if u.inRam then u.ramBlocks else u.flashBlocks

/-- The upload with another set of blocks known to be in memory. -/
def withValidBlocks (u : Upload) (s : IndexSet) : Upload :=
  if u.inRam then { u with ramBlocks := s } else { u with flashBlocks := s }

/-- Whether a block is known to be in memory. -/
def isBlockValid (u : Upload) (blockNo : UInt32) : Bool := u.validBlocks.contains blockNo

/-- Start an upload of `numBlocks` blocks, and say whether they fit. If they do
    not, there is no upload. -/
def start (u : Upload) (inRam : Bool) (numBlocks : UInt32) : Upload × Bool :=
  let u := { u with
    numBlocks := 0, validCount := 0, lowestAddr := 0xFFFFFFFF, inRam, blockNo := 0, token := 0
    erasedSectors := u.erasedSectors.clear }
  let u := u.withValidBlocks u.validBlocks.clear
  if u.validBlocks.capacity < numBlocks then (u, false) else ({ u with numBlocks }, true)

/-- Go on with the upload if it has `numBlocks` blocks, else start one that
    has. -/
def continueOrStart (u : Upload) (inRam : Bool) (numBlocks : UInt32) : Upload × Bool :=
  if u.numBlocks = numBlocks then (u, true) else u.start inRam numBlocks

/-- Make a job touch flash: let it leave execute-in-place mode and have it erase
    the sector it writes to, unless that was done for this upload. There is no
    job for a sector beyond those that are tracked. -/
def stageFlash (u : Upload) (flash : Region) (job : Job) : Except Fault (Option Job) := do
  let sector ← flash.sectorOf job.addr
  if u.erasedSectors.capacity ≤ sector then return none
  if u.erasedSectors.contains sector then return some { job with exitXip := true }
  return some { job with exitXip := true, erase := some ⟨← flash.sectorStart sector, eraseSize⟩ }

/-- The job for a block of the current upload. -/
def jobFor (u : Upload) (block : Block) (token : UInt32) (flash : Option Region) :
    Except Fault (Option Job) :=
  match Job.write .disk token block.header.targetAddr block.payload, flash with
  | .error _, _ => .ok none
  | .ok job, none => .ok (some job)
  | .ok job, some region => u.stageFlash region job

/-- Take an arriving block, and make the job that writes it. A block without a
    place in memory, or one that comes while the disk is fenced off, ends the
    upload; a block that does not belong to the image is dropped. -/
def accept (u : Upload) (block : Block) (token : UInt32) (config : Config) (fenced : Bool) :
    Except Fault (Upload × Option Job) := do
  let h := block.header
  let ram := config.map.findOf? .ram h.targetAddr pageSize
  let flash := config.map.findOf? .flash h.targetAddr pageSize
  if h.numBlocks = 0 || (ram.isNone && flash.isNone)
      || (flash.isSome && h.targetAddr % pageSize != 0) then
    return (u.reset, none)
  if fenced then return (u.reset, none)
  let (u, fits) := u.continueOrStart ram.isSome h.numBlocks
  if !fits || ram.isSome != u.inRam || h.numBlocks ≤ h.blockNo then return (u, none)
  match ← u.jobFor block token flash with
  | none => return (u, none)
  | some job => return ({ u with blockNo := h.blockNo, token }, some job)

/-- Take note of the erase sector that a finished job erased. -/
def noteErased (u : Upload) (map : AddressMap) (erase : Option EraseRange) :
    Except Fault Upload :=
  match erase with
  | none => .ok u
  | some range =>
    match map.findOf? .flash range.addr range.len with
    | none => .ok u
    | some region => do
      let sector ← region.sectorOf range.addr
      return { u with erasedSectors := (u.erasedSectors.insert sector).1 }

/-- The reboot that a complete image calls for: into an image in RAM at its
    lowest address, else a normal boot. -/
def rebootRequest (u : Upload) (config : Config) : RebootRequest :=
  if u.inRam then
    { entry := u.lowestAddr, stack := config.ramStack, delayMs := config.rebootDelayMs }
  else { entry := 0, stack := 0, delayMs := config.rebootDelayMs }

/-- Take note of a finished job. The block it wrote counts unless it did
    before; with the last one comes the reboot. -/
def credit (u : Upload) (job : Job) (config : Config) :
    Except Fault (Upload × Option RebootRequest) := do
  if u.numBlocks = 0 || job.token != u.token || job.result != some .ok then return (u, none)
  let u ← u.noteErased config.map job.erase
  let (blocks, isNew) := u.validBlocks.insert u.blockNo
  let u := u.withValidBlocks blocks
  if !isNew then return (u, none)
  let count ← Word.plus u.validCount 1
  let u := { u with validCount := count, lowestAddr := min u.lowestAddr job.addr }
  if u.validCount = u.numBlocks then return (u, some (u.rebootRequest config))
  return (u, none)

end Upload

end Reflash
