import Reflash.Tool.Link
import Reflash.Tool.Arguments
/-! # The tool

  Each subcommand in turn: what it asks of the device or of the file system, and
  what it prints. A run ends at the first failure, and what was printed before
  stays.

  Reading and writing memory go in chunks of one page. `readChunks` asks for
  what is left until nothing is, however short the answers are; an empty answer
  ends the run, so that it always comes to an end.
-/

namespace Reflash

namespace Tool

variable {m : Type → Type} [Monad m] [Host m]

/-! ### Files -/

/-- The contents of a file. -/
def readAll (path : String) : ExceptT Failure m Bytes := do
  match ← Host.fetch (m := m) path with
  | .ok bytes => return bytes
  | .error cause => throw (.cannotRead path cause)

/-- Put bytes into a file. -/
def writeAll (path : String) (bytes : Bytes) : ExceptT Failure m Unit := do
  match ← Host.save (m := m) path bytes with
  | .ok () => return ()
  | .error cause => throw (.cannotWrite path cause)

/-- The sectors of an image file. -/
def readSectors (path : String) : ExceptT Failure m (List Sector) := do
  let file ← readAll path
  match ImageFile.sectors? file with
  | some sectors => return sectors
  | none => throw (.badImageSize file.length)

/-- The text of a size in a line. -/
def count (n : Nat) (of : String) : String := toString n ++ " " ++ of

/-- A word as an address. -/
def address (w : UInt32) : String := "0x" ++ Hex.word w

/-- Make an image file. -/
def pack (input output : String) (base familyId : UInt32) : ExceptT Failure m Unit := do
  let image ← readAll input
  match ImageFile.pack image base familyId with
  | .error e => throw (.cannotPack e)
  | .ok sectors =>
    writeAll output (ImageFile.toBytes sectors)
    printLine (m := m) ("Packed " ++ input ++ " (" ++ count image.length "bytes" ++ ") at "
      ++ address base ++ " into " ++ output ++ " (" ++ count sectors.length "blocks" ++ ")")

/-- The lines that say what is in an image file. -/
def infoLines (path : String) (sectors : List Sector) : List String :=
  let s := ImageFile.summarize sectors Header.rp2040Family
  [ "UF2 file: " ++ path,
    "  Sectors:         " ++ toString sectors.length,
    "  UF2 blocks:      " ++ toString s.blocks,
    "  RP2040 blocks:   " ++ toString s.matching,
    "  Other sectors:   " ++ toString s.other ]
  ++ (match s.numBlocks with
      | some n => ["  Declared blocks: " ++ toString n.toNat]
      | none => [])
  ++ (match s.lowest, s.stop with
      | some lowest, some stop =>
        ["  Address range:   " ++ address lowest ++ ".." ++ address stop]
      | _, _ => [])

/-- Say what is in an image file. -/
def info (path : String) : ExceptT Failure m Unit := do
  let sectors ← readSectors path
  printLines (m := m) (infoLines path sectors)

/-! ### The device -/

/-- Go on only if an answer says that a request was met. -/
def expectOk (request : Request) (response : Response) : Except Failure Unit :=
  match response.completion with
  | some (_, .ok) => .ok ()
  | some (_, status) => .error (.refused request status)
  | none => .error (.unexpectedTo request response)

/-- Send a command that is only acknowledged. -/
def demand (request : Request) (command : Command) : Talk m Unit := do
  let response ← ask command
  orFail (m := m) (expectOk request response)

/-- The lines that say how the device is. -/
def statusLines (upload : UploadStatus) (fence : Option AccessMode) (rebooting : Bool) :
    List String :=
  [ "Bootloader Status:", "  Transfer:  " ++ upload.progress.name ]
  ++ (if upload.progress = .idle then [] else
      [ "  Blocks:    " ++ toString upload.validCount.toNat ++ "/"
          ++ toString upload.numBlocks.toNat ++ " (" ++ (if upload.inRam then "RAM" else "flash")
          ++ ")" ])
  ++ [ "  Exclusive: " ++ optionText AccessMode.name fence,
    "  Rebooting: " ++ boolText rebooting ]

/-- Ask the device how it is. -/
def status : Talk m Unit := do
  match ← ask .getStatus with
  | .status upload fence rebooting =>
    printLines (m := m) (statusLines upload fence rebooting)
  | other => throw (.unexpected other)

/-- Send the sectors of a file, each numbered by its place. -/
def sendSectors : Nat → List Sector → Talk m Unit
  | _, [] => return ()
  | lba, sector :: rest => do
    match Command.writeSector? (UInt32.ofNat lba) sector.toList with
    | none => throw .sectorTooLong
    | some command =>
      demand (.sector lba) command
      sendSectors (lba + 1) rest

/-- Whether the device has got the whole image. -/
def checkComplete (response : Response) : Except Failure Unit :=
  match response with
  | .status upload _ _ =>
    if upload.progress = .complete then .ok () else .error (.incomplete upload)
  | other => .error (.unexpected other)

/-- Send an image file to the device, which reboots when it has got it all. -/
def flash (path : String) : Talk m Unit := do
  let sectors ← readSectors (m := m) path
  let s := ImageFile.summarize sectors Header.rp2040Family
  if s.matching = 0 then throw (.nothingToFlash path)
  printLine (m := m) ("UF2:    " ++ path ++ " (" ++ count sectors.length "sectors" ++ ", "
    ++ count s.matching "RP2040 blocks" ++ ")")
  printLine (m := m) ""
  sendSectors 0 sectors
  printLine (m := m) ""
  let response ← ask .getStatus
  orFail (m := m) (checkComplete response)
  printLine (m := m) "Image complete, device is rebooting."

/-- The bytes that an answer to a read brings. There is one at least. -/
def readAnswer (addr : UInt32) (response : Response) :
    Except Failure { chunk : Bytes // chunk ≠ [] } :=
  match response with
  | .data _ .ok (b :: rest) => .ok ⟨b :: rest, by simp⟩
  | other => do
    expectOk (.read addr) other
    throw (.unexpectedAt addr other)

/-- Read the `left` bytes from `addr` on, as many at a time as one answer
    brings. -/
def readChunks (addr : UInt32) (left : Nat) : Talk m Bytes := do
  if left = 0 then return []
  else
    let response ← ask (.read addr (UInt32.ofNat (min left maxTransfer)))
    let chunk ← orFail (m := m) (readAnswer addr response)
    let rest ← readChunks (addr + UInt32.ofNat chunk.val.length) (left - chunk.val.length)
    return chunk.val ++ rest
termination_by left
decreasing_by
  have := List.length_pos_iff.mpr chunk.property
  omega

/-- The lines that show bytes, sixteen on each, behind their addresses. -/
def dumpLines (addr : UInt32) (bytes : Bytes) : List String :=
  (pieces 16 bytes).zipIdx.map fun (line, i) =>
    Hex.word (addr + UInt32.ofNat (i * 16)) ++ ": " ++ Hex.list line

/-- The line for the checksum of some bytes. -/
def checksumText (bytes : Bytes) : String := "CRC32: " ++ address (Checksum.crc32 bytes)

/-- Read memory into a file, or show it. -/
def read (addr len : UInt32) (output : Option String) : Talk m Unit := do
  let bytes ← readChunks addr len.toNat
  match output with
  | some path =>
    writeAll (m := m) path bytes
    printLine (m := m) ("Wrote " ++ count bytes.length "bytes" ++ " to " ++ path)
  | none => printLines (m := m) (dumpLines addr bytes)
  printLine (m := m) (checksumText bytes)

/-- Write chunks one behind the other. -/
def writeChunks : UInt32 → List Bytes → Talk m Unit
  | _, [] => return ()
  | addr, chunk :: rest => do
    match Command.write? addr chunk with
    | none => throw .chunkTooLong
    | some command =>
      demand (.write addr) command
      writeChunks (addr + UInt32.ofNat chunk.length) rest

/-- Write a file to memory. -/
def write (addr : UInt32) (path : String) : Talk m Unit := do
  let bytes ← readAll (m := m) path
  printLine (m := m) ("Writing " ++ path ++ " (" ++ count bytes.length "bytes" ++ ", "
    ++ checksumText bytes ++ ") to " ++ address addr)
  writeChunks addr (pieces maxTransfer bytes)

/-- Erase flash. -/
def erase (addr len : UInt32) : Talk m Unit := do
  Host.print (m := m) ("Erasing " ++ address addr ++ ".." ++ address (addr + len) ++ "... ")
  demand .erase (.flashErase addr len)
  printLine (m := m) "OK"

/-- Change who may write. -/
def exclusive (mode : AccessMode) : Talk m Unit := do
  demand .exclusiveAccess (.exclusiveAccess mode)
  printLine (m := m) ("Access mode set to " ++ mode.name)

/-- Call code. -/
def exec (addr : UInt32) : Talk m Unit := do
  demand .exec (.exec addr)
  printLine (m := m) ("Code at " ++ address addr ++ " returned")

/-- Reboot the device. -/
def reboot (request : RebootRequest) : Talk m Unit := do
  Host.print (m := m) "Rebooting device... "
  demand .reboot (.reboot request)
  printLine (m := m) "OK"

/-! ### A run -/

/-- Talk to the device on a port. The port is opened first. -/
def withPort (port : Option String) (talk : Talk m Unit) : ExceptT Failure m Unit := do
  match port with
  | none => throw .noPort
  | some port =>
    match ← Host.connect (m := m) port with
    | .error cause => throw (.cannotOpen port cause)
    | .ok () => talk.run' .unknown

/-- Carry out a command line. -/
def run (invocation : Invocation) : ExceptT Failure m Unit :=
  let port := invocation.port
  match invocation.action with
  | .pack input output base familyId => pack input output base familyId
  | .info file => info file
  | .status => withPort port status
  | .flash file => withPort port (flash file)
  | .read addr len output => withPort port (read addr len output)
  | .write addr file => withPort port (write addr file)
  | .erase addr len => withPort port (erase addr len)
  | .exclusive mode => withPort port (exclusive mode)
  | .exec addr => withPort port (exec addr)
  | .reboot request => withPort port (reboot request)

/-- How a run ends: the exit code, and what is printed as an error. -/
def conclude : Except Failure Unit → UInt8 × String
  | .ok () => (0, "")
  | .error failure => (1, failure.report)

/-- The exit code for a command line that is not carried out. -/
def usageCode (e : UsageError) : UInt8 := if e.isHelp then 0 else 2

end Tool

end Reflash
