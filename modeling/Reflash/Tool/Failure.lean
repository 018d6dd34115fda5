import Reflash.ImageFile
import Reflash.Job.Text
import Reflash.Wire.Varint
/-! # What can go wrong

  A failure of the tool ends the run. It is told in one line, and where another
  program is to blame, that one's own words follow as the cause.
-/

namespace Reflash

/-- What the tool asked the device for, as failures name it. -/
inductive Request where
  | sector (lba : Nat)
  | read (addr : UInt32)
  | write (addr : UInt32)
  | erase
  | exclusiveAccess
  | exec
  | reboot
deriving DecidableEq, Inhabited

/-- The name of a request. -/
def Request.name : Request → String
  | .sector lba => "Sector " ++ toString lba
  | .read addr => "Read at 0x" ++ Hex.word addr
  | .write addr => "Write at 0x" ++ Hex.word addr
  | .erase => "Erase"
  | .exclusiveAccess => "ExclusiveAccess"
  | .exec => "Exec"
  | .reboot => "Reboot"

/-- Why a run of the tool failed. -/
inductive Failure where
  /-- No port was named. -/
  | noPort
  | cannotOpen (port cause : String)
  | cannotRead (path cause : String)
  | cannotWrite (path cause : String)
  | cannotPack (e : ImageFile.PackError)
  | badImageSize (size : Nat)
  /-- A file holds no block for the device. -/
  | nothingToFlash (path : String)
  | sectorTooLong
  | chunkTooLong
  /-- A command does not fit a frame. -/
  | commandTooLong
  | portWrite (reason : String)
  | portFlush (reason : String)
  | portRead (reason : String)
  | silence
  | responseTooLong
  | badResponse (e : DecodeError) (raw : Bytes)
  /-- A response bears a token that no command sent so far can have. -/
  | wrongToken (got want : UInt32)
  /-- The device did not do what it was asked for. -/
  | refused (request : Request) (status : Status)
  /-- A response of another kind than was due. -/
  | unexpectedTo (request : Request) (response : Response)
  | unexpected (response : Response)
  | unexpectedAt (addr : UInt32) (response : Response)
  /-- The device has not got the whole image. -/
  | incomplete (status : UploadStatus)
deriving DecidableEq, Inhabited

namespace Failure

/-- How many bytes of a bad response are shown. -/
def shownBytes : Nat := 32

/-- The line for a failure. -/
def message : Failure → String
  | .noPort => "--port is required for this command"
  | .cannotOpen port _ => "Failed to open serial port " ++ port
  | .cannotRead path _ => "Failed to read " ++ path
  | .cannotWrite path _ => "Failed to write " ++ path
  | .cannotPack e => e.message
  | .badImageSize size => ImageFile.badSizeText size
  | .nothingToFlash path => path ++ " contains no RP2040 blocks"
  | .sectorTooLong => "Sector does not fit a WriteSector command"
  | .chunkTooLong => "Chunk exceeds transfer size"
  | .commandTooLong => "Failed to serialize command: The serialize buffer is full"
  | .portWrite reason => "Failed to write to serial port: " ++ reason
  | .portFlush reason => reason
  | .portRead reason => "Serial read error: " ++ reason
  | .silence => "Timeout waiting for response"
  | .responseTooLong => "Response frame exceeds 1024 bytes"
  | .badResponse e raw =>
    "Failed to deserialize response: " ++ e.message ++ " (raw " ++ toString raw.length
      ++ " bytes: " ++ Hex.list (raw.take shownBytes) ++ ")"
  | .wrongToken got want =>
    "Reply token " ++ toString got.toNat ++ " does not match command token "
      ++ toString want.toNat
  | .refused request status => request.name ++ " failed: " ++ status.name
  | .unexpectedTo request response =>
    "Unexpected response to " ++ request.name ++ ": " ++ response.text
  | .unexpected response => "Unexpected response: " ++ response.text
  | .unexpectedAt addr response =>
    "Unexpected response at 0x" ++ Hex.word addr ++ ": " ++ response.text
  | .incomplete s =>
    "Device reports " ++ toString s.validCount.toNat ++ "/" ++ toString s.numBlocks.toNat
      ++ " blocks written (" ++ s.progress.name ++ ")"

/-- The words of the program that is to blame. -/
def cause? : Failure → Option String
  | .cannotOpen _ cause => some cause
  | .cannotRead _ cause => some cause
  | .cannotWrite _ cause => some cause
  | _ => none

/-- A failure and its cause in one line. -/
def chain (f : Failure) : String :=
  match f.cause? with
  | some cause => f.message ++ ": " ++ cause
  | none => f.message

/-- What is printed when a run ends with a failure. -/
def report (f : Failure) : String :=
  "Error: " ++ f.message ++ "\n" ++
    match f.cause? with
    | some cause => "\nCaused by:\n    " ++ cause ++ "\n"
    | none => ""

end Failure

end Reflash
