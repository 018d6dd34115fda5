import Reflash.Tool.PathError
import Reflash.Tool.Program
/-! # The program

  The tool on a real computer: files, the terminal, and a serial port that is
  opened as a file.
-/

namespace Reflash

/-- A serial port that is open, and what has arrived at it. -/
structure Port where
  handle : Option IO.FS.Handle
  buffer : List Arrival

/-- A run of the program. -/
abbrev Console := StateT Port IO

namespace Console

/-- Why a path could not be opened, if that is what went wrong. -/
def pathError? : IO.Error → Option PathError
  | .noFileOrDirectory _ code _ | .permissionDenied _ code _ | .inappropriateType _ code _
  | .invalidArgument _ code _ => PathError.ofNumber? code.toNat
  | _ => none

/-- Do something with a file or a port, and keep the words for an error. -/
def attempt {α : Type} (words : PathError → String) (action : IO α) :
    Console (Except String α) := do
  match ← action.toBaseIO with
  | .ok a => return .ok a
  | .error e => return .error (((pathError? e).map words).getD (toString e))

/-- Read bytes one by one until they are enough or no more come. -/
partial def gather (handle : IO.FS.Handle) (enough : List Arrival → Bool)
    (arrived : List Arrival) : IO (List Arrival) := do
  if enough arrived then return arrived
  match ← (handle.read 1).toBaseIO with
  | .error e => return arrived ++ [.broken (toString e)]
  | .ok bytes =>
    match bytes.toList with
    | [] => return arrived
    | bs => gather handle enough (arrived ++ bs.map Arrival.byte)

/-- Send a frame through the port and gather what arrives. -/
def exchange (frame : Bytes) (enough : List Arrival → Bool) : Console Delivery := do
  match (← get).handle with
  | none => return .notWritten "port is closed"
  | some handle =>
    match ← attempt PathError.text (handle.write (ByteArray.mk frame.toArray)) with
    | .error reason => return .notWritten reason
    | .ok () =>
      match ← attempt PathError.text handle.flush with
      | .error reason => return .notFlushed reason
      | .ok () => return .sent (← gather handle enough [])

instance : Host Console where
  fetch path := do
    return (← attempt PathError.message (IO.FS.readBinFile path)).map fun bytes => bytes.toList
  save path bytes := attempt PathError.message
    (IO.FS.writeBinFile path (ByteArray.mk bytes.toArray))
  print text := do
    IO.print text
    (← IO.getStdout).flush
  warn text := IO.eprint text
  connect name := do
    match ← attempt PathError.text (IO.FS.Handle.mk name .readWrite) with
    | .ok handle =>
      set ({ handle := some handle, buffer := [] } : Port)
      return .ok ()
    | .error reason => return .error reason
  arrived := do return (← get).buffer
  keep rest := modify fun p => { p with buffer := rest }
  transmit := exchange
  quiet := return .silence

end Console

/-- The usage of the tool in brief. -/
def usageText : String :=
  "Usage: reflash [--port <PORT>] <COMMAND>\n\nCommands: "
    ++ String.intercalate ", " (Arguments.subcommands.map Prod.fst) ++ "\n"

end Reflash

/-- Read the command line, carry it out, and report how that went. -/
def main (args : List String) : IO UInt32 := do
  match Reflash.Arguments.parse args with
  | .error e =>
    if e.isHelp then IO.print Reflash.usageText else IO.eprint Reflash.usageText
    return (Reflash.Tool.usageCode e).toUInt32
  | .ok invocation =>
    let (result, _) ← ((Reflash.Tool.run invocation :
      ExceptT Reflash.Failure Reflash.Console Unit).run).run ⟨none, []⟩
    let (code, text) := Reflash.Tool.conclude result
    IO.eprint text
    return code.toUInt32
