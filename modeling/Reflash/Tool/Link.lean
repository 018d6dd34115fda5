import Reflash.Tool.Failure
import Reflash.Tool.TokenCounter
import Reflash.Wire.Codec
/-! # Talking to the device

  The tool sends a command in a frame and waits for its answer, byte by byte.
  What had arrived before is thrown away first; answers to earlier commands that
  come in between are reported and skipped.

  `Host` is what the tool needs from its surroundings: files, the terminal and a
  serial port with a buffer of things that have arrived.
-/

namespace Reflash

/-! ### The surroundings -/

/-- What a single look at the port can bring. -/
inductive Arrival where
  | byte (b : UInt8)
  /-- Nothing came in time. -/
  | timeout
  /-- The port has nothing to give. -/
  | nothing
  | broken (reason : String)
deriving DecidableEq, Inhabited

/-- What became of a frame. -/
inductive Delivery where
  /-- It was sent, and this arrived. -/
  | sent (arrived : List Arrival)
  | notWritten (reason : String)
  | notFlushed (reason : String)
deriving DecidableEq, Inhabited

/-- Files, a terminal and a serial port. -/
class Host (m : Type → Type) where
  /-- The contents of a file, or why it cannot be read. -/
  fetch : String → m (Except String Bytes)
  /-- Put bytes into a file, or say why that cannot be done. -/
  save : String → Bytes → m (Except String Unit)
  /-- Print on the terminal. -/
  print : String → m Unit
  /-- Print a warning. -/
  warn : String → m Unit
  /-- Open a port, or say why that cannot be done. -/
  connect : String → m (Except String Unit)
  /-- What has arrived at the port and was not looked at. -/
  arrived : m (List Arrival)
  /-- Leave this at the port to be looked at later. -/
  keep : List Arrival → m Unit
  /-- Send a frame. The second argument says whether what has arrived settles
      the matter, so that there is no need to wait for more. -/
  transmit : Bytes → (List Arrival → Bool) → m Delivery
  /-- The failure that it is when nothing more arrives. -/
  quiet : m Failure

/-! ### Listening -/

/-- What was heard in wait for an answer. -/
structure Heard where
  result : Except Failure Response
  counter : TokenCounter
  /-- The tokens of answers that were skipped. -/
  stale : List UInt32
  /-- What arrived after that. -/
  rest : List Arrival

/-- Wait for the answer to the command sent last, of which `frame` has come in.
    Any failure but a wrong token leaves the count unknown. -/
def listen (quiet : Failure) (counter : TokenCounter) (frame : Array UInt8) :
    List Arrival → Heard
  | [] => ⟨.error quiet, .unknown, [], []⟩
  | .timeout :: rest => listen quiet counter frame rest
  | .nothing :: rest => listen quiet counter frame rest
  | .broken reason :: rest => ⟨.error (.portRead reason), .unknown, [], rest⟩
  | .byte b :: rest =>
    let frame := frame.push b
    if b != 0 then
      if maxFrame < frame.size then ⟨.error .responseTooLong, .unknown, [], rest⟩
      else listen quiet counter frame rest
    else match Frame.decode (Decode.response .host) frame.toList with
      | .error e =>
        ⟨.error (.badResponse e (Stuffing.residue frame.toList)), .unknown, [], rest⟩
      | .ok response =>
        match counter.check response with
        | (counter, .accept) => ⟨.ok response, counter, [], rest⟩
        | (counter, .lost got want) => ⟨.error (.wrongToken got want), counter, [], rest⟩
        | (counter, .stale token) =>
          let h := listen quiet counter #[] rest
          { h with stale := token :: h.stale }

/-- Throw away the bytes that have arrived, up to the first look that brings
    none. -/
def discardBytes : List Arrival → List Arrival
  | [] => []
  | .byte _ :: rest => discardBytes rest
  | _ :: rest => rest

/-! ### Asking -/

/-- A run of the tool that talks to the device. -/
abbrev Talk (m : Type → Type) := StateT TokenCounter (ExceptT Failure m)

/-- What is said about answers that were skipped. -/
def staleText (tokens : List UInt32) : String :=
  String.join (tokens.map fun token =>
    "Dropping stale reply for token " ++ toString token.toNat ++ "\n")

section
variable {m : Type → Type} [Monad m] [Host m]

/-- Print a line. -/
def printLine (line : String) : m Unit := Host.print (line ++ "\n")

/-- Print several lines. -/
def printLines (lines : List String) : m Unit :=
  Host.print (String.join (lines.map fun line => line ++ "\n"))

/-- Do something that may fail. -/
def orFail {α : Type} (result : Except Failure α) : ExceptT Failure m α :=
  ExceptT.mk (pure result)

/-- Send a command and wait for its answer. -/
def ask (command : Command) : Talk m Response := do
  Host.keep (m := m) (discardBytes (← Host.arrived (m := m)))
  let some frame := Frame.wrap? maxFrame (Encode.command command) | throw .commandTooLong
  let counter ← get
  let quiet ← Host.quiet (m := m)
  let before ← Host.arrived (m := m)
  let settles := fun arrived =>
    match (listen quiet counter #[] (before ++ arrived)).result with
    | .ok _ => true
    | .error f => f != quiet
  match ← Host.transmit (m := m) frame settles with
  | .notWritten reason => throw (.portWrite reason)
  | .notFlushed reason => throw (.portFlush reason)
  | .sent arrived =>
    let heard := listen quiet counter #[] (before ++ arrived)
    Host.keep (m := m) heard.rest
    Host.warn (m := m) (staleText heard.stale)
    set heard.counter
    match heard.result with
    | .ok response => return response
    | .error failure => throw failure

end

end Reflash
