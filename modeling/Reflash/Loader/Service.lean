import Reflash.Loader.Receiver
import Reflash.Loader.Map
import Reflash.Device
/-! # The loader in update mode

  In update mode the loader serves the host over a serial endpoint. The interrupt
  receives commands and sends answers; between interrupts the worker carries out
  jobs. An interrupt may come between any two steps of the worker.

  A job that is done leaves its answer in a short queue and calls for the
  interrupt, which sends it.
-/

namespace Reflash

/-! ### The chip -/

/-- What the loader puts on record. -/
inductive Note where
  | malformedFrame
  /-- An answer was lost for want of room. -/
  | completionDropped (token : UInt32)
deriving DecidableEq, Inhabited

/-- The text of a note. -/
def Note.text : Note → String
  | .malformedFrame => "Dropping malformed frame"
  | .completionDropped token =>
    "Completion queue full, dropping token " ++ toString token.toNat

/-- A machine that also keeps a record and can arm a reset by itself. -/
class Hardware (σ : Type) extends Machine σ where
  warn : σ → Note → σ
  /-- Arm the reset. -/
  armReset : σ → RebootRequest → σ

namespace Loader

/-- The most answers that wait to be sent. -/
def completionSlots : Nat := 4

/-- A chip, the answers that wait to be sent, and whether the interrupt is
    called for. -/
structure Board (σ : Type) where
  chip : σ
  completions : List Response
  interrupt : Bool
deriving Inhabited

namespace Board

variable {σ : Type} [Hardware σ]

/-- The token of an answer; zero if it has none. -/
def tokenOf (response : Response) : UInt32 := (response.completion.map Prod.fst).getD 0

/-- Leave an answer to be sent, and call for the interrupt. -/
def complete (b : Board σ) (response : Response) : Board σ :=
  if b.completions.length < completionSlots then
    { b with completions := b.completions ++ [response], interrupt := true }
  else { b with
    chip := Hardware.warn b.chip (.completionDropped (tokenOf response))
    interrupt := true }

instance : Machine (Board σ) where
  perform b call :=
    match call with
    | .complete response => b.complete response
    | call => { b with chip := Machine.perform b.chip call }
  load b addr len := Machine.load b.chip addr len
  length_load b addr len := Machine.length_load b.chip addr len

end Board

/-! ### The endpoint -/

/-- What the endpoint does with bytes that it is given. -/
inductive WriteResult where
  /-- It takes so many at most. -/
  | takes (n : Nat)
  /-- It takes none for now. -/
  | blocked
  | failed
deriving DecidableEq, Inhabited

/-- The serial endpoint: packets that have come in, bytes that have gone out. -/
structure Endpoint where
  packets : List Bytes
  sent : Bytes
  /-- What it does with the next bytes that it is given. When the script is
      over, it takes all. -/
  script : List WriteResult
  /-- How often it was polled. -/
  polls : Nat
deriving DecidableEq, Inhabited

namespace Endpoint

/-- An endpoint that has seen nothing. -/
def idle : Endpoint := ⟨[], [], [], 0⟩

/-- Poll the endpoint. -/
def poll (e : Endpoint) : Endpoint := { e with polls := e.polls + 1 }

/-- Send bytes, as the endpoint takes them. What is left after a failure is not
    sent. -/
def sendWith (e : Endpoint) (bytes : Bytes) : List WriteResult → Endpoint
  | [] => { e with sent := e.sent ++ bytes, script := [] }
  | result :: script =>
    if bytes.isEmpty then { e with script := result :: script }
    else match result with
      | .takes n =>
        { e with sent := e.sent ++ bytes.take n }.sendWith (bytes.drop n) script
      | .blocked => e.poll.sendWith bytes script
      | .failed => { e with script }

/-- Send an answer in a frame. -/
def send (e : Endpoint) (response : Response) : Endpoint :=
  match Frame.wrap? maxFrame (Encode.response response) with
  | some frame => e.sendWith frame e.script
  | none => e

end Endpoint

/-! ### The service -/

/-- The loader in update mode. -/
structure Service (σ : Type) where
  device : Device (Board σ)
  receiver : Receiver
  endpoint : Endpoint
  /-- The token of the next command. -/
  nextToken : UInt32
deriving Inhabited

namespace Service

variable {σ : Type} [Hardware σ]

/-- A service that has seen nothing, over a chip and the sets of an upload. -/
def fresh (chip : σ) (upload : Upload) : Service σ :=
  { device := Device.fresh (Core.fresh config upload) ⟨chip, [], false⟩
    receiver := .empty, endpoint := .idle, nextToken := 1 }

/-- The chip. -/
def chip (s : Service σ) : σ := s.device.machine.chip

/-- The service with something done to its chip. -/
def onChip (s : Service σ) (f : σ → σ) : Service σ :=
  { s with device := { s.device with
      machine := { s.device.machine with chip := f s.device.machine.chip } } }

/-- The service with something done to its shared state. -/
def onCore (s : Service σ) (f : Core → Core) : Service σ :=
  { s with device := { s.device with core := f s.device.core } }

/-- Send an answer. -/
def send (s : Service σ) (response : Response) : Service σ :=
  { s with endpoint := s.endpoint.send response }

/-- Deal with a command. It uses up a token. -/
def serve (s : Service σ) (command : Command) : Except Fault (Service σ) := do
  let token := s.nextToken
  let (core, outcome) ← s.device.core.handle command token
  let s := { s.onCore fun _ => core with nextToken := token + 1 }
  match outcome with
  | .reply response => return s.send response
  | .pending => return s
  | .reboot request => return (s.send (.ack token .ok)).onChip (Hardware.armReset · request)

/-- Deal with what the receiver tells. -/
def serveEvent (s : Service σ) : Receiver.Event → Except Fault (Service σ)
  | .malformed => .ok (s.onChip (Hardware.warn · .malformedFrame))
  | .command c => s.serve c

/-- Take in all commands that have arrived. -/
def serveAll (s : Service σ) : Except Fault (Service σ) :=
  let got := s.receiver.drain s.endpoint.packets
  got.events.foldlM serveEvent
    { s with receiver := got.receiver, endpoint := { s.endpoint with packets := got.packets } }

/-- Send the answers that wait. -/
def sendCompletions (s : Service σ) : Service σ :=
  let waiting := s.device.machine.completions
  let s := { s with device := { s.device with
    machine := { s.device.machine with completions := [] } } }
  waiting.foldl send s

/-- The interrupt. -/
def interrupt (s : Service σ) : Except Fault (Service σ) := do
  let s := { s with
    endpoint := s.endpoint.poll
    device := { s.device with machine := { s.device.machine with interrupt := false } } }
  return (← s.serveAll).sendCompletions

/-- Call for the interrupt. -/
def raise (s : Service σ) : Service σ :=
  { s with device := { s.device with machine := { s.device.machine with interrupt := true } } }

/-- The worker deals with one job, if there is one. -/
def work (s : Service σ) : Except Fault (Service σ × Bool) := do
  let (device, busy) ← s.device.poll
  return ({ s with device }, busy)

/-- Run the worker, and the interrupt whenever the worker sleeps, until there is
    nothing left to do; `fuel` bounds the number of turns. -/
def settleWithin : Nat → Service σ → Except Fault (Service σ)
  | 0, s => .ok s
  | fuel + 1, s => do
    let (s, busy) ← s.work
    if busy then settleWithin fuel s
    else if s.device.machine.interrupt then settleWithin fuel (← s.interrupt)
    else return s

/-- More turns than can be taken. An interrupt that uses up no byte leaves no job
    behind; one that does leaves two at most, and these call for one more. -/
def turns (s : Service σ) : Nat :=
  8 + 4 * (s.receiver.ahead s.endpoint.packets + s.endpoint.packets.length)

/-- Run until there is nothing left to do. -/
def settle (s : Service σ) : Except Fault (Service σ) := settleWithin s.turns s

/-- Packets arrive and call for the interrupt, and the loader deals with
    them. -/
def deliver (s : Service σ) (packets : List Bytes) : Except Fault (Service σ) :=
  settle { s with endpoint := { s.endpoint with packets := s.endpoint.packets ++ packets } }.raise

end Service

end Loader

end Reflash
