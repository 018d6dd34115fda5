import Reflash.Wire.Codec
/-! # Receiving commands

  Bytes come in packets from the endpoint. The receiver gathers them until a zero
  byte ends the frame, and then reads a command off it. The bytes of a packet
  behind that zero wait for the next call of `receive`.

  A frame that is no command is dropped, and so are the bytes gathered so far
  when one byte more than `maxFrame` arrives.

  `receive` looks for one command. `drain` calls it until there is none, which
  it comes to because every command uses up bytes.
-/

namespace Reflash

namespace Loader

/-- A receiver between two calls. -/
structure Receiver where
  /-- The bytes of the frame that is coming in. -/
  frame : Array UInt8
  /-- The bytes of the packet at hand that were not looked at. -/
  packet : Bytes
deriving DecidableEq, Inhabited

namespace Receiver

/-- A receiver that has seen nothing. -/
def empty : Receiver := ⟨#[], []⟩

/-! ### One packet -/

/-- What a packet brings: how many frames were dropped as malformed, the command
    if there is one, the frame that is coming in, and the bytes behind the
    command. -/
structure Scan where
  malformed : Nat
  command : Option Command
  frame : Array UInt8
  rest : Bytes
deriving DecidableEq, Inhabited

/-- The command in a frame. -/
def commandOf (frame : Array UInt8) : Except DecodeError Command :=
  Frame.decode (Decode.command .device) frame.toList

/-- The frame after a byte that does not end it. -/
def grow (frame : Array UInt8) (b : UInt8) : Array UInt8 :=
  if frame.size < maxFrame then frame.push b else #[]

/-- Look at the bytes of a packet up to the end of the first command. -/
def scan (frame : Array UInt8) : Bytes → Scan
  | [] => ⟨0, none, frame, []⟩
  | b :: rest =>
    if b != 0 then scan (grow frame b) rest
    else if frame.isEmpty then scan #[] rest
    else match commandOf frame with
      | .ok command => ⟨0, some command, #[], rest⟩
      | .error _ =>
        let s := scan #[] rest
        { s with malformed := s.malformed + 1 }

/-! ### One command -/

/-- What a call brings: how many frames were dropped as malformed, the command
    if there is one, the receiver after it, and the packets that were not
    fetched. -/
structure Received where
  malformed : Nat
  command : Option Command
  receiver : Receiver
  packets : List Bytes
deriving DecidableEq, Inhabited

/-- Fetch packets until one brings a command. An empty packet ends the call, as
    does an endpoint that has none. -/
def fetch (frame : Array UInt8) : List Bytes → Received
  | [] => ⟨0, none, ⟨frame, []⟩, []⟩
  | packet :: packets =>
    if packet.isEmpty then ⟨0, none, ⟨frame, []⟩, packets⟩
    else
      let s := scan frame packet
      match s.command with
      | some command => ⟨s.malformed, some command, ⟨s.frame, s.rest⟩, packets⟩
      | none =>
        let r := fetch s.frame packets
        { r with malformed := s.malformed + r.malformed }

/-- Look for the next command, first in the packet at hand. -/
def receive (r : Receiver) (packets : List Bytes) : Received :=
  let s := scan r.frame r.packet
  match s.command with
  | some command => ⟨s.malformed, some command, ⟨s.frame, s.rest⟩, packets⟩
  | none =>
    let r := fetch s.frame packets
    { r with malformed := s.malformed + r.malformed }

/-! ### All commands -/

/-- How many bytes are still to be looked at. -/
def ahead (r : Receiver) (packets : List Bytes) : Nat :=
  r.packet.length + packets.flatten.length

theorem scan_rest_length {frame : Array UInt8} {bytes : Bytes} {command : Command}
    (h : (scan frame bytes).command = some command) :
    (scan frame bytes).rest.length < bytes.length := by
  induction bytes generalizing frame with
  | nil => simp [scan] at h
  | cons b rest ih =>
    unfold scan at h ⊢
    split
    · next hb => rw [if_pos hb] at h; exact Nat.lt_succ_of_lt (ih h)
    · next hb =>
      rw [if_neg hb] at h
      split
      · next hf => rw [if_pos hf] at h; exact Nat.lt_succ_of_lt (ih h)
      · next hf =>
        rw [if_neg hf] at h
        cases hc : commandOf frame with
        | ok c => simp
        | error e => simp only [hc] at h ⊢; exact Nat.lt_succ_of_lt (ih h)

theorem fetch_ahead {frame : Array UInt8} {packets : List Bytes} {command : Command}
    (h : (fetch frame packets).command = some command) :
    ahead (fetch frame packets).receiver (fetch frame packets).packets
      < packets.flatten.length := by
  induction packets generalizing frame with
  | nil => simp [fetch] at h
  | cons packet packets ih =>
    unfold fetch at h ⊢
    split
    · next hp => simp [hp] at h
    · next hp =>
      rw [if_neg hp] at h
      cases hs : (scan frame packet).command with
      | some c =>
        have := scan_rest_length hs
        simp only [hs, ahead, List.flatten_cons, List.length_append]
        omega
      | none =>
        simp only [hs] at h ⊢
        have := ih h
        simp only [ahead, List.flatten_cons, List.length_append] at this ⊢
        omega

/-- A call that brings a command uses up bytes. -/
theorem receive_ahead {r : Receiver} {packets : List Bytes} {command : Command}
    (h : (receive r packets).command = some command) :
    ahead (receive r packets).receiver (receive r packets).packets < ahead r packets := by
  unfold receive at h ⊢
  cases hs : (scan r.frame r.packet).command with
  | some c =>
    have := scan_rest_length hs
    simp only [hs, ahead]
    omega
  | none =>
    simp only [hs] at h ⊢
    have := fetch_ahead h
    simp only [ahead] at this ⊢
    omega

/-- Something that a receiver has to tell. -/
inductive Event where
  | malformed
  | command (c : Command)
deriving DecidableEq, Inhabited

/-- All that a receiver has to tell, and what is left when it has. -/
structure Drained where
  events : List Event
  receiver : Receiver
  packets : List Bytes
deriving DecidableEq, Inhabited

/-- Call `receive` until it brings no command. -/
def drain (r : Receiver) (packets : List Bytes) : Drained :=
  let got := receive r packets
  let dropped := List.replicate got.malformed Event.malformed
  match _h : got.command with
  | none => ⟨dropped, got.receiver, got.packets⟩
  | some command =>
    let more := drain got.receiver got.packets
    { more with events := dropped ++ .command command :: more.events }
termination_by ahead r packets
decreasing_by exact receive_ahead (by assumption)

end Receiver

end Loader

end Reflash
