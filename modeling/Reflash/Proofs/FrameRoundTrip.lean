import Reflash.Proofs.SerialLine
import Reflash.Tool.Link
/-! # Frames there and back

  The host holds payloads of any length and the device short ones only, yet both use
  the same commands. A command that the device has room for comes through whole, in
  whatever packets its frame arrives. One with a longer payload is not cut: its frame is
  dropped. An answer of the device always has a frame, and the host hears that answer.

  `Reads` says which value a reader takes for some bytes. `Rejects` is its counterpart
  for bytes that a reader refuses, whatever stands behind them.
-/

namespace Reflash

/-! ### Bytes that are refused -/

/-- A reader refuses these bytes, whatever stands behind them. -/
def Rejects {α : Type} (d : Decoder α) (bytes : Bytes) (e : DecodeError) : Prop :=
  ∀ rest, d (bytes ++ rest) = .error e

section rejects

variable {α β : Type} {d : Decoder α} {f : α → Decoder β} {front back : Bytes} {a : α}
  {e : DecodeError}

/-- Nothing follows what is refused. -/
theorem Rejects.bind (h : Rejects d front e) : Rejects (d >>= f) front e := by
  intro rest
  show (d (front ++ rest) >>= fun p => f p.1 p.2) = _
  rw [h]
  rfl

/-- What follows a value may still be refused. -/
theorem Reads.bind_rejects (h : Reads d front a) (h' : Rejects (f a) back e) :
    Rejects (d >>= f) (front ++ back) e := by
  intro rest
  show (d (front ++ back ++ rest) >>= fun p => f p.1 p.2) = _
  rw [List.append_assoc, h]
  exact h' rest

theorem Rejects.run (h : Rejects d front e) : d.run front = .error e := by
  have hread := h []
  rw [List.append_nil] at hread
  show (d front).map Prod.fst = _
  rw [hread]
  rfl

theorem Frame.decode_stuff_of_rejects {message : Bytes} (h : Rejects d message e) :
    decode d (Stuffing.stuff message) = .error e := by
  unfold decode
  rw [body_stuff]
  exact h.run

end rejects

/-- There is no room for a payload, and it is not cut to fit. -/
theorem Rejects.blob {room : Nat} {bytes : Bytes} (hroom : room < bytes.length)
    (hlength : bytes.length < 2 ^ 64) :
    Rejects (Decode.blob (some room)) (Encode.blob bytes) .invalidValue := by
  have htake : Rejects (Decode.take (some room) bytes.length) bytes .invalidValue := by
    intro rest
    have hmin : min bytes.length (room + 1) = room + 1 := Nat.min_eq_right hroom
    have hthere : ¬ (bytes ++ rest).length < room + 1 := by
      rw [List.length_append]
      omega
    unfold Decode.take
    dsimp only
    rw [hmin, if_neg hthere, if_pos hroom]
  exact Reads.bind_rejects (d := Decode.number Varint.length)
    (fun rest => Varint.decode_length hlength rest) htake

/-! ### Lengths -/

/-- Stuffing leaves no byte out. -/
theorem Stuffing.length_le_length_stuff (body : Bytes) : body.length ≤ (stuff body).length := by
  have hpiece : ∀ run, (piece run).length = run.length + 1 := fun run => List.length_cons
  induction body using stuff.induct with
  | case1 body run hfull ih =>
    rw [stuff, dif_pos hfull, List.length_append, hpiece, hfull]
    rw [List.length_drop] at ih
    omega
  | case2 body run hfull hnil =>
    have hall : body.length ≤ run.length := by
      have hlength := congrArg List.length hnil
      rw [List.length_drop, List.length_nil] at hlength
      exact Nat.sub_eq_zero_iff_le.mp hlength
    rw [stuff, dif_neg hfull]
    split
    · rw [hpiece]
      exact Nat.le_succ_of_le hall
    · rename_i heq
      rw [hnil] at heq
      cases heq
  | case3 body run hfull b rest hcons ih =>
    have hbody := congrArg List.length hcons
    rw [List.length_drop, List.length_cons] at hbody
    rw [stuff, dif_neg hfull]
    split
    · rename_i heq
      rw [hcons] at heq
      cases heq
    · rename_i heq
      rw [hcons] at heq
      cases heq
      rw [List.length_append, hpiece]
      show body.length ≤ run.length + 1 + _
      omega

/-- A message that a frame has room for is not longer than a frame. -/
theorem Frame.length_lt_of_wrap? {message frame : Bytes} (h : wrap? maxFrame message = some frame) :
    message.length < maxFrame :=
  Nat.lt_of_le_of_lt (Stuffing.length_le_length_stuff message) (length_stuff_lt h)

theorem Frame.eq_wrap_of_wrap? {message frame : Bytes} {room : Nat}
    (h : wrap? room message = some frame) : frame = wrap message ∧ frame.length ≤ room := by
  unfold wrap? at h
  split at h
  · rename_i hle
    cases h
    exact ⟨rfl, hle⟩
  · cases h

theorem Encode.length_le_length_blob (bytes : Bytes) : bytes.length ≤ (blob bytes).length := by
  rw [blob, List.length_append]
  exact Nat.le_add_left _ _

/-- What the device has no room for it refuses, if the host has a frame for it. -/
theorem Command.rejects_of_not_fits {c : Command} (hlong : ¬ c.Fits .device)
    (hlength : (Encode.command c).length < maxFrame) :
    Rejects (Decode.command .device) (Encode.command c) .invalidValue := by
  have hmax : maxFrame = 1024 := rfl
  have hchoice : ∀ n, n < 8 → Reads Decode.choice (Encode.choice n) n := fun n hn =>
    Reads.choice (Nat.lt_trans hn (by decide))
  -- A payload is part of the message, so that only its room is in question.
  have hroom : ∀ (room : Nat) {data : Bytes}, ¬ Limits.Admits (some room) data →
      (Encode.blob data).length ≤ (Encode.command c).length →
      Rejects (Decode.blob (some room)) (Encode.blob data) .invalidValue := by
    intro room data hnot hpart
    have hshort : data.length < 2 ^ 64 := by
      have hdata := Encode.length_le_length_blob data
      omega
    refine Rejects.blob (Nat.lt_of_not_le fun hle => hnot ⟨fun most hmost => ?_, hshort⟩) hshort
    cases hmost
    exact hle
  cases c with
  | write addr data =>
    have hdata := hroom maxTransfer hlong (by
      rw [Encode.command, List.length_append]
      exact Nat.le_add_left _ _)
    rw [Encode.command, List.append_assoc]
    exact (hchoice 3 (by decide)).bind_rejects ((Reads.word addr).bind_rejects hdata.bind)
  | writeSector lba data =>
    have hdata := hroom sectorSize hlong (by
      rw [Encode.command, List.length_append]
      exact Nat.le_add_left _ _)
    rw [Encode.command, List.append_assoc]
    exact (hchoice 7 (by decide)).bind_rejects ((Reads.word lba).bind_rejects hdata.bind)
  | getStatus => exact absurd trivial hlong
  | exclusiveAccess mode => exact absurd trivial hlong
  | read addr len => exact absurd trivial hlong
  | flashErase addr len => exact absurd trivial hlong
  | exec addr => exact absurd trivial hlong
  | reboot request => exact absurd trivial hlong

/-! ### To the device -/

namespace Loader.Receiver

/-- What a receiver that has seen nothing makes of a frame, in whatever packets it comes:
    if it is called when all are there, and if it is called in between as well. -/
structure TakesIn (frame : Bytes) (found : Option Command) (malformed : Nat) : Prop where
  atOnce : ∀ packets : List Bytes, (∀ packet ∈ packets, packet ≠ []) → packets.flatten = frame →
    receive .empty packets = ⟨malformed, found, .empty, []⟩
  inTurns : ∀ turns : List Turn, (∀ bytes, .packet bytes ∈ turns → bytes ≠ []) →
    Turn.stream turns = frame → (Session.start.run turns).allCommands = found.toList

variable {body : Bytes}

/-- A frame comes to what its end comes to. -/
theorem takesIn_of_not_mem (hzero : 0 ∉ body) (hfits : body.length ≤ maxFrame)
    (hbody : body ≠ []) :
    TakesIn (body ++ [0]) (commandOf body.toArray).toOption
      (scan body.toArray [0]).malformed := by
  refine ⟨fun packets hpackets hwhole => ?_, fun turns hpackets hwhole => ?_⟩
  · have hne : packets ≠ [] := by
      rintro rfl
      exact List.append_ne_nil_of_right_ne_nil body (List.cons_ne_nil 0 []) hwhole.symm
    have hcommand : (scan body.toArray [0]).command = (commandOf body.toArray).toOption := by
      cases hcommand : commandOf body.toArray with
      | ok command => rw [scan_zero_of_ok hbody hcommand]; rfl
      | error e => rw [scan_zero_of_error hbody hcommand]; rfl
    rw [← hcommand]
    exact (receive_of_nil #[] packets).trans
      (fetch_frame hpackets hne (by simpa using hwhole) hzero hfits hbody)
  · have hfound := (Session.reached_start.run hpackets).allCommands
    have hframes : frames (body ++ [0]) = [body] :=
      framesFrom_append (fun b hb h => hzero (h ▸ hb)) []
    rw [List.nil_append, hwhole, hframes] at hfound
    rw [hfound, List.filterMap_cons, leftover_of_length_le hfits, commandIn,
      if_neg (by simpa using hbody)]
    cases (commandOf body.toArray).toOption <;> rfl

/-- A command is found in its frame. -/
theorem takesIn_of_ok {command : Command} (hzero : 0 ∉ body) (hfits : body.length ≤ maxFrame)
    (hbody : body ≠ []) (hcommand : commandOf body.toArray = .ok command) :
    TakesIn (body ++ [0]) (some command) 0 := by
  have htakes := takesIn_of_not_mem hzero hfits hbody
  rwa [scan_zero_of_ok hbody hcommand, hcommand] at htakes

/-- A frame without a command is dropped, once. -/
theorem takesIn_of_error {e : DecodeError} (hzero : 0 ∉ body) (hfits : body.length ≤ maxFrame)
    (hbody : body ≠ []) (hcommand : commandOf body.toArray = .error e) :
    TakesIn (body ++ [0]) none 1 := by
  have htakes := takesIn_of_not_mem hzero hfits hbody
  rwa [scan_zero_of_error hbody hcommand, hcommand] at htakes

end Loader.Receiver

/-! ### To the host -/

/-- Some bytes arrive at a port one after the other, with silence before and between
    them. -/
inductive Arrives : Bytes → List Arrival → Prop where
  | nil : Arrives [] []
  | byte {bytes : Bytes} {arrivals : List Arrival} (b : UInt8) (later : Arrives bytes arrivals) :
    Arrives (b :: bytes) (.byte b :: arrivals)
  | timeout {bytes : Bytes} {arrivals : List Arrival} (later : Arrives bytes arrivals) :
    Arrives bytes (.timeout :: arrivals)
  | nothing {bytes : Bytes} {arrivals : List Arrival} (later : Arrives bytes arrivals) :
    Arrives bytes (.nothing :: arrivals)

/-- Bytes that arrive without a pause. -/
theorem Arrives.map_byte (bytes : Bytes) : Arrives bytes (bytes.map .byte) := by
  induction bytes with
  | nil => exact .nil
  | cons b bytes ih => exact .byte b ih

section listen

variable {quiet : Failure} {counter counter' : TokenCounter} {response : Response}
  {frame : Array UInt8} {body : Bytes} {arrivals : List Arrival}

/-- Bytes before the end of a frame are gathered. -/
theorem listen_append_of_arrives (h : Arrives body arrivals) (hzero : 0 ∉ body)
    (hfits : frame.size + body.length ≤ maxFrame) (more : List Arrival) :
    listen quiet counter frame (arrivals ++ more)
      = listen quiet counter (frame.toList ++ body).toArray more := by
  induction h generalizing frame with
  | nil => simp
  | @byte bytes arrivals b later ih =>
    obtain ⟨hb, hrest⟩ := not_or.mp (mt List.mem_cons.mpr hzero)
    rw [List.length_cons] at hfits
    have hsize : (frame.push b).size + bytes.length ≤ maxFrame := by
      rw [Array.size_push]
      omega
    rw [List.cons_append, listen]
    simp only [if_pos (show (b != 0) = true by simpa using fun h : b = 0 => hb h.symm),
      if_neg (Nat.not_lt.mpr (Nat.le_trans (Nat.le_add_right _ _) hsize))]
    rw [ih hrest hsize]
    simp
  | timeout later ih => exact ih hzero hfits
  | nothing later ih => exact ih hzero hfits

/-- At the end of the frame of an answer the tool judges it. What comes behind it is left
    for later, unless the answer is one from before. -/
theorem listen_frame (h : Arrives body arrivals) (hzero : 0 ∉ body)
    (hfits : body.length ≤ maxFrame)
    (hdecode : Frame.decode (Decode.response .host) (body ++ [0]) = .ok response)
    (rest : List Arrival) :
    listen quiet counter #[] (arrivals ++ .byte 0 :: rest)
      = match counter.check response with
        | (counter, .accept) => ⟨.ok response, counter, [], rest⟩
        | (counter, .lost got want) => ⟨.error (.wrongToken got want), counter, [], rest⟩
        | (counter, .stale token) =>
          let heard := listen quiet counter #[] rest
          { heard with stale := token :: heard.stale } := by
  rw [listen_append_of_arrives h hzero (by simpa using hfits), listen]
  cases hcheck : counter.check response with
  | mk next verdict =>
    cases verdict <;> simp only [bne_self_eq_false, Bool.false_eq_true, if_false,
      Array.toList_push, List.nil_append, hdecode, hcheck]

/-- The answer that is due is heard at the end of its frame. -/
theorem listen_of_arrives (h : Arrives body arrivals) (hzero : 0 ∉ body)
    (hfits : body.length ≤ maxFrame)
    (hdecode : Frame.decode (Decode.response .host) (body ++ [0]) = .ok response)
    (haccept : counter.check response = (counter', .accept)) (rest : List Arrival) :
    listen quiet counter #[] (arrivals ++ .byte 0 :: rest)
      = ⟨.ok response, counter', [], rest⟩ := by
  rw [listen_frame h hzero hfits hdecode, haccept]

/-- An answer of the device is judged when the last byte of its frame has come in. -/
theorem listen_response (h : Arrives (Stuffing.stuff (Encode.response response)) arrivals)
    (hfits : response.Fits .device) (rest : List Arrival) :
    listen quiet counter #[] (arrivals ++ .byte 0 :: rest)
      = match counter.check response with
        | (counter, .accept) => ⟨.ok response, counter, [], rest⟩
        | (counter, .lost got want) => ⟨.error (.wrongToken got want), counter, [], rest⟩
        | (counter, .stale token) =>
          let heard := listen quiet counter #[] rest
          { heard with stale := token :: heard.stale } :=
  listen_frame h (Stuffing.zero_not_mem_stuff _)
    (Nat.le_of_lt (Frame.length_stuff_lt (Frame.wrap?_response hfits)))
    (Frame.decode_wrap (Reads.response hfits.host)) rest

/-- A frame comes in without a pause, with its zero last. -/
theorem map_byte_wrap_append (message : Bytes) (rest : List Arrival) :
    (Frame.wrap message).map Arrival.byte ++ rest
      = (Stuffing.stuff message).map .byte ++ .byte 0 :: rest := by
  show (Stuffing.stuff message ++ [0]).map Arrival.byte ++ rest = _
  rw [List.map_append, List.append_assoc]
  rfl

/-- The answer that is due is heard when it comes in without a pause. -/
theorem listen_wrap (hfits : response.Fits .device)
    (haccept : counter.check response = (counter', .accept)) (rest : List Arrival) :
    listen quiet counter #[] ((Frame.wrap (Encode.response response)).map .byte ++ rest)
      = ⟨.ok response, counter', [], rest⟩ := by
  rw [map_byte_wrap_append, listen_response (Arrives.map_byte _) hfits, haccept]

end listen

/-- A host that does not know the count takes any answer for the one that is due. -/
theorem TokenCounter.check_unknown (response : Response) :
    ∃ counter, unknown.check response = (counter, .accept) := by
  cases response with
  | ack token s => exact ⟨_, rfl⟩
  | data token s bytes => exact ⟨_, rfl⟩
  | status upload fence rebooting => exact ⟨_, rfl⟩

/-! ### There and back -/

open Loader

/-- What one side sends the other one reads. Every command that the device has room for
    has a frame, with its only zero at the end, and in whatever packets it arrives the
    receiver finds this command and nothing else. A command with a longer payload that
    still has a frame is refused, and the frame dropped. Every answer of the device has a
    frame as well, which the host reads as the same answer, and hears if it is due. -/
theorem frames_round_trip :
    (∀ command : Command, command.Fits .device →
      ∃ body, Frame.wrap? maxFrame (Encode.command command) = some (body ++ [0])
        ∧ (body ++ [0]).length ≤ maxFrame ∧ 0 ∉ body
        ∧ Receiver.TakesIn (body ++ [0]) (some command) 0)
    ∧ (∀ (command : Command) (frame : Bytes), ¬ command.Fits .device →
      Frame.wrap? maxFrame (Encode.command command) = some frame →
      ∃ body, frame = body ++ [0] ∧ 0 ∉ body
        ∧ Receiver.commandOf body.toArray = .error .invalidValue
        ∧ Receiver.TakesIn frame none 1)
    ∧ (∀ response : Response, response.Fits .device →
      ∃ body, Frame.wrap? maxFrame (Encode.response response) = some (body ++ [0])
        ∧ (body ++ [0]).length ≤ maxFrame ∧ 0 ∉ body
        ∧ (∀ e : Endpoint, e.Lossless → (e.send response).sent = e.sent ++ (body ++ [0]))
        ∧ Frame.decode (Decode.response .host) (body ++ [0]) = .ok response
        ∧ ∀ (quiet : Failure) (arrivals rest : List Arrival), Arrives body arrivals →
          (listen quiet .unknown #[] (arrivals ++ .byte 0 :: rest)).result = .ok response
          ∧ ∀ counter counter', counter.check response = (counter', .accept) →
            listen quiet counter #[] (arrivals ++ .byte 0 :: rest)
              = ⟨.ok response, counter', [], rest⟩) := by
  refine ⟨fun command hfits => ?_, fun command frame hlong hframe => ?_, fun response hfits => ?_⟩
  · have hframe := Frame.wrap?_command hfits
    have hlength := (Frame.eq_wrap_of_wrap? hframe).2
    have hzero := Stuffing.zero_not_mem_stuff (Encode.command command)
    refine ⟨Stuffing.stuff (Encode.command command), hframe, hlength, hzero, ?_⟩
    exact Receiver.takesIn_of_ok hzero (Nat.le_of_lt (Frame.length_stuff_lt hframe))
      (Stuffing.stuff_ne_nil _) (Frame.decode_stuff (Reads.command hfits))
  · obtain ⟨rfl, -⟩ := Frame.eq_wrap_of_wrap? hframe
    have hzero := Stuffing.zero_not_mem_stuff (Encode.command command)
    have hrefused : Receiver.commandOf (Stuffing.stuff (Encode.command command)).toArray
        = .error .invalidValue :=
      Frame.decode_stuff_of_rejects
        (Command.rejects_of_not_fits hlong (Frame.length_lt_of_wrap? hframe))
    refine ⟨Stuffing.stuff (Encode.command command), rfl, hzero, hrefused, ?_⟩
    exact Receiver.takesIn_of_error hzero (Nat.le_of_lt (Frame.length_stuff_lt hframe))
      (Stuffing.stuff_ne_nil _) hrefused
  · have hframe := Frame.wrap?_response hfits
    have hlength := (Frame.eq_wrap_of_wrap? hframe).2
    have hzero := Stuffing.zero_not_mem_stuff (Encode.response response)
    have hshort := Nat.le_of_lt (Frame.length_stuff_lt hframe)
    have hdecode : Frame.decode (Decode.response .host)
        (Stuffing.stuff (Encode.response response) ++ [0]) = .ok response :=
      Frame.decode_wrap (Reads.response hfits.host)
    refine ⟨Stuffing.stuff (Encode.response response), hframe, hlength, hzero,
      fun e he => (he.send hfits).1, hdecode, fun quiet arrivals rest harrives => ⟨?_, ?_⟩⟩
    · obtain ⟨counter, haccept⟩ := TokenCounter.check_unknown response
      rw [listen_of_arrives harrives hzero hshort hdecode haccept]
    · intro counter counter' haccept
      exact listen_of_arrives harrives hzero hshort hdecode haccept rest

/-- A sector of zeros comes through in one packet. A page and one byte more is refused.
    What was read of a page is heard, with a pause behind it. -/
theorem frames_round_trip_longest :
    (Command.writeSector 0xFFFFFFFF (List.replicate 512 0)).Fits .device
      ∧ (∃ body, Receiver.receive .empty [body ++ [0]]
        = ⟨0, some (.writeSector 0xFFFFFFFF (List.replicate 512 0)), .empty, []⟩)
      ∧ ¬ (Command.write 0 (List.replicate 257 0)).Fits .device
      ∧ (∃ frame, Frame.wrap? maxFrame (Encode.command (.write 0 (List.replicate 257 0)))
          = some frame
        ∧ Receiver.receive .empty [frame] = ⟨1, none, .empty, []⟩)
      ∧ Response.Fits .device (.data 7 .ok (List.replicate 256 0))
      ∧ ∃ body : Bytes, ∀ quiet, (listen quiet .unknown #[]
          (body.map .byte ++ .byte 0 :: [.timeout])).result
        = .ok (.data 7 .ok (List.replicate 256 0)) := by
  have hsector : (Command.writeSector 0xFFFFFFFF (List.replicate 512 0)).Fits .device := by
    refine ⟨fun most hmost => ?_, by rw [List.length_replicate]; decide⟩
    cases hmost
    rw [List.length_replicate]
    exact Nat.le_refl _
  have hlong : ¬ (Command.write 0 (List.replicate 257 0)).Fits .device := by
    intro hfits
    have hlength := hfits.1 _ rfl
    rw [List.length_replicate] at hlength
    exact absurd hlength (by decide)
  have hread : Response.Fits .device (.data 7 .ok (List.replicate 256 0)) := by
    refine ⟨fun most hmost => ?_, by rw [List.length_replicate]; decide⟩
    cases hmost
    rw [List.length_replicate]
    exact Nat.le_refl _
  have hframe : Frame.wrap? maxFrame (Encode.command (.write 0 (List.replicate 257 0)))
      = some (Frame.wrap (Encode.command (.write 0 (List.replicate 257 0)))) :=
    Frame.wrap?_of_length_le (by decide +kernel)
  have hpacket : ∀ body : Bytes, ∀ packet ∈ [body ++ [0]], packet ≠ [] := by
    intro body packet hmem
    rw [List.mem_singleton.mp hmem]
    exact List.append_ne_nil_of_right_ne_nil body (List.cons_ne_nil 0 [])
  obtain ⟨body, -, -, -, hbody⟩ := frames_round_trip.1 _ hsector
  obtain ⟨cut, hcut, -, -, hdropped⟩ := frames_round_trip.2.1 _ _ hlong hframe
  obtain ⟨answer, -, -, -, -, -, hheard⟩ := frames_round_trip.2.2 _ hread
  refine ⟨hsector, ⟨body, hbody.atOnce _ (hpacket body) ?_⟩, hlong, ⟨_, hframe, ?_⟩, hread,
    answer, fun quiet => (hheard quiet _ [.timeout] (Arrives.map_byte answer)).1⟩
  · rw [List.flatten_singleton]
  · rw [hcut] at hdropped ⊢
    exact hdropped.atOnce _ (hpacket cut) List.flatten_singleton

end Reflash
