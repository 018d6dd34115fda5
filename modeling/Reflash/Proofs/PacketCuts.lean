import Reflash.Proofs.Framing
/-! # Packets cut anywhere

  A stream of bytes comes in packets, and it is for the endpoint to say where one packet ends
  and the next one begins. A receiver does not care: what it tells and what it has gathered in
  the end are a matter of the bytes alone.

  `takeByte` is what one byte does to a receiver, and `gather` what a stream does, one byte
  after the other. A call of `receive` uses up some of the bytes that are ahead, in order and
  each of them once, and leaves the others for the next call. `Uses` says so, and that a call
  which brings a command stops right behind the zero that ends it.

  `loop` is a call in single turns: a look at one byte, or the fetching of one packet. It shows
  that a call ends, since there are no more turns than bytes and packets.
-/

namespace Reflash

namespace Loader

namespace Receiver

/-! ### Byte by byte -/

/-- What comes of a byte: something to tell, if there is, and the frame that is coming in. -/
structure Taken where
  event : Option Event
  frame : Array UInt8

/-- A byte comes in. A zero ends the frame, and any other byte is gathered. -/
def takeByte (frame : Array UInt8) (b : UInt8) : Taken :=
  if b != 0 then ⟨none, grow frame b⟩
  else if frame.isEmpty then ⟨none, #[]⟩
  else match commandOf frame with
    | .ok command => ⟨some (.command command), #[]⟩
    | .error _ => ⟨some .malformed, #[]⟩

/-- What comes of a stream: all there is to tell, and the frame that is coming in. -/
structure Gathered where
  events : List Event
  frame : Array UInt8

/-- Bytes come in, one after the other. -/
def gather (frame : Array UInt8) : Bytes → Gathered
  | [] => ⟨[], frame⟩
  | b :: rest =>
    let t := takeByte frame b
    let g := gather t.frame rest
    ⟨t.event.toList ++ g.events, g.frame⟩

/-- The commands in a stream. -/
def Gathered.commands (g : Gathered) : List Command := g.events.filterMap Event.command?

theorem gather_append (frame : Array UInt8) (bytes more : Bytes) :
    gather frame (bytes ++ more) =
      ⟨(gather frame bytes).events ++ (gather (gather frame bytes).frame more).events,
        (gather (gather frame bytes).frame more).frame⟩ := by
  induction bytes generalizing frame with
  | nil => rfl
  | cons b rest ih =>
    rw [List.cons_append, gather, gather, ih, List.append_assoc]

theorem commands_gather_append (frame : Array UInt8) (bytes more : Bytes) :
    (gather frame (bytes ++ more)).commands = (gather frame bytes).commands
      ++ (gather (gather frame bytes).frame more).commands := by
  rw [gather_append]
  exact List.filterMap_append

/-! ### One turn of a call -/

section turns

variable {frame : Array UInt8} {b : UInt8} {rest packet : Bytes} {packets : List Bytes}
  {command : Command}

/-! What a call comes to, by what the next byte brings. -/

/-- A byte that brings a command ends the call, and what is behind it waits. -/
theorem receive_of_command (h : (takeByte frame b).event = some (.command command)) :
    receive ⟨frame, b :: rest⟩ packets
      = ⟨0, some command, ⟨(takeByte frame b).frame, rest⟩, packets⟩ := by
  unfold takeByte at h ⊢
  unfold receive scan
  by_cases hb : (b != 0) = true
  · simp [hb] at h
  by_cases hempty : frame.isEmpty = true
  · simp [hb, hempty] at h
  cases hcommand : commandOf frame with
  | error e => simp [hb, hempty, hcommand] at h
  | ok other =>
    obtain rfl : other = command := by simpa [hb, hempty, hcommand] using h
    simp [hb, hempty]

/-- A byte that ends a malformed frame is told of, and the call goes on. -/
theorem receive_of_malformed (h : (takeByte frame b).event = some .malformed) :
    receive ⟨frame, b :: rest⟩ packets =
      { receive ⟨(takeByte frame b).frame, rest⟩ packets with
        malformed := (receive ⟨(takeByte frame b).frame, rest⟩ packets).malformed + 1 } := by
  unfold takeByte at h ⊢
  by_cases hb : (b != 0) = true
  · simp [hb] at h
  by_cases hempty : frame.isEmpty = true
  · simp [hb, hempty] at h
  cases hcommand : commandOf frame with
  | ok other => simp [hb, hempty, hcommand] at h
  | error e =>
    simp only [hb, hempty, Bool.false_eq_true, if_false]
    -- The rest of the packet brings a command, or the call goes on to the next packet.
    unfold receive
    rw [scan]
    simp only [hb, hempty, hcommand, Bool.false_eq_true, if_false]
    cases (scan #[] rest).command with
    | some command => rfl
    | none => simp only [Nat.add_right_comm]

/-- Any other byte is taken, and the call goes on. -/
theorem receive_of_none_taken (h : (takeByte frame b).event = none) :
    receive ⟨frame, b :: rest⟩ packets = receive ⟨(takeByte frame b).frame, rest⟩ packets := by
  unfold takeByte at h ⊢
  unfold receive
  rw [scan]
  by_cases hb : (b != 0) = true
  · simp only [hb, if_true]
  by_cases hempty : frame.isEmpty = true
  · simp only [hb, hempty, Bool.false_eq_true, if_false, if_true]
  cases hcommand : commandOf frame with
  | ok other => simp [hb, hempty, hcommand] at h
  | error e => simp [hb, hempty, hcommand] at h

/-- A packet is fetched, and then it is the packet at hand. -/
theorem receive_of_packet (h : packet ≠ []) :
    receive ⟨frame, []⟩ (packet :: packets) = receive ⟨frame, packet⟩ packets := by
  have hnone : (scan frame []).command = none := rfl
  have hframe : (scan frame []).frame = frame := rfl
  have hzero : (scan frame []).malformed = 0 := rfl
  rw [receive_of_none (r := ⟨frame, []⟩) hnone, hframe, hzero]
  cases hcommand : (scan frame packet).command with
  | some command =>
    rw [fetch_cons_of_some h hcommand, receive_of_some (r := ⟨frame, packet⟩) hcommand]
    simp
  | none =>
    rw [fetch_cons_of_none h hcommand, receive_of_none (r := ⟨frame, packet⟩) hcommand]
    simp

end turns

/-! ### A call ends -/

/-- A call in single turns, as long as there is fuel: it looks at the next byte of the packet
    at hand, or fetches a packet. -/
def loop : Nat → Receiver → List Bytes → Option Received
  | 0, _, _ => none
  | fuel + 1, ⟨frame, b :: rest⟩, packets =>
    match takeByte frame b with
    | ⟨some (.command command), frame⟩ => some ⟨0, some command, ⟨frame, rest⟩, packets⟩
    | ⟨some .malformed, frame⟩ => (loop fuel ⟨frame, rest⟩ packets).map fun got =>
        { got with malformed := got.malformed + 1 }
    | ⟨none, frame⟩ => loop fuel ⟨frame, rest⟩ packets
  | _ + 1, ⟨frame, []⟩, [] => some ⟨0, none, ⟨frame, []⟩, []⟩
  | fuel + 1, ⟨frame, []⟩, packet :: packets =>
    if packet.isEmpty then some ⟨0, none, ⟨frame, []⟩, packets⟩
    else loop fuel ⟨frame, packet⟩ packets

/-- One turn for each byte and each packet ahead, and one more, are enough for a call. -/
theorem loop_eq_receive {fuel : Nat} {r : Receiver} {packets : List Bytes}
    (h : ahead r packets + packets.length < fuel) :
    loop fuel r packets = some (receive r packets) := by
  -- Every turn but the last uses up a byte or a packet.
  induction fuel generalizing r packets with
  | zero => exact absurd h (Nat.not_lt_zero _)
  | succ fuel ih =>
    obtain ⟨frame, bytes⟩ := r
    unfold ahead at ih h
    cases bytes with
    | cons b rest =>
      rw [List.length_cons] at h
      have hrest : ∀ frame, loop fuel ⟨frame, rest⟩ packets
          = some (receive ⟨frame, rest⟩ packets) := by
        intro frame
        apply ih
        show rest.length + _ + _ < fuel
        omega
      rw [loop]
      split
      · rename_i command after htaken
        rw [receive_of_command (by rw [htaken]), htaken]
      · rename_i after htaken
        rw [receive_of_malformed (by rw [htaken]), htaken, hrest]
        rfl
      · rename_i after htaken
        rw [receive_of_none_taken (by rw [htaken]), htaken, hrest]
    | nil =>
      cases packets with
      | nil => rfl
      | cons packet packets =>
        rw [loop]
        by_cases hpacket : packet = []
        · subst hpacket
          rfl
        · rw [if_neg (by simpa using hpacket), receive_of_packet hpacket]
          apply ih
          rw [List.flatten_cons, List.length_append, List.length_cons] at h
          show packet.length + _ + _ < fuel
          simp only [List.length_nil] at h
          omega

/-! ### What a call uses -/

/-- What a call tells. -/
def Received.events (got : Received) : List Event :=
  List.replicate got.malformed .malformed ++ (got.command.map .command).toList

theorem Received.commands_events (got : Received) :
    got.events.filterMap Event.command? = got.command.toList := by
  unfold Received.events
  rw [List.filterMap_append, List.filterMap_replicate_of_none rfl]
  cases got.command <;> rfl

/-- A call has used some of the bytes ahead of a receiver, in order and each of them once: it
    tells what they bring, and the bytes behind them are ahead of the next call. -/
structure Uses (r : Receiver) (packets : List Bytes) (used : Bytes) (got : Received) : Prop where
  stream : r.packet ++ packets.flatten
    = used ++ (got.receiver.packet ++ got.packets.flatten)
  gathered : gather r.frame used = ⟨got.events, got.receiver.frame⟩
  /-- A call that brings a command stops behind the zero that ends the frame of it. -/
  stops : got.command ≠ none → ∃ front, used = front ++ [0]
  /-- A call that brings none has used all. -/
  all : got.command = none → got.receiver.packet = [] ∧ got.packets = []

section calls

variable {r : Receiver} {packets : List Bytes}

/-- A byte that brings something to tell is a zero. -/
theorem eq_zero_of_event {frame : Array UInt8} {b : UInt8} {e : Event}
    (h : (takeByte frame b).event = some e) : b = 0 := by
  unfold takeByte at h
  by_contra hb
  simp [hb] at h

/-- A byte is taken, and then the call goes on. -/
theorem Uses.cons {frame : Array UInt8} {b : UInt8} {rest used : Bytes} {got : Received}
    (malformed : Nat) (h : Uses ⟨(takeByte frame b).frame, rest⟩ packets used got)
    (hevent : (takeByte frame b).event.toList = List.replicate malformed .malformed) :
    Uses ⟨frame, b :: rest⟩ packets (b :: used)
      { got with malformed := got.malformed + malformed } := by
  have hgathered : gather (takeByte frame b).frame used = ⟨got.events, got.receiver.frame⟩ :=
    h.gathered
  refine ⟨congrArg (b :: ·) h.stream, ?_, ?_, h.all⟩
  · rw [gather, hgathered, hevent]
    unfold Received.events
    rw [Nat.add_comm, ← List.replicate_append_replicate, List.append_assoc]
  · intro hcommand
    obtain ⟨front, hfront⟩ := h.stops hcommand
    exact ⟨b :: front, congrArg (b :: ·) hfront⟩

/-- Every call uses bytes that are ahead. -/
theorem exists_uses (h : ∀ packet ∈ packets, packet ≠ []) :
    ∃ used, Uses r packets used (receive r packets) := by
  -- The induction is on the turns of the call.
  induction hn : ahead r packets + packets.length using Nat.strongRecOn generalizing r packets with
  | ind n ih =>
    obtain ⟨frame, bytes⟩ := r
    unfold ahead at hn ih
    cases bytes with
    | cons b rest =>
      simp only [List.length_cons] at hn
      obtain ⟨used, hused⟩ :=
        ih (rest.length + packets.flatten.length + packets.length) (by omega)
          (r := ⟨(takeByte frame b).frame, rest⟩) h rfl
      cases hevent : (takeByte frame b).event with
      | none =>
        refine ⟨b :: used, ?_⟩
        rw [receive_of_none_taken hevent]
        exact hused.cons 0 (by rw [hevent]; rfl)
      | some e =>
        cases e with
        | malformed =>
          refine ⟨b :: used, ?_⟩
          rw [receive_of_malformed hevent]
          exact hused.cons 1 (by rw [hevent]; rfl)
        | command command =>
          -- The call ends here, whatever is behind this byte.
          have hzero := eq_zero_of_event hevent
          refine ⟨[b], ?_⟩
          rw [receive_of_command hevent]
          refine ⟨rfl, ?_, fun _ => ⟨[], by rw [hzero]; rfl⟩, nofun⟩
          rw [gather, hevent]
          rfl
    | nil =>
      cases packets with
      | nil => exact ⟨[], rfl, rfl, fun hsome => absurd rfl hsome, fun _ => ⟨rfl, rfl⟩⟩
      | cons packet packets =>
        have hpacket := h packet List.mem_cons_self
        simp only [List.flatten_cons, List.length_append, List.length_cons, List.length_nil] at hn
        rw [receive_of_packet hpacket]
        obtain ⟨used, hused⟩ :=
          ih (packet.length + packets.flatten.length + packets.length) (by omega)
            (r := ⟨frame, packet⟩) (fun p hp => h p (List.mem_cons_of_mem _ hp)) rfl
        exact ⟨used, hused.stream, hused.gathered, hused.stops, hused.all⟩

theorem drain_of_none (h : (receive r packets).command = none) :
    drain r packets = ⟨(receive r packets).events, (receive r packets).receiver,
      (receive r packets).packets⟩ := by
  have hevents : (receive r packets).events
      = List.replicate (receive r packets).malformed .malformed := by
    rw [Received.events, h]
    exact List.append_nil _
  rw [drain, hevents]
  split
  · rfl
  · rename_i heq
    cases h.symm.trans heq

theorem drain_of_some {command : Command} (h : (receive r packets).command = some command) :
    drain r packets =
      { drain (receive r packets).receiver (receive r packets).packets with
        events := (receive r packets).events
          ++ (drain (receive r packets).receiver (receive r packets).packets).events } := by
  have hevents : (receive r packets).events
      = List.replicate (receive r packets).malformed .malformed ++ [.command command] := by
    rw [Received.events, h]
    rfl
  rw [drain]
  split
  · rename_i heq
    cases h.symm.trans heq
  · rename_i other heq
    obtain rfl : command = other := Option.some.inj (h.symm.trans heq)
    rw [hevents, List.append_assoc]
    rfl

/-- All calls together use up the bytes that are ahead, and tell what these bring. -/
theorem drain_eq_gather (h : ∀ packet ∈ packets, packet ≠ []) :
    drain r packets = ⟨(gather r.frame (r.packet ++ packets.flatten)).events,
      ⟨(gather r.frame (r.packet ++ packets.flatten)).frame, []⟩, []⟩ := by
  -- The induction is on the calls, each of which uses what the one before it left.
  induction r, packets using drain.induct with
  | case1 r packets got hnone =>
    obtain ⟨used, hused⟩ := exists_uses (r := r) h
    obtain ⟨hpacket, hpackets⟩ := hused.all hnone
    have hstream := hused.stream
    rw [hpacket, hpackets, List.flatten_nil, List.append_nil, List.append_nil] at hstream
    have hreceiver : (receive r packets).receiver = ⟨(receive r packets).receiver.frame, []⟩ := by
      rw [← hpacket]
    rw [drain_of_none hnone, hstream, hused.gathered, hpackets, ← hreceiver]
  | case2 r packets got command hsome ih =>
    obtain ⟨used, hused⟩ := exists_uses (r := r) h
    have hlater := ih fun p hp => h p ((packets_receive_suffix r packets).subset hp)
    rw [hused.stream, gather_append r.frame used, hused.gathered, drain_of_some hsome, hlater]

end calls

/-! ### Sessions -/

namespace Session

/-- Nothing has arrived at a receiver that may have seen some bytes before. -/
def startAt (r : Receiver) : Session := ⟨r, [], []⟩

/-- The receiver when it is called until it finds no command. -/
def atEnd (s : Session) : Receiver := (drain s.receiver s.packets).receiver

/-- A session that has come so far through a stream: some bytes were used, one after the
    other, and the others are ahead. -/
structure Through (r : Receiver) (stream : Bytes) (s : Session) : Prop where
  packets : ∀ packet ∈ s.packets, packet ≠ []
  used : ∃ used, r.packet ++ stream = used ++ (s.receiver.packet ++ s.packets.flatten)
    ∧ (gather r.frame used).frame = s.receiver.frame
    ∧ (gather r.frame used).commands = s.commands

variable {r : Receiver} {stream : Bytes} {s : Session}

theorem through_startAt (r : Receiver) : Through r [] (startAt r) :=
  ⟨nofun, [], rfl, rfl, rfl⟩

/-- A turn comes further through the stream, or leaves it where it is. -/
theorem Through.turn (h : s.Through r stream) {t : Turn}
    (ht : ∀ bytes, t = .packet bytes → bytes ≠ []) :
    (s.turn t).Through r (stream ++ Turn.stream [t]) := by
  obtain ⟨used, hstream, hframe, hcommands⟩ := h.used
  cases t with
  | packet bytes =>
    have harrived : Turn.stream [.packet bytes] = bytes := List.append_nil bytes
    constructor
    · intro packet hmem
      rcases List.mem_append.mp hmem with hold | hnew
      · exact h.packets packet hold
      · rw [List.mem_singleton.mp hnew]
        exact ht bytes rfl
    · refine ⟨used, ?_, hframe, hcommands⟩
      rw [harrived, ← List.append_assoc, hstream]
      simp [Session.turn]
  | call =>
    have harrived : Turn.stream [.call] = [] := rfl
    obtain ⟨now, hnow⟩ := exists_uses (r := s.receiver) h.packets
    have hgathered := hnow.gathered
    rw [← hframe] at hgathered
    constructor
    · intro packet hmem
      exact h.packets packet ((packets_receive_suffix _ _).subset hmem)
    · -- What was used so far comes before what this call uses.
      refine ⟨used ++ now, ?_, ?_, ?_⟩
      · rw [harrived, List.append_nil, hstream, hnow.stream, List.append_assoc]
        rfl
      · rw [gather_append, hgathered]
        rfl
      · rw [commands_gather_append, hcommands, hgathered]
        exact congrArg (s.commands ++ ·) (Received.commands_events _)

theorem Through.run (h : s.Through r stream) {turns : List Turn}
    (hturns : ∀ bytes, .packet bytes ∈ turns → bytes ≠ []) :
    (s.run turns).Through r (stream ++ Turn.stream turns) := by
  induction turns generalizing s stream with
  | nil =>
    rw [show Turn.stream [] = [] from rfl, List.append_nil]
    exact h
  | cons t turns ih =>
    have hnext := h.turn (t := t) fun bytes heq => hturns bytes (heq ▸ List.mem_cons_self)
    have hrest := ih hnext fun bytes hmem => hturns bytes (List.mem_cons_of_mem _ hmem)
    have hstream : Turn.stream (t :: turns) = Turn.stream [t] ++ Turn.stream turns := by
      unfold Turn.stream
      rw [← List.flatMap_append, List.singleton_append]
    rw [hstream, ← List.append_assoc]
    exact hrest

/-- In the end a session has told what the stream brings, and has gathered what it leaves. -/
theorem Through.ends (h : s.Through r stream) :
    s.allCommands = (gather r.frame (r.packet ++ stream)).commands
      ∧ s.atEnd = ⟨(gather r.frame (r.packet ++ stream)).frame, []⟩ := by
  obtain ⟨used, hstream, hframe, hcommands⟩ := h.used
  have hdrain := drain_eq_gather (r := s.receiver) h.packets
  constructor
  · rw [allCommands, hdrain, hstream, commands_gather_append, hcommands, hframe]
    rfl
  · rw [atEnd, hdrain, hstream, gather_append r.frame used, hframe]

/-- To call the receiver until it finds no command takes one call for each byte ahead and one
    more at most. -/
theorem exists_calls (s : Session) : ∃ n ≤ ahead s.receiver s.packets + 1,
    s.run (List.replicate n .call)
      = ⟨s.atEnd, (drain s.receiver s.packets).packets, s.allCommands⟩ := by
  obtain ⟨r, packets, told⟩ := s
  unfold allCommands atEnd Drained.commands
  induction r, packets using drain.induct generalizing told with
  | case1 r packets got hnone =>
    refine ⟨1, Nat.le_add_left _ _, ?_⟩
    rw [drain_of_none hnone, Received.commands_events]
    rfl
  | case2 r packets got command hsome ih =>
    obtain ⟨n, hn, hcalls⟩ := ih (told ++ [command])
    have hless : ahead got.receiver got.packets < ahead r packets := receive_ahead hsome
    have hturn : turn ⟨r, packets, told⟩ .call
        = ⟨got.receiver, got.packets, told ++ [command]⟩ := by
      simp [turn, hsome, got]
    refine ⟨n + 1, Nat.succ_le_succ (Nat.le_trans hn hless), ?_⟩
    rw [List.replicate_succ, run, List.foldl_cons, hturn, drain_of_some hsome,
      List.filterMap_append, Received.commands_events, hsome, ← List.append_assoc]
    exact hcalls

end Session

/-! ### Any two cuts -/

/-- The same stream arrives twice at a receiver, in packets cut in two ways, and the receiver is
    called as often as one likes in between, and in the end until it finds no command. Both
    times it has found the same commands and gathered the same bytes of a frame.

    An interrupt, which calls until there is no command, is a number of calls. A call comes to
    an end in no more turns than there are bytes and packets. It uses bytes that are ahead, in
    order and each once, and what is behind a command stays ahead. -/
theorem same_for_every_cut (r : Receiver) {turns turns' : List Turn}
    (hturns : ∀ bytes, .packet bytes ∈ turns → bytes ≠ [])
    (hturns' : ∀ bytes, .packet bytes ∈ turns' → bytes ≠ [])
    (hstream : Turn.stream turns = Turn.stream turns') :
    ((Session.startAt r).run turns).allCommands = ((Session.startAt r).run turns').allCommands
      ∧ ((Session.startAt r).run turns).atEnd = ((Session.startAt r).run turns').atEnd
      ∧ ((Session.startAt r).run turns).atEnd.packet = []
      ∧ (∀ s : Session, ∃ n ≤ ahead s.receiver s.packets + 1, s.run (List.replicate n .call)
          = ⟨s.atEnd, (drain s.receiver s.packets).packets, s.allCommands⟩)
      ∧ ∀ (r : Receiver) (packets : List Bytes), (∀ packet ∈ packets, packet ≠ []) →
        loop (ahead r packets + packets.length + 1) r packets = some (receive r packets)
          ∧ ∃ used, Uses r packets used (receive r packets) := by
  obtain ⟨hcommands, hend⟩ := ((Session.through_startAt r).run hturns).ends
  obtain ⟨hcommands', hend'⟩ := ((Session.through_startAt r).run hturns').ends
  rw [← hstream] at hcommands' hend'
  refine ⟨?_, ?_, ?_, ?_, ?_⟩
  · rw [hcommands, hcommands']
  · rw [hend, hend']
  · rw [hend]
  · exact Session.exists_calls
  · intro r packets hpackets
    exact ⟨loop_eq_receive (Nat.lt_succ_self _), exists_uses hpackets⟩

/-- Two commands and the beginning of a third one come in two packets, or in four with calls in
    between. -/
theorem same_for_every_cut_twoCommands :
    let turns : List Turn := [.packet [1, 1, 0, 1, 1], .packet [0, 7]]
    let turns' : List Turn := [.packet [1], .call, .packet [1], .packet [0, 1, 1, 0], .call,
      .packet [7], .call]
    (∀ bytes, .packet bytes ∈ turns → bytes ≠ [])
      ∧ (∀ bytes, .packet bytes ∈ turns' → bytes ≠ [])
      ∧ Turn.stream turns = Turn.stream turns'
      ∧ ((Session.startAt .empty).run turns).allCommands = [.getStatus, .getStatus]
      ∧ ((Session.startAt .empty).run turns').allCommands = [.getStatus, .getStatus]
      ∧ ((Session.startAt .empty).run turns').atEnd = ⟨#[7], []⟩ := by
  intro turns turns'
  have hpackets : ∀ bytes, .packet bytes ∈ turns → bytes ≠ [] := by
    intro bytes hmem
    simp only [turns, List.mem_cons, Turn.packet.injEq, List.not_mem_nil, or_false] at hmem
    rcases hmem with rfl | rfl <;> decide
  have hpackets' : ∀ bytes, .packet bytes ∈ turns' → bytes ≠ [] := by
    intro bytes hmem
    simp only [turns', List.mem_cons, Turn.packet.injEq, List.not_mem_nil, or_false, reduceCtorEq,
      false_or] at hmem
    rcases hmem with rfl | rfl | rfl | rfl <;> decide
  have hstream : Turn.stream turns = Turn.stream turns' := rfl
  obtain ⟨hcommands, hend, -⟩ := same_for_every_cut .empty hpackets hpackets' hstream
  have hfound : ((Session.startAt .empty).run turns).allCommands = [.getStatus, .getStatus] := by
    decide +kernel
  have hleft : ((Session.startAt .empty).run turns).atEnd = ⟨#[7], []⟩ := by decide +kernel
  exact ⟨hpackets, hpackets', hstream, hfound, hcommands.symm.trans hfound,
    hend.symm.trans hleft⟩

end Receiver

end Loader

end Reflash
