import Mathlib.Data.List.Basic
import Reflash.Loader.Receiver
/-! # The commands in a stream of bytes

  A receiver takes a stream in packets, and between two packets, or in the middle of
  one, it may be asked for a command. What it gives back depends on the stream alone:
  the stream is cut at its zeros, and each frame is looked at for itself.

  A frame longer than `maxFrame` ought to be dropped. The receiver drops what it has
  gathered when there is no more room, but it does not wait for the end of the frame:
  it goes on gathering, so that the end of a long frame is taken for a frame of its
  own. `leftover` is that end, and `commands_of_stream` says when it matters.

  The invariant is `commandsFrom`: the commands that are still to come from what was
  gathered and the bytes ahead. A call takes the first of them away.
-/

namespace Reflash

namespace Loader

namespace Receiver

/-! ### Frames -/

/-- The frames of a stream, each without the zero that ends it, if some bytes of the
    first one were seen before. What stands behind the last zero is no frame yet. -/
def framesFrom (begun : Bytes) : Bytes → List Bytes
  | [] => []
  | b :: rest => if b = 0 then begun :: framesFrom [] rest else framesFrom (begun ++ [b]) rest

/-- The frames of a stream. -/
def frames (stream : Bytes) : List Bytes := framesFrom [] stream

/-- The frames of a stream are what is left when it is cut at each zero and the last
    piece is left out. -/
theorem frames_eq_splitOn (stream : Bytes) : frames stream = (stream.splitOn 0).dropLast := by
  have hfrom : ∀ begun, framesFrom begun stream
      = ((stream.splitOnP (· == 0)).modifyHead (begun ++ ·)).dropLast := by
    induction stream with
    | nil => intro begun; rfl
    | cons b rest ih =>
      intro begun
      rw [List.splitOnP_cons_eq_if_modifyHead, framesFrom]
      by_cases hb : b = 0
      · have hrest := ih []
        rw [if_pos hb, if_pos (by simp [hb]), hrest, List.modifyHead_cons, List.append_nil,
          List.dropLast_cons_of_ne_nil (List.splitOnP_ne_nil _ _)]
        congr 2
        cases rest.splitOnP (· == 0) <;> rfl
      · rw [if_neg hb, if_neg (by simp [hb]), ih]
        congr 1
        cases rest.splitOnP (· == 0) <;> simp
  rw [frames, hfrom]
  show ((stream.splitOnP (· == 0)).modifyHead ([] ++ ·)).dropLast
    = (stream.splitOnP (· == 0)).dropLast
  cases stream.splitOnP (· == 0) <;> rfl

/-- The bytes of a frame that the receiver still has when the frame ends. -/
def leftover (frame : Bytes) : Bytes :=
  frame.drop (frame.length / (maxFrame + 1) * (maxFrame + 1))

theorem leftover_of_length_le {frame : Bytes} (h : frame.length ≤ maxFrame) :
    leftover frame = frame := by
  unfold leftover
  rw [Nat.div_eq_of_lt (Nat.lt_succ_of_le h), Nat.zero_mul, List.drop_zero]

theorem length_leftover (frame : Bytes) :
    (leftover frame).length = frame.length % (maxFrame + 1) := by
  unfold leftover
  rw [List.length_drop, Nat.mul_comm]
  exact (Nat.mod_eq_sub _ _).symm

/-- One byte more is gathered, or there is no room and nothing is left. -/
theorem leftover_snoc (frame : Bytes) (b : UInt8) :
    leftover (frame ++ [b])
      = if (leftover frame).length < maxFrame then leftover frame ++ [b] else [] := by
  rw [length_leftover]
  unfold leftover
  rw [List.length_append, List.length_singleton]
  have hmax : maxFrame = 1024 := rfl
  rw [hmax]
  split
  · have hquot : (frame.length + 1) / (1024 + 1) = frame.length / (1024 + 1) := by omega
    rw [hquot, List.drop_append_of_le_length (by omega)]
  · have hquot : (frame.length + 1) / (1024 + 1) * (1024 + 1) = frame.length + 1 := by omega
    rw [hquot]
    exact List.drop_eq_nil_of_le (by simp)

theorem toList_grow {frame : Array UInt8} {begun : Bytes} (h : frame.toList = leftover begun)
    (b : UInt8) : (grow frame b).toList = leftover (begun ++ [b]) := by
  rw [leftover_snoc, ← h]
  unfold grow
  rw [Array.length_toList]
  split
  · rw [Array.toList_push]
  · rfl

/-! ### Commands still to come -/

/-- The command in a frame, if there is one. There is none in an empty frame. -/
def commandIn (frame : Bytes) : Option Command :=
  if frame.isEmpty then none else (commandOf frame.toArray).toOption

/-- The commands that come of what was gathered and the bytes ahead. -/
def commandsFrom (frame : Array UInt8) : Bytes → List Command
  | [] => []
  | b :: rest =>
    if b = 0 then (commandIn frame.toList).toList ++ commandsFrom #[] rest
    else commandsFrom (grow frame b) rest

/-- These are the commands in what is left of each frame. -/
theorem commandsFrom_eq {frame : Array UInt8} {begun : Bytes} (h : frame.toList = leftover begun)
    (stream : Bytes) : commandsFrom frame stream
      = (framesFrom begun stream).filterMap fun f => commandIn (leftover f) := by
  induction stream generalizing frame begun with
  | nil => rfl
  | cons b rest ih =>
    rw [commandsFrom, framesFrom]
    by_cases hb : b = 0
    · have hrest : commandsFrom #[] rest
          = (framesFrom [] rest).filterMap fun f => commandIn (leftover f) := ih rfl
      rw [if_pos hb, if_pos hb, hrest, h, List.filterMap_cons]
      cases commandIn (leftover begun) <;> rfl
    · rw [if_neg hb, if_neg hb, ih (toList_grow h b)]

/-- Looking at the bytes of a packet takes the first command away, or uses all of the
    packet up. -/
theorem commandsFrom_scan (frame : Array UInt8) (bytes more : Bytes) :
    commandsFrom frame (bytes ++ more) = (scan frame bytes).command.toList
      ++ commandsFrom (scan frame bytes).frame ((scan frame bytes).rest ++ more) := by
  induction bytes generalizing frame with
  | nil => rfl
  | cons b rest ih =>
    rw [List.cons_append, commandsFrom, scan]
    by_cases hb : b = 0
    · rw [if_pos hb, if_neg (by simp [hb])]
      by_cases hempty : frame.isEmpty = true
      · -- Nothing was gathered, so the zero means nothing.
        have hnone : commandIn frame.toList = none := by
          simp [commandIn, Array.isEmpty_iff.mp hempty]
        rw [if_pos hempty, hnone]
        exact ih #[]
      · have hsome : commandIn frame.toList = (commandOf frame).toOption := by
          have hlist : frame.toList.isEmpty = false := by
            rw [Bool.not_eq_true] at hempty
            rw [← hempty, Array.isEmpty_toList]
          simp [commandIn, hlist]
        rw [if_neg hempty, hsome]
        cases commandOf frame with
        | ok command => rfl
        | error e => exact ih #[]
    · rw [if_neg hb, if_pos (by simp [hb])]
      exact ih (grow frame b)

/-- A packet that brings no command is used up. -/
theorem rest_scan {frame : Array UInt8} {bytes : Bytes} (h : (scan frame bytes).command = none) :
    (scan frame bytes).rest = [] := by
  induction bytes generalizing frame with
  | nil => rfl
  | cons b rest ih =>
    rw [scan] at h ⊢
    by_cases hb : (b != 0) = true
    · rw [if_pos hb] at h ⊢
      exact ih h
    · rw [if_neg hb] at h ⊢
      by_cases hempty : frame.isEmpty = true
      · rw [if_pos hempty] at h ⊢
        exact ih h
      · rw [if_neg hempty] at h ⊢
        cases hcommand : commandOf frame with
        | ok command =>
          rw [hcommand] at h
          cases h
        | error e =>
          rw [hcommand] at h
          exact ih h

/-! ### Calls -/

section calls

variable {frame : Array UInt8} {r : Receiver} {packet : Bytes} {packets : List Bytes}
  {command : Command}

/-! What `fetch` and `receive` come to, by what the packet at hand brings. -/

theorem fetch_cons_of_some (hpacket : packet ≠ [])
    (h : (scan frame packet).command = some command) :
    fetch frame (packet :: packets) = ⟨(scan frame packet).malformed, some command,
      ⟨(scan frame packet).frame, (scan frame packet).rest⟩, packets⟩ := by
  simp [fetch, hpacket, h]

theorem fetch_cons_of_none (hpacket : packet ≠ []) (h : (scan frame packet).command = none) :
    fetch frame (packet :: packets) = { fetch (scan frame packet).frame packets with
      malformed := (scan frame packet).malformed
        + (fetch (scan frame packet).frame packets).malformed } := by
  simp [fetch, hpacket, h]

theorem receive_of_some (h : (scan r.frame r.packet).command = some command) :
    receive r packets = ⟨(scan r.frame r.packet).malformed, some command,
      ⟨(scan r.frame r.packet).frame, (scan r.frame r.packet).rest⟩, packets⟩ := by
  simp [receive, h]

theorem receive_of_none (h : (scan r.frame r.packet).command = none) :
    receive r packets = { fetch (scan r.frame r.packet).frame packets with
      malformed := (scan r.frame r.packet).malformed
        + (fetch (scan r.frame r.packet).frame packets).malformed } := by
  simp [receive, h]

/-- Fetching packets takes the first command away. -/
theorem commandsFrom_fetch (h : ∀ packet ∈ packets, packet ≠ []) (frame : Array UInt8)
    (more : Bytes) :
    commandsFrom frame (packets.flatten ++ more) = (fetch frame packets).command.toList
      ++ commandsFrom (fetch frame packets).receiver.frame
        ((fetch frame packets).receiver.packet
          ++ ((fetch frame packets).packets.flatten ++ more)) := by
  induction packets generalizing frame with
  | nil => rfl
  | cons packet packets ih =>
    have hpacket := h packet List.mem_cons_self
    rw [List.flatten_cons, List.append_assoc, commandsFrom_scan]
    cases hcommand : (scan frame packet).command with
    | some command =>
      rw [fetch_cons_of_some hpacket hcommand]
    | none =>
      rw [fetch_cons_of_none hpacket hcommand, rest_scan hcommand]
      exact ih (fun p hp => h p (List.mem_cons_of_mem _ hp)) _

/-- A call takes the first command away. -/
theorem commandsFrom_receive (h : ∀ packet ∈ packets, packet ≠ []) (r : Receiver) (more : Bytes) :
    commandsFrom r.frame (r.packet ++ (packets.flatten ++ more))
      = (receive r packets).command.toList
        ++ commandsFrom (receive r packets).receiver.frame
          ((receive r packets).receiver.packet
            ++ ((receive r packets).packets.flatten ++ more)) := by
  rw [commandsFrom_scan]
  cases hcommand : (scan r.frame r.packet).command with
  | some command => rw [receive_of_some hcommand]
  | none =>
    rw [receive_of_none hcommand, rest_scan hcommand]
    exact commandsFrom_fetch h _ more

theorem packets_fetch_suffix (frame : Array UInt8) (packets : List Bytes) :
    (fetch frame packets).packets <:+ packets := by
  induction packets generalizing frame with
  | nil => exact List.suffix_rfl
  | cons packet packets ih =>
    by_cases hpacket : packet = []
    · subst hpacket
      exact List.suffix_cons _ _
    · cases hcommand : (scan frame packet).command with
      | some command =>
        rw [fetch_cons_of_some hpacket hcommand]
        exact List.suffix_cons _ _
      | none =>
        rw [fetch_cons_of_none hpacket hcommand]
        exact (ih _).trans (List.suffix_cons _ _)

/-- What a call does not fetch stays as it is. -/
theorem packets_receive_suffix (r : Receiver) (packets : List Bytes) :
    (receive r packets).packets <:+ packets := by
  cases hcommand : (scan r.frame r.packet).command with
  | some command =>
    have hall : (receive r packets).packets = packets :=
      congrArg (fun got => got.packets) (receive_of_some hcommand)
    exact ⟨[], hall⟩
  | none =>
    rw [receive_of_none hcommand]
    exact packets_fetch_suffix _ _

theorem ahead_fetch (h : ∀ packet ∈ packets, packet ≠ [])
    (hnone : (fetch frame packets).command = none) :
    (fetch frame packets).receiver.packet = [] ∧ (fetch frame packets).packets = [] := by
  induction packets generalizing frame with
  | nil => exact ⟨rfl, rfl⟩
  | cons packet packets ih =>
    have hpacket := h packet List.mem_cons_self
    cases hcommand : (scan frame packet).command with
    | some command =>
      rw [fetch_cons_of_some hpacket hcommand] at hnone
      cases hnone
    | none =>
      rw [fetch_cons_of_none hpacket hcommand] at hnone ⊢
      exact ih (fun p hp => h p (List.mem_cons_of_mem _ hp)) hnone

/-- A call that finds no command has looked at all bytes. -/
theorem ahead_receive (h : ∀ packet ∈ packets, packet ≠ [])
    (hnone : (receive r packets).command = none) :
    (receive r packets).receiver.packet = [] ∧ (receive r packets).packets = [] := by
  cases hcommand : (scan r.frame r.packet).command with
  | some command =>
    rw [receive_of_some hcommand] at hnone
    cases hnone
  | none =>
    rw [receive_of_none hcommand] at hnone ⊢
    exact ahead_fetch h hnone

end calls

/-- The command that a receiver tells of. -/
def Event.command? : Event → Option Command
  | .malformed => none
  | .command c => some c

/-- The commands that a receiver tells of when it is called until there is none. -/
def Drained.commands (got : Drained) : List Command := got.events.filterMap Event.command?

theorem commands_drain (r : Receiver) (packets : List Bytes)
    (h : ∀ packet ∈ packets, packet ≠ []) :
    (drain r packets).commands = commandsFrom r.frame (r.packet ++ packets.flatten) := by
  induction r, packets using drain.induct with
  | case1 r packets got hnone =>
    have hreceive := commandsFrom_receive h r []
    obtain ⟨hpacket, hpackets⟩ := ahead_receive h hnone
    rw [hnone, hpacket, hpackets, List.append_nil] at hreceive
    rw [hreceive, drain]
    split
    · simp [Drained.commands, Event.command?, commandsFrom]
    · rename_i heq
      rw [heq] at hnone
      cases hnone
  | case2 r packets got command hsome ih =>
    have hreceive := commandsFrom_receive h r []
    rw [List.append_nil, hsome, List.append_nil] at hreceive
    rw [hreceive, ← ih fun p hp => h p ((packets_receive_suffix r packets).subset hp), drain]
    split
    · rename_i heq
      rw [heq] at hsome
      cases hsome
    · rename_i c heq
      rw [heq] at hsome
      cases hsome
      simp [Drained.commands, Event.command?, got]

/-! ### Packets and calls in turns -/

/-- What happens at a receiver. -/
inductive Turn where
  /-- A packet arrives at the endpoint. -/
  | packet (bytes : Bytes)
  /-- The receiver is called. -/
  | call

/-- The bytes that arrive in some turns. -/
def Turn.stream (turns : List Turn) : Bytes :=
  turns.flatMap fun
    | .packet bytes => bytes
    | .call => []

/-- A receiver, the packets at its endpoint, and the commands that it gave back. -/
structure Session where
  receiver : Receiver
  packets : List Bytes
  commands : List Command

namespace Session

/-- Nothing has arrived. -/
def start : Session := ⟨.empty, [], []⟩

/-- The session after a turn. -/
def turn (s : Session) : Turn → Session
  | .packet bytes => { s with packets := s.packets ++ [bytes] }
  | .call =>
    let got := receive s.receiver s.packets
    ⟨got.receiver, got.packets, s.commands ++ got.command.toList⟩

/-- The session after some turns. -/
def run (s : Session) (turns : List Turn) : Session := turns.foldl turn s

/-- All commands of a session, when the receiver is called in the end until it finds
    none. -/
def allCommands (s : Session) : List Command :=
  s.commands ++ (drain s.receiver s.packets).commands

/-- A session that has come so far through a stream: the packets that wait are not
    empty, and the commands so far and those still to come are those of the stream. -/
structure Reached (stream : Bytes) (s : Session) : Prop where
  packets : ∀ packet ∈ s.packets, packet ≠ []
  commands : ∀ more, commandsFrom #[] (stream ++ more) = s.commands
    ++ commandsFrom s.receiver.frame (s.receiver.packet ++ (s.packets.flatten ++ more))

theorem reached_start : Reached [] start := ⟨nofun, fun _ => rfl⟩

theorem Reached.turn {s : Session} {stream : Bytes} (h : s.Reached stream) {t : Turn}
    (ht : ∀ bytes, t = .packet bytes → bytes ≠ []) :
    (s.turn t).Reached (stream ++ Turn.stream [t]) := by
  cases t with
  | packet bytes =>
    refine ⟨fun packet hmem => ?_, fun more => ?_⟩
    · rcases List.mem_append.mp hmem with hold | hnew
      · exact h.packets packet hold
      · rw [List.mem_singleton.mp hnew]
        exact ht bytes rfl
    · have hstream : Turn.stream [.packet bytes] = bytes := List.append_nil bytes
      rw [hstream, List.append_assoc, h.commands (bytes ++ more)]
      simp [Session.turn]
  | call =>
    refine ⟨fun packet hmem => ?_, fun more => ?_⟩
    · exact h.packets packet ((packets_receive_suffix _ _).subset hmem)
    · have hstream : Turn.stream [.call] = [] := rfl
      rw [hstream, List.append_nil, h.commands more, commandsFrom_receive h.packets,
        ← List.append_assoc]
      rfl

theorem Reached.run {s : Session} {stream : Bytes} (h : s.Reached stream) {turns : List Turn}
    (hturns : ∀ bytes, .packet bytes ∈ turns → bytes ≠ []) :
    (s.run turns).Reached (stream ++ Turn.stream turns) := by
  induction turns generalizing s stream with
  | nil =>
    rw [show Turn.stream [] = [] from rfl, List.append_nil]
    exact h
  | cons t turns ih =>
    have hnext := h.turn (t := t) fun bytes heq => hturns bytes (heq ▸ List.mem_cons_self)
    have hrest := ih hnext fun bytes hmem => hturns bytes (List.mem_cons_of_mem _ hmem)
    have hstream : Turn.stream (t :: turns) = Turn.stream [t] ++ Turn.stream turns := by
      unfold Turn.stream
      rw [← List.flatMap_append, List.singleton_append]
    rw [hstream, ← List.append_assoc]
    exact hrest

/-- A session that comes to its end has found the commands in what is left of each
    frame. -/
theorem Reached.allCommands {s : Session} {stream : Bytes} (h : s.Reached stream) :
    s.allCommands = (frames stream).filterMap fun f => commandIn (leftover f) := by
  have hstream := h.commands []
  rw [List.append_nil, List.append_nil] at hstream
  rw [Session.allCommands, commands_drain _ _ h.packets, ← hstream]
  have hempty : (#[] : Array UInt8).toList = leftover [] := rfl
  exact commandsFrom_eq hempty stream

end Session

/-! ### Whole frames -/

/-- The commands that a stream ought to bring: frames that are empty or longer than
    `maxFrame` are dropped, and so are those that hold no command. -/
def wholeCommands (stream : Bytes) : List Command :=
  ((frames stream).filter fun f => !f.isEmpty && f.length ≤ maxFrame).filterMap fun f =>
    (commandOf f.toArray).toOption

/-- Where one of two readers of a list finds some of what the other one finds, they
    find the same if they agree on each element. -/
theorem filterMap_eq_iff {α β : Type} {f g : α → Option β} {xs : List α}
    (h : ∀ x ∈ xs, g x = none ∨ g x = f x) :
    xs.filterMap f = xs.filterMap g ↔ ∀ x ∈ xs, f x = g x := by
  have hle : ∀ ys : List α, (∀ x ∈ ys, g x = none ∨ g x = f x) →
      (ys.filterMap g).length ≤ (ys.filterMap f).length := by
    intro ys hys
    induction ys with
    | nil => exact Nat.le_refl 0
    | cons y ys ih =>
      have hrest := ih fun x hx => hys x (List.mem_cons_of_mem y hx)
      rcases hys y List.mem_cons_self with hnone | hsame
      · rw [List.filterMap_cons_none hnone]
        cases hy : f y with
        | none =>
          rw [List.filterMap_cons_none hy]
          exact hrest
        | some b =>
          rw [List.filterMap_cons_some hy]
          exact Nat.le_succ_of_le hrest
      · cases hy : f y with
        | none =>
          rw [List.filterMap_cons_none hy, List.filterMap_cons_none (hsame.trans hy)]
          exact hrest
        | some b =>
          rw [List.filterMap_cons_some hy, List.filterMap_cons_some (hsame.trans hy)]
          exact Nat.succ_le_succ hrest
  refine ⟨fun heq => ?_, fun hall => List.filterMap_congr hall⟩
  induction xs with
  | nil => nofun
  | cons y ys ih =>
    have hys := fun x hx => h x (List.mem_cons_of_mem y hx)
    have hrest := hle ys hys
    have hhead : f y = g y := by
      rcases h y List.mem_cons_self with hnone | hsame
      · cases hy : f y with
        | none => exact hnone.symm
        | some b =>
          -- Otherwise one of the lists would be longer.
          rw [List.filterMap_cons_some hy, List.filterMap_cons_none hnone] at heq
          have hlength := congrArg List.length heq
          rw [List.length_cons] at hlength
          omega
      · exact hsame.symm
    have htail : ys.filterMap f = ys.filterMap g := by
      cases hy : f y with
      | none =>
        rw [List.filterMap_cons_none hy, List.filterMap_cons_none (hhead ▸ hy)] at heq
        exact heq
      | some b =>
        rw [List.filterMap_cons_some hy, List.filterMap_cons_some (hhead ▸ hy)] at heq
        exact List.tail_eq_of_cons_eq heq
    intro x hx
    rcases List.mem_cons.mp hx with rfl | hx
    · exact hhead
    · exact ih hys htail x hx

/-- A stream brings the commands that it ought to if no long frame leaves a command
    behind. -/
theorem leftover_commands_eq_iff (stream : Bytes) :
    ((frames stream).filterMap fun f => commandIn (leftover f)) = wholeCommands stream ↔
      ∀ f ∈ frames stream, maxFrame < f.length → commandIn (leftover f) = none := by
  have hwhole : wholeCommands stream = (frames stream).filterMap fun f =>
      if f.length ≤ maxFrame then commandIn f else none := by
    unfold wholeCommands
    rw [List.filterMap_filter]
    congr 1
    funext f
    unfold commandIn
    by_cases hempty : f.isEmpty = true <;> by_cases hlength : f.length ≤ maxFrame <;>
      simp [hempty, hlength]
  have hshort : ∀ f : Bytes, f.length ≤ maxFrame → commandIn (leftover f) = commandIn f := by
    intro f hf
    rw [leftover_of_length_le hf]
  rw [hwhole, filterMap_eq_iff]
  · refine forall₂_congr fun f _ => ?_
    by_cases hlength : f.length ≤ maxFrame
    · rw [if_pos hlength, hshort f hlength]
      exact iff_of_true rfl fun hlt => absurd hlength (Nat.not_le.mpr hlt)
    · rw [if_neg hlength]
      exact ⟨fun h _ => h, fun h => h (Nat.not_le.mp hlength)⟩
  · intro f _
    by_cases hlength : f.length ≤ maxFrame
    · rw [if_pos hlength, hshort f hlength]
      exact .inr rfl
    · exact .inl (if_neg hlength)

/-- A stream of bytes arrives in packets, and the receiver is called as often as one
    likes, in between and in the end. However the stream is cut, it finds the commands
    in what is left of each frame. These are the ones that the stream ought to bring
    unless a frame that is too long leaves a command behind. -/
theorem commands_of_stream (turns : List Turn)
    (hpackets : ∀ bytes, .packet bytes ∈ turns → bytes ≠ []) :
    (Session.start.run turns).allCommands
        = (frames (Turn.stream turns)).filterMap (fun f => commandIn (leftover f))
      ∧ ((Session.start.run turns).allCommands = wholeCommands (Turn.stream turns) ↔
        ∀ f ∈ frames (Turn.stream turns), maxFrame < f.length → commandIn (leftover f) = none) := by
  have hfound := (Session.reached_start.run hpackets).allCommands
  rw [List.nil_append] at hfound
  refine ⟨hfound, ?_⟩
  rw [hfound]
  exact leftover_commands_eq_iff (Turn.stream turns)

/-- A frame in two packets, with a call in between, holds one command. -/
theorem commands_of_stream_cut :
    (∀ bytes, .packet bytes ∈ ([.packet [1], .call, .packet [1, 0], .call] : List Turn) →
        bytes ≠ [])
      ∧ (Session.start.run [.packet [1], .call, .packet [1, 0], .call]).allCommands = [.getStatus]
      ∧ wholeCommands [1, 1, 0] = [.getStatus] := by
  have hpackets : ∀ bytes, .packet bytes ∈
      ([.packet [1], .call, .packet [1, 0], .call] : List Turn) → bytes ≠ [] := by
    intro bytes hmem
    simp only [List.mem_cons, Turn.packet.injEq, List.not_mem_nil, or_false, reduceCtorEq,
      false_or] at hmem
    rcases hmem with rfl | rfl <;> decide
  obtain ⟨hfound, hwhole⟩ := commands_of_stream _ hpackets
  have hcommands : (Session.start.run [.packet [1], .call, .packet [1, 0], .call]).allCommands
      = [.getStatus] := hfound.trans (by decide +kernel)
  refine ⟨hpackets, hcommands, ?_⟩
  rw [← hcommands]
  exact (hwhole.mpr (by decide +kernel)).symm

/-! ### A frame that is too long -/

/-- A frame of ones and the zero behind it, in packets. It is two bytes longer than the
    receiver has room for and the byte that is dropped. -/
def longFrame : List Turn :=
  List.replicate 16 (.packet (List.replicate 64 1)) ++ [.packet [1], .packet [1, 1, 0]]

theorem stream_longFrame : Turn.stream longFrame = List.replicate 1027 1 ++ [0] := by
  have hones : Turn.stream (List.replicate 16 (.packet (List.replicate 64 1)))
      = List.replicate 1024 1 := by
    unfold Turn.stream
    rw [List.flatMap_replicate, List.flatten_replicate_replicate]
  have hsplit : Turn.stream longFrame = List.replicate 1024 1 ++ (List.replicate 3 1 ++ [0]) := by
    rw [← hones]
    exact List.flatMap_append
  rw [hsplit, ← List.append_assoc, List.replicate_append_replicate]

/-- A frame without a zero in it ends at the zero behind it. -/
theorem framesFrom_append {begun bytes : Bytes} (h : ∀ b ∈ bytes, b ≠ 0) (rest : Bytes) :
    framesFrom begun (bytes ++ 0 :: rest) = (begun ++ bytes) :: frames rest := by
  induction bytes generalizing begun with
  | nil =>
    rw [List.nil_append, framesFrom, if_pos rfl, List.append_nil]
    rfl
  | cons b bytes ih =>
    have hb := h b List.mem_cons_self
    rw [List.cons_append, framesFrom, if_neg hb, ih fun x hx => h x (List.mem_cons_of_mem b hx),
      List.append_assoc, List.singleton_append]

theorem frames_longFrame : frames (Turn.stream longFrame) = [List.replicate 1027 1] := by
  rw [stream_longFrame, frames, framesFrom_append]
  · rfl
  · intro b hb
    rw [List.eq_of_mem_replicate hb]
    decide

theorem leftover_longFrame : leftover (List.replicate 1027 1) = [1, 1] := by
  unfold leftover
  rw [List.length_replicate, List.drop_replicate]
  rfl

/-- The last two bytes of a frame of 1027 ones are a command to a receiver, which ought
    to find none. -/
theorem long_frame_leaves_command :
    (∀ bytes, .packet bytes ∈ longFrame → 1 ≤ bytes.length ∧ bytes.length ≤ 64)
      ∧ (Session.start.run longFrame).allCommands = [.getStatus]
      ∧ wholeCommands (Turn.stream longFrame) = [] := by
  have hlengths : ∀ bytes, .packet bytes ∈ longFrame → 1 ≤ bytes.length ∧ bytes.length ≤ 64 := by
    intro bytes hmem
    rcases List.mem_append.mp hmem with hones | hlast
    · cases List.eq_of_mem_replicate hones
      rw [List.length_replicate]
      decide
    · simp only [List.mem_cons, Turn.packet.injEq, List.not_mem_nil, or_false] at hlast
      rcases hlast with rfl | rfl <;> decide
  have hpackets : ∀ bytes, .packet bytes ∈ longFrame → bytes ≠ [] := by
    intro bytes hmem hempty
    have hlength := (hlengths bytes hmem).1
    rw [hempty] at hlength
    exact absurd hlength (by decide)
  have hcommand : commandIn (leftover (List.replicate 1027 1)) = some .getStatus := by
    rw [leftover_longFrame]
    decide +kernel
  have hfound := (Session.reached_start.run hpackets).allCommands
  rw [List.nil_append, frames_longFrame] at hfound
  refine ⟨hlengths, hfound.trans (List.filterMap_cons_some hcommand), ?_⟩
  have hlong : ¬ (List.replicate 1027 (1 : UInt8)).length ≤ maxFrame := by
    rw [List.length_replicate]
    decide
  rw [wholeCommands, frames_longFrame, List.filter_cons_of_neg]
  · rfl
  · rw [decide_eq_false hlong, Bool.and_false]
    exact Bool.false_ne_true

end Receiver

end Loader

end Reflash
