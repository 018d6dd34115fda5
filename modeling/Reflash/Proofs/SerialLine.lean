import Reflash.Bench.FarEnds
import Reflash.Proofs.Framing
import Reflash.Proofs.LeftAlone
/-! # A frame on its way

  The bytes of a frame come in as packets, cut in any way, and the interrupt may come
  before, between and after any two steps of the worker. `LineEvent` lists what can
  happen, and `Service.carry` lets it happen in a given order; what is left over in the
  end takes its course.

  A service at rest ends up the same in every order. As long as bytes are missing nothing
  happens but that they are gathered: this is `Coming`. Once the command was taken in it
  is settled what becomes of the service.
-/

namespace Reflash

theorem flatten_pieces {α : Type} (n : Nat) (xs : List α) : (pieces n xs).flatten = xs := by
  induction xs using pieces.induct n with
  | case1 => simp [pieces]
  | case2 a rest ih => rw [pieces, List.flatten_cons, ih, List.cons_append, List.take_append_drop]

theorem ne_nil_of_mem_pieces {α : Type} {n : Nat} {xs piece : List α} (h : piece ∈ pieces n xs) :
    piece ≠ [] := by
  induction xs using pieces.induct n with
  | case1 => simp [pieces] at h
  | case2 a rest ih =>
    rw [pieces] at h
    rcases List.mem_cons.mp h with rfl | h
    · exact List.cons_ne_nil _ _
    · exact ih h

namespace Loader

/-! ### The line -/

/-- What can happen while a frame is on its way. -/
inductive LineEvent where
  /-- The next bytes come in as one packet. Their number is one more. -/
  | arrive (others : Fin LoaderEnd.packetSize)
  | interrupt
  /-- The worker takes a job. -/
  | take
  | carryOut
  | finish
deriving DecidableEq

/-- A service, and the bytes that are on their way to it. -/
structure Wire (σ : Type) where
  service : Service σ
  transit : Bytes

namespace Wire

variable {σ : Type} [Hardware σ]

/-- What comes of an event. -/
def step (w : Wire σ) : LineEvent → Except Fault (Wire σ)
  | .arrive others =>
    if w.transit.isEmpty then .ok w
    else
      let packet := w.transit.take (others.val + 1)
      .ok {
        service := w.service.withInput w.service.receiver (w.service.endpoint.packets ++ [packet])
        transit := w.transit.drop (others.val + 1) }
  | .interrupt => do return { w with service := ← w.service.interrupt }
  | .take => .ok { w with service := w.service.withDevice w.service.device.takeJob }
  | .carryOut => .ok { w with service := w.service.withDevice w.service.device.carryOut }
  | .finish => do return { w with service := w.service.withDevice (← w.service.device.finish) }

/-- What comes of several events. -/
def run (w : Wire σ) (events : List LineEvent) : Except Fault (Wire σ) := events.foldlM step w

end Wire

/-- What comes of a service that a frame is sent to, if it begins with these events. The
    bytes that are left come in then, and the service is left alone. -/
def Service.carry {σ : Type} [Hardware σ] (s : Service σ) (frame : Bytes)
    (events : List LineEvent) : Except Fault (Service σ) := do
  let w ← (⟨s, frame⟩ : Wire σ).run events
  w.service.deliver (pieces LoaderEnd.packetSize w.transit)

/-- A service at the end of a line. The schedule says how the line and the service behave
    for each frame in turn, and beyond its end they take their course. -/
structure Line (σ : Type) where
  service : Service σ
  schedule : List (List LineEvent)
  /-- What was sent back for each frame, the latest first. -/
  answers : List Bytes

/-- A service once what it sent was taken. -/
def Service.collected {σ : Type} (s : Service σ) : Service σ :=
  { s with endpoint := { s.endpoint with sent := [] } }

/-- A frame goes over the line, and what is sent back arrives. -/
def Line.take {σ : Type} [Hardware σ] (l : Line σ) (frame : Bytes) : Delivery × Line σ :=
  match l.service.carry frame (l.schedule.headD []) with
  | .error fault => (.notWritten fault.message, l)
  | .ok s =>
    (.sent (s.endpoint.sent.map Arrival.byte), {
      service := s.collected
      schedule := l.schedule.tail
      answers := s.endpoint.sent :: l.answers })

instance {σ : Type} [Hardware σ] : FarEnd (Line σ) where
  take := Line.take

/-! ### One frame -/

/-- The last element of a list ends what it is appended to. -/
theorem exists_snoc_of_append {α : Type} {xs ys zs : List α} {a : α} (h : xs ++ ys = zs ++ [a])
    (hys : ys ≠ []) : ∃ front, ys = front ++ [a] ∧ xs ++ front = zs := by
  obtain ⟨front, b, rfl⟩ := (List.eq_nil_or_concat ys).resolve_left hys
  rw [List.concat_eq_append, ← List.append_assoc] at h
  obtain ⟨hfront, hlast⟩ := List.append_inj' h rfl
  exact ⟨front, by rw [List.concat_eq_append, hlast], hfront⟩

namespace Receiver

variable {frame : Array UInt8} {packets : List Bytes} {bytes body : Bytes} {command : Command}

/-- Bytes before the end of a frame are gathered. -/
theorem scan_append_of_not_mem (hzero : 0 ∉ bytes)
    (hfits : frame.size + bytes.length ≤ maxFrame) (more : Bytes) :
    scan frame (bytes ++ more) = scan (frame.toList ++ bytes).toArray more := by
  induction bytes generalizing frame with
  | nil => simp
  | cons b rest ih =>
    obtain ⟨hb, hrest⟩ := not_or.mp (mt List.mem_cons.mpr hzero)
    rw [List.length_cons] at hfits
    have hgrow : grow frame b = frame.push b := if_pos (by omega)
    rw [List.cons_append, scan, if_pos (by simpa using fun h : b = 0 => hb h.symm), hgrow,
      ih hrest (by rw [Array.size_push]; omega)]
    simp

theorem scan_of_not_mem (hzero : 0 ∉ bytes) (hfits : frame.size + bytes.length ≤ maxFrame) :
    scan frame bytes = ⟨0, none, (frame.toList ++ bytes).toArray, []⟩ := by
  have hscan := scan_append_of_not_mem hzero hfits []
  rw [List.append_nil] at hscan
  exact hscan

/-- At the end of a frame there is its command. -/
theorem scan_zero_of_ok (hbody : body ≠ []) (hcommand : commandOf body.toArray = .ok command) :
    scan body.toArray [0] = ⟨0, some command, #[], []⟩ := by
  simp [scan, hbody, hcommand]

/-- A frame without a command is dropped at its end. -/
theorem scan_zero_of_error {e : DecodeError} (hbody : body ≠ [])
    (hcommand : commandOf body.toArray = .error e) :
    scan body.toArray [0] = ⟨1, none, #[], []⟩ := by
  simp [scan, hbody, hcommand]

theorem fetch_of_not_mem (hpackets : ∀ packet ∈ packets, packet ≠ []) (hzero : 0 ∉ packets.flatten)
    (hfits : frame.size + packets.flatten.length ≤ maxFrame) :
    fetch frame packets = ⟨0, none, ⟨(frame.toList ++ packets.flatten).toArray, []⟩, []⟩ := by
  induction packets generalizing frame with
  | nil => simp [fetch]
  | cons packet packets ih =>
    rw [List.flatten_cons] at hzero hfits ⊢
    obtain ⟨hpacket, hrest⟩ := not_or.mp (mt List.mem_append.mpr hzero)
    rw [List.length_append] at hfits
    have hscan := scan_of_not_mem hpacket (show frame.size + packet.length ≤ maxFrame by omega)
    rw [fetch_cons_of_none (hpackets packet List.mem_cons_self) (by rw [hscan]), hscan,
      ih (fun p hp => hpackets p (List.mem_cons_of_mem _ hp)) hrest
        (by rw [List.size_toArray, List.length_append, Array.length_toList]; omega)]
    simp

/-- In whatever way a frame is cut into packets, it comes to what its end comes to. -/
theorem fetch_frame (hpackets : ∀ packet ∈ packets, packet ≠ [])
    (hne : packets ≠ []) (hwhole : frame.toList ++ packets.flatten = body ++ [0])
    (hzero : 0 ∉ body) (hfits : body.length ≤ maxFrame) (hbody : body ≠ []) :
    fetch frame packets = ⟨(scan body.toArray [0]).malformed, (scan body.toArray [0]).command,
      .empty, []⟩ := by
  induction packets generalizing frame with
  | nil => exact absurd rfl hne
  | cons packet packets ih =>
    have hpacket := hpackets packet List.mem_cons_self
    rw [List.flatten_cons] at hwhole
    by_cases hlast : packets = []
    · -- The last packet ends with the zero.
      subst hlast
      rw [List.flatten_nil, List.append_nil] at hwhole
      obtain ⟨front, rfl, hfront⟩ := exists_snoc_of_append hwhole hpacket
      have hscan : scan frame (front ++ [0]) = scan body.toArray [0] := by
        have hfront_zero : 0 ∉ front := fun h => hzero (hfront ▸ List.mem_append_right _ h)
        rw [← hfront, List.length_append, Array.length_toList] at hfits
        rw [scan_append_of_not_mem hfront_zero hfits, hfront]
      cases hcommand : commandOf body.toArray with
      | ok command =>
        rw [scan_zero_of_ok hbody hcommand] at hscan ⊢
        rw [fetch_cons_of_some hpacket (by rw [hscan]), hscan]
        rfl
      | error e =>
        rw [scan_zero_of_error hbody hcommand] at hscan ⊢
        rw [fetch_cons_of_none hpacket (by rw [hscan]), hscan]
        rfl
    · have hrest : packets.flatten ≠ [] := by
        obtain ⟨next, later, rfl⟩ := List.exists_cons_of_ne_nil hlast
        rw [List.flatten_cons]
        exact List.append_ne_nil_of_left_ne_nil
          (hpackets next (List.mem_cons_of_mem _ List.mem_cons_self)) _
      rw [← List.append_assoc] at hwhole
      obtain ⟨front, -, hfront⟩ := exists_snoc_of_append hwhole hrest
      have hscan : scan frame packet = ⟨0, none, (frame.toList ++ packet).toArray, []⟩ := by
        refine scan_of_not_mem (fun h => hzero ?_) ?_
        · rw [← hfront]
          exact List.mem_append_left _ (List.mem_append_right _ h)
        · rw [← hfront, List.length_append, List.length_append, Array.length_toList] at hfits
          omega
      rw [fetch_cons_of_none hpacket (by rw [hscan]), hscan,
        ih (fun p hp => hpackets p (List.mem_cons_of_mem _ hp)) hlast (by simpa using hwhole)]
      simp

/-- In whatever way a frame is cut into packets, its command is found. -/
theorem fetch_whole (hpackets : ∀ packet ∈ packets, packet ≠ [])
    (hne : packets ≠ []) (hwhole : frame.toList ++ packets.flatten = body ++ [0])
    (hzero : 0 ∉ body) (hfits : body.length ≤ maxFrame) (hbody : body ≠ [])
    (hcommand : commandOf body.toArray = .ok command) :
    fetch frame packets = ⟨0, some command, .empty, []⟩ := by
  rw [fetch_frame hpackets hne hwhole hzero hfits hbody, scan_zero_of_ok hbody hcommand]

theorem receive_of_nil (frame : Array UInt8) (packets : List Bytes) :
    receive ⟨frame, []⟩ packets = fetch frame packets := by
  rw [receive_of_none rfl]
  show { fetch frame packets with malformed := 0 + (fetch frame packets).malformed } = _
  rw [Nat.zero_add]

end Receiver

/-- The bytes of a frame are coming in, and the service has done nothing about them yet
    but gather some. -/
structure Coming {σ : Type} [Hardware σ] (s : Service σ) (message : Bytes) (w : Wire σ) : Prop where
  same : w.service.still
    = (s.withInput w.service.receiver w.service.endpoint.packets).still
  packet : w.service.receiver.packet = []
  packets : ∀ packet ∈ w.service.endpoint.packets, packet ≠ []
  whole : w.service.receiver.frame.toList ++ (w.service.endpoint.packets.flatten ++ w.transit)
    = Frame.wrap message
  ahead : w.service.endpoint.packets.flatten ++ w.transit ≠ []

section frame

variable {σ : Type} [Hardware σ] {s s₁ r : Service σ} {w : Wire σ} {command : Command}

open Service (Rested Served)

theorem Coming.completions (h : Coming s (Encode.command command) w) (hs : s.Rested) :
    w.service.device.machine.completions = [] :=
  (congrArg (fun s => s.device.machine.completions) h.same).trans hs.completions

theorem Coming.receive (h : Coming s (Encode.command command) w) :
    w.service.entered.receiver.receive w.service.entered.endpoint.packets
      = Receiver.fetch w.service.receiver.frame w.service.endpoint.packets := by
  rw [← Receiver.receive_of_nil, ← h.packet]
  rfl

/-- An interrupt before the last byte has come in takes in what there is. -/
theorem Coming.interrupt_early (h : Coming s (Encode.command command) w) (hs : s.Rested)
    (hfits : command.Fits .device) (htransit : w.transit ≠ []) :
    ∃ t, w.service.interrupt = .ok t
      ∧ Coming s (Encode.command command) { w with service := t } := by
  let gathered : Receiver :=
    ⟨(w.service.receiver.frame.toList ++ w.service.endpoint.packets.flatten).toArray, []⟩
  have hgot : w.service.entered.receiver.receive w.service.entered.endpoint.packets
      = ⟨0, none, gathered, []⟩ := by
    have hwhole := h.whole
    rw [← List.append_assoc] at hwhole
    obtain ⟨front, -, hfront⟩ := exists_snoc_of_append hwhole htransit
    rw [h.receive]
    refine Receiver.fetch_of_not_mem h.packets (fun hzero => ?_) ?_
    · refine Stuffing.zero_not_mem_stuff (Encode.command command) ?_
      rw [← hfront]
      exact List.mem_append_left _ (List.mem_append_right _ hzero)
    · have hlength := Frame.length_stuff_lt (Frame.wrap?_command hfits)
      rw [← hfront, List.length_append, List.length_append, Array.length_toList] at hlength
      omega
  have hserve : w.service.entered.serveAll = .ok (w.service.entered.withInput gathered []) := by
    refine Service.serveAll_of_none ?_
    unfold Service.receive
    rw [hgot]
    rfl
  refine ⟨w.service.entered.withInput gathered [], ?_, ?_, rfl, nofun, ?_, htransit⟩
  · rw [Service.interrupt_eq, hserve]
    exact congrArg Except.ok (Service.sendCompletions_of_nil (h.completions hs))
  · exact congrArg (Service.withInput · gathered []) h.same
  · rw [← h.whole]
    simp [gathered, Service.withInput]

/-- An interrupt after the last byte has come in takes the command in. -/
theorem Coming.interrupt_last (h : Coming s (Encode.command command) w) (hs : s.Rested)
    (hfits : command.Fits .device) (hserve : s.serve command = .ok s₁) (hr : Served r s₁)
    (htransit : w.transit = []) :
    ∃ t, w.service.interrupt = .ok t ∧ Served r t := by
  have hwhole := h.whole
  have hahead := h.ahead
  rw [htransit, List.append_nil] at hwhole hahead
  have hgot : w.service.entered.receiver.receive w.service.entered.endpoint.packets
      = ⟨0, some command, .empty, []⟩ := by
    rw [h.receive]
    refine Receiver.fetch_whole h.packets (fun hnone => hahead (by rw [hnone]; rfl)) hwhole
      (Stuffing.zero_not_mem_stuff _)
      (Nat.le_of_lt (Frame.length_stuff_lt (Frame.wrap?_command hfits)))
      (Stuffing.stuff_ne_nil _) ?_
    exact Frame.decode_stuff (Reads.command hfits)
  let before := w.service.entered.withInput .empty []
  have hreceive : w.service.entered.receive = (before, some command) := by
    unfold Service.receive
    rw [hgot]
    rfl
  have hbefore : before.still = s.still := by
    have hinput : s.withInput .empty [] = s := by
      rw [← hs.receiver, ← hs.packets]
      rfl
    rw [← hinput]
    exact congrArg (Service.withInput · .empty []) h.same
  -- The command does what it would do at once.
  have hboth := Service.still_serve hbefore command
  rw [hserve] at hboth
  cases hafter : before.serve command with
  | error fault =>
    rw [hafter] at hboth
    cases hboth
  | ok after =>
    rw [hafter] at hboth
    have hstill : after.still = s₁.still := Except.ok.inj hboth
    have hcore : after.device.core = s₁.device.core :=
      congrArg (fun s => s.device.core) hstill
    have hqueue : after.device.machine.completions = [] :=
      (Service.completions_serve hafter).trans (h.completions hs)
    obtain ⟨hreceiver, hpackets⟩ := Service.serve_input hafter
    refine ⟨after, ?_, ⟨?_, fun hbusy => ?_, fun hwait => absurd hqueue hwait⟩, hreceiver, hpackets,
      ?_⟩
    · rw [Service.interrupt_eq, Service.serveAll_of_some hreceive hafter,
        Service.serveAll_of_quiet hreceiver hpackets]
      exact congrArg Except.ok (Service.sendCompletions_of_nil hqueue)
    · rw [hcore]
      exact hr.lone.single
    · intro channel
      rw [hcore]
      exact hr.lone.held (fun hidle => hbusy ((congrArg (fun s => s.device.phase) hstill).trans
        hidle)) channel
    · rw [Service.still_finished hstill]
      exact hr.ends

/-- While bytes are missing the worker has nothing to do. -/
theorem Coming.idle (h : Coming s (Encode.command command) w) (hs : s.Rested) :
    w.service.device.phase = .idle ∧ w.service.device.core.disk.job = none
      ∧ w.service.device.core.control.job = none :=
  ⟨(congrArg (fun s => s.device.phase) h.same).trans hs.phase,
    (congrArg (fun s => s.device.core.disk.job) h.same).trans hs.disk,
    (congrArg (fun s => s.device.core.control.job) h.same).trans hs.control⟩

/-- Some bytes come in as one packet. -/
theorem Coming.arrive {message : Bytes} (h : Coming s message w) {n : Nat} (hn : 0 < n)
    (htransit : w.transit ≠ []) :
    Coming s message {
      service := w.service.withInput w.service.receiver
        (w.service.endpoint.packets ++ [w.transit.take n])
      transit := w.transit.drop n } := by
  have hsplit : (w.service.endpoint.packets ++ [w.transit.take n]).flatten ++ w.transit.drop n
      = w.service.endpoint.packets.flatten ++ w.transit := by
    rw [List.flatten_append, List.flatten_singleton, List.append_assoc, List.take_append_drop]
  refine ⟨?_, h.packet, ?_, ?_, ?_⟩
  · exact congrArg (Service.withInput · w.service.receiver _) h.same
  · intro packet hpacket
    rcases List.mem_append.mp hpacket with hold | hnew
    · exact h.packets packet hold
    · rw [List.mem_singleton.mp hnew]
      intro hempty
      rcases List.take_eq_nil_iff.mp hempty with hzero | hnil
      · exact Nat.ne_of_gt hn hzero
      · exact htransit hnil
  · refine Eq.trans ?_ h.whole
    exact congrArg (w.service.receiver.frame.toList ++ ·) hsplit
  · show (w.service.endpoint.packets ++ [w.transit.take n]).flatten ++ w.transit.drop n ≠ []
    rw [hsplit]
    exact h.ahead

/-! ### Every order of events -/

/-- Bytes of the frame are still to come, or the command was taken in. -/
def OnTheWay (s r : Service σ) (command : Command) (w : Wire σ) : Prop :=
  Coming s (Encode.command command) w ∨ Served r w.service ∧ w.transit = []

theorem OnTheWay.step (h : OnTheWay s r command w) (hs : s.Rested) (hfits : command.Fits .device)
    (hserve : s.serve command = .ok s₁) (hr : Served r s₁) (event : LineEvent) :
    ∃ w', w.step event = .ok w' ∧ OnTheWay s r command w' := by
  rcases h with h | ⟨h, htransit⟩
  · obtain ⟨hphase, hdisk, hcontrol⟩ := h.idle hs
    cases event with
    | arrive others =>
      by_cases htransit : w.transit = []
      · exact ⟨w, if_pos (by rw [htransit]; rfl), .inl h⟩
      · refine ⟨_, if_neg (by simpa using htransit), .inl (h.arrive (Nat.succ_pos _) htransit)⟩
    | interrupt =>
      by_cases htransit : w.transit = []
      · obtain ⟨t, hinterrupt, ht⟩ := h.interrupt_last hs hfits hserve hr htransit
        exact ⟨{ w with service := t }, by simp only [Wire.step, hinterrupt]; rfl,
          .inr ⟨ht, htransit⟩⟩
      · obtain ⟨t, hinterrupt, ht⟩ := h.interrupt_early hs hfits htransit
        exact ⟨{ w with service := t }, by simp only [Wire.step, hinterrupt]; rfl, .inl ht⟩
    | take =>
      refine ⟨w, ?_, .inl h⟩
      simp only [Wire.step, Device.takeJob_of_empty hdisk hcontrol]
      rfl
    | carryOut =>
      refine ⟨w, ?_, .inl h⟩
      simp only [Wire.step, Device.carryOut_of_idle hphase]
      rfl
    | finish =>
      refine ⟨w, ?_, .inl h⟩
      simp only [Wire.step, Device.finish_of_idle hphase]
      rfl
  · cases event with
    | arrive others => exact ⟨w, if_pos (by rw [htransit]; rfl), .inr ⟨h, htransit⟩⟩
    | interrupt =>
      obtain ⟨t, hinterrupt, ht, -⟩ := h.interrupt
      exact ⟨{ w with service := t }, by simp only [Wire.step, hinterrupt]; rfl,
        .inr ⟨ht, htransit⟩⟩
    | take =>
      obtain ⟨hlone, hends⟩ := h.lone.takeJob
      exact ⟨_, rfl, .inr ⟨h.withDevice hlone hends, htransit⟩⟩
    | carryOut =>
      obtain ⟨hlone, hends⟩ := h.lone.carryOut
      exact ⟨_, rfl, .inr ⟨h.withDevice hlone hends, htransit⟩⟩
    | finish =>
      obtain ⟨d, hwrap⟩ := h.wrapUp_ok
      obtain ⟨d', hfinish, hlone, hends⟩ := h.lone.finish hwrap
      exact ⟨{ w with service := w.service.withDevice d' }, by simp only [Wire.step, hfinish]; rfl,
        .inr ⟨h.withDevice hlone hends, htransit⟩⟩

theorem OnTheWay.run (h : OnTheWay s r command w) (hs : s.Rested) (hfits : command.Fits .device)
    (hserve : s.serve command = .ok s₁) (hr : Served r s₁) (events : List LineEvent) :
    ∃ w', w.run events = .ok w' ∧ OnTheWay s r command w' := by
  induction events generalizing w with
  | nil => exact ⟨w, rfl, h⟩
  | cons event events ih =>
    obtain ⟨v, hstep, hv⟩ := h.step hs hfits hserve hr event
    obtain ⟨w', hrun, hw'⟩ := ih hv
    refine ⟨w', ?_, hw'⟩
    unfold Wire.run at hrun ⊢
    rw [List.foldlM_cons, hstep]
    exact hrun

/-- What is left of the frame comes in, and the service comes to rest. -/
theorem OnTheWay.deliver (h : OnTheWay s r command w) (hs : s.Rested) (hfits : command.Fits .device)
    (hserve : s.serve command = .ok s₁) (hr : Served r s₁) :
    ∃ t, w.service.deliver (pieces LoaderEnd.packetSize w.transit) = .ok t
      ∧ t.Rested ∧ t.still = r.still := by
  let given : Service σ := (w.service.withInput w.service.receiver
    (w.service.endpoint.packets ++ pieces LoaderEnd.packetSize w.transit)).raise
  obtain ⟨fuel, hfuel⟩ : ∃ fuel, given.turns = fuel + 4 := by
    refine ⟨4 + 4 * (given.receiver.ahead given.endpoint.packets + given.endpoint.packets.length),
      ?_⟩
    unfold Service.turns
    omega
  show ∃ t, given.settle = .ok t ∧ _
  unfold Service.settle
  rw [hfuel]
  rcases h with h | ⟨h, htransit⟩
  · -- The rest of the frame is at the endpoint, and nothing is on its way any more.
    have hgiven : Coming s (Encode.command command) ⟨given, []⟩ := by
      have hsplit : (w.service.endpoint.packets
            ++ pieces LoaderEnd.packetSize w.transit).flatten ++ []
          = w.service.endpoint.packets.flatten ++ w.transit := by
        rw [List.append_nil, List.flatten_append, flatten_pieces]
      refine ⟨?_, h.packet, ?_, ?_, ?_⟩
      · exact congrArg (Service.withInput · w.service.receiver _) h.same
      · intro packet hpacket
        rcases List.mem_append.mp hpacket with hold | hnew
        · exact h.packets packet hold
        · exact ne_nil_of_mem_pieces hnew
      · exact Eq.trans (congrArg (w.service.receiver.frame.toList ++ ·) hsplit) h.whole
      · show (w.service.endpoint.packets
          ++ pieces LoaderEnd.packetSize w.transit).flatten ++ [] ≠ []
        rw [hsplit]
        exact h.ahead
    obtain ⟨hphase, hdisk, hcontrol⟩ := hgiven.idle hs
    obtain ⟨t, hinterrupt, ht⟩ := hgiven.interrupt_last hs hfits hserve hr rfl
    have hflag : given.device.machine.interrupt = true := rfl
    obtain ⟨t', hsettle, hrested, hstill⟩ := ht.settle fuel
    refine ⟨t', ?_, hrested, hstill⟩
    rw [Service.settleWithin]
    simp only [Service.work, Device.poll_of_empty hphase hdisk hcontrol, bind, Except.bind, pure,
      Except.pure, Bool.false_eq_true, if_false, hflag, if_true, hinterrupt]
    exact hsettle
  · -- Nothing is left of the frame, and the interrupt is called for in vain.
    have hgiven : Served r given := by
      have hpackets : w.service.endpoint.packets ++ pieces LoaderEnd.packetSize w.transit = [] := by
        rw [h.packets, htransit]
        simp [pieces]
      have hsame : given.still = w.service.still := by
        show ((w.service.withInput w.service.receiver (w.service.endpoint.packets
          ++ pieces LoaderEnd.packetSize w.transit)).raise).still = _
        rw [hpackets, ← h.packets]
        rfl
      refine ⟨⟨h.lone.single, h.lone.held, fun hwait => ?_⟩, h.receiver, hpackets, ?_⟩
      · obtain ⟨hidle, hempty, -⟩ := h.lone.waiting hwait
        exact ⟨hidle, hempty, rfl⟩
      · rw [Service.still_finished hsame]
        exact h.ends
    exact hgiven.settle (fuel + 1)

end frame

/-- A command comes to the same in whatever packets its frame comes in, and whatever the
    interrupt and the worker do in between: to what the service comes to when it deals
    with the command at once and is left alone. -/
theorem Service.carry_command {σ : Type} [Hardware σ] {s s₁ r : Service σ} {command : Command}
    (hs : s.Rested) (hfits : command.Fits .device) (hserve : s.serve command = .ok s₁)
    (hr : Served r s₁) (events : List LineEvent) :
    ∃ t, s.carry (Frame.wrap (Encode.command command)) events = .ok t ∧ t.Rested
      ∧ t.still = r.still := by
  have hstart : OnTheWay s r command ⟨s, Frame.wrap (Encode.command command)⟩ := by
    refine .inl ⟨rfl, by rw [hs.receiver]; rfl, ?_, ?_, ?_⟩
    · rw [hs.packets]
      exact nofun
    · rw [hs.receiver, hs.packets]
      rfl
    · rw [hs.packets]
      show Stuffing.stuff (Encode.command command) ++ [0] ≠ []
      exact List.append_ne_nil_of_right_ne_nil _ (List.cons_ne_nil 0 [])
  obtain ⟨w, hrun, hw⟩ := hstart.run hs hfits hserve hr events
  obtain ⟨t, hdeliver, hrested, hstill⟩ := hw.deliver hs hfits hserve hr
  refine ⟨t, ?_, hrested, hstill⟩
  unfold carry
  rw [hrun]
  exact hdeliver

/-! ### A command and its answer -/

/-- An endpoint that loses nothing: it may take bytes bit by bit, but it does not fail. -/
def Endpoint.Lossless (e : Endpoint) : Prop := .failed ∉ e.script

theorem Endpoint.Lossless.sendWith {e : Endpoint} {bytes : Bytes} {script : List WriteResult}
    (h : .failed ∉ script) :
    (e.sendWith bytes script).sent = e.sent ++ bytes ∧ (e.sendWith bytes script).Lossless := by
  induction script generalizing e bytes with
  | nil => exact ⟨rfl, List.not_mem_nil⟩
  | cons result script ih =>
    obtain ⟨hresult, hscript⟩ := not_or.mp (mt List.mem_cons.mpr h)
    unfold Endpoint.sendWith
    by_cases hempty : bytes.isEmpty = true
    · rw [if_pos hempty, List.isEmpty_iff.mp hempty, List.append_nil]
      exact ⟨rfl, h⟩
    · rw [if_neg hempty]
      cases result with
      | takes n =>
        refine ⟨(ih hscript).1.trans ?_, (ih hscript).2⟩
        rw [List.append_assoc, List.take_append_drop]
      | blocked => exact ih hscript
      | failed => exact absurd rfl hresult

theorem Endpoint.Lossless.send {e : Endpoint} {response : Response} (h : e.Lossless)
    (hfits : response.Fits .device) :
    (e.send response).sent = e.sent ++ Frame.wrap (Encode.response response)
      ∧ (e.send response).Lossless := by
  unfold Endpoint.send
  rw [Frame.wrap?_response hfits]
  exact Lossless.sendWith h

namespace Service

variable {σ : Type} [Hardware σ] {s : Service σ} {command : Command} {core : Core}
  {response : Response}

/-- A service that waits for a command. -/
structure Ready (s : Service σ) : Prop extends s.Rested where
  sent : s.endpoint.sent = []
  lossless : s.endpoint.Lossless

/-- A command came to a service, which has sent an answer and is at rest again, with a
    device like this one. -/
structure Replied (s t : Service σ) (response : Response) (d : Device (Board σ)) : Prop where
  ready : t.collected.Ready
  sent : t.endpoint.sent = Frame.wrap (Encode.response response)
  core : t.device.core = d.core
  lastWriter : t.device.lastWriter = d.lastWriter
  chip : t.chip = d.machine.chip
  token : t.nextToken = s.nextToken + 1

omit [Hardware σ] in
theorem sendCompletions_singleton (h : s.device.machine.completions = [response]) :
    s.sendCompletions = (s.withCompletions []).send response := by
  unfold sendCompletions
  rw [h]
  rfl

omit [Hardware σ] in
/-- What a service sends when it comes to rest is the answer. -/
theorem Ready.replied {t r : Service σ} (h : s.Ready) (hfits : response.Fits .device)
    (hrested : t.Rested) (hstill : t.still = r.still)
    (hendpoint : r.endpoint = s.endpoint.send response) (htoken : r.nextToken = s.nextToken + 1) :
    s.Replied t response r.device := by
  obtain ⟨hsent, hlossless⟩ := h.lossless.send hfits
  rw [← hendpoint] at hsent hlossless
  have hscript : t.endpoint.script = r.endpoint.script :=
    congrArg (fun s => s.endpoint.script) hstill
  refine ⟨⟨⟨hrested.phase, hrested.disk, hrested.control, hrested.completions, hrested.receiver,
    hrested.packets⟩, rfl, ?_⟩, ?_, congrArg (fun s => s.device.core) hstill,
    congrArg (fun s => s.device.lastWriter) hstill, congrArg (fun s => s.chip) hstill,
    (congrArg (fun s => s.nextToken) hstill).trans htoken⟩
  · show .failed ∉ t.endpoint.script
    rw [hscript]
    exact hlossless
  · rw [h.sent, List.nil_append] at hsent
    exact (congrArg (fun s => s.endpoint.sent) hstill).trans hsent

omit [Hardware σ] in
theorem Ready.noneWaits (h : s.Ready) : s.device.NoneWaits :=
  Device.noneWaits_iff.mpr ⟨h.disk, h.control⟩

omit [Hardware σ] in
/-- A command that is answered at once leaves no job. -/
theorem Ready.noneWaits_of_answer {outcome : Core.Outcome} (h : s.Ready)
    (hhandle : s.device.core.handle command s.nextToken = .ok (core, outcome))
    (hanswer : outcome.answer? s.nextToken = some response) (channel : Channel) :
    (core.slot channel).job = none := by
  cases Core.handles_of_handle hhandle with
  | status _ hcore =>
    rw [hcore]
    exact h.noneWaits channel
  | acked _ _ _ hjobs => exact (hjobs channel).trans (h.noneWaits channel)
  | queued => cases hanswer

omit [Hardware σ] in
/-- A command leaves one job at most. -/
theorem Ready.single_of_handle {outcome : Core.Outcome} (h : s.Ready)
    (hhandle : s.device.core.handle command s.nextToken = .ok (core, outcome))
    (channel other : Channel) (hne : channel ≠ other) (hjob : (core.slot channel).job ≠ none) :
    (core.slot other).job = none := by
  cases Core.handles_of_handle hhandle with
  | status _ hcore =>
    rw [hcore]
    exact h.noneWaits other
  | acked _ _ _ hjobs => exact (hjobs other).trans (h.noneWaits other)
  | queued _ _ _ _ hothers =>
    -- The job is in the slot that the command is for.
    have hchannel : channel = command.channel := by
      by_contra hapart
      exact hjob ((hothers channel hapart).trans (h.noneWaits channel))
    refine (hothers other fun hsame => ?_).trans (h.noneWaits other)
    exact hne (hchannel.trans hsame.symm)

/-- A command that is answered at once. -/
theorem Ready.carry_answered {outcome : Core.Outcome} (h : s.Ready)
    (hcommand : command.Fits .device)
    (hhandle : s.device.core.handle command s.nextToken = .ok (core, outcome))
    (hanswer : outcome.answer? s.nextToken = some response) (hresponse : response.Fits .device)
    (events : List LineEvent) :
    ∃ t, s.carry (Frame.wrap (Encode.command command)) events = .ok t
      ∧ s.Replied t response (s.served core outcome).device := by
  let r := s.served core outcome
  obtain ⟨hcore, hphase, hcompletions, htoken, hendpoint⟩ := Attended.served_answered core hanswer
  have hidle : r.device.phase = .idle := hphase.trans h.phase
  have hqueue : r.device.machine.completions = [] := hcompletions.trans h.completions
  have hnone : r.device.NoneWaits := by
    intro channel
    rw [hcore]
    exact h.noneWaits_of_answer hhandle hanswer channel
  have hends : r.finished = .ok r := by
    unfold finished
    rw [Device.wrapUp_of_empty hidle hnone]
    exact congrArg Except.ok (sendCompletions_of_nil hqueue)
  obtain ⟨hreceiver, hpackets⟩ := serve_input (serve_of_handle hhandle)
  have hserved : Served r r := by
    refine ⟨hnone.lone fun hwait => absurd hqueue hwait, hreceiver.trans h.receiver,
      hpackets.trans h.packets, ?_⟩
    rw [hends]
    rfl
  obtain ⟨t, hcarry, hrested, hstill⟩ :=
    carry_command h.toRested hcommand (serve_of_handle hhandle) hserved events
  exact ⟨t, hcarry, h.replied hresponse hrested hstill hendpoint htoken⟩

/-- A command that is answered when its job is done. -/
theorem Ready.carry_pending {d : Device (Board σ)} (h : s.Ready) (hcommand : command.Fits .device)
    (hhandle : s.device.core.handle command s.nextToken = .ok (core, .pending))
    (hresponse : response.Fits .device) (hwrap : { s.device with core }.wrapUp = .ok d)
    (hwaiting : d.machine.completions = [response]) (events : List LineEvent) :
    ∃ t, s.carry (Frame.wrap (Encode.command command)) events = .ok t
      ∧ s.Replied t response d := by
  let r := ((s.served core .pending).withDevice d).sendCompletions
  have hserved : Served r (s.served core .pending) := by
    refine ⟨⟨h.single_of_handle hhandle, fun hbusy => absurd h.phase hbusy,
      fun hwait => absurd h.completions hwait⟩, h.receiver, h.packets, ?_⟩
    unfold finished
    rw [show (s.served core .pending).device.wrapUp = .ok d from hwrap]
    rfl
  obtain ⟨t, hcarry, hrested, hstill⟩ :=
    carry_command h.toRested hcommand (serve_of_handle hhandle) hserved events
  have hr : r = (((s.served core .pending).withDevice d).withCompletions []).send response :=
    sendCompletions_singleton hwaiting
  rw [hr] at hstill
  obtain ⟨hready, hsent, hcore, hwriter, hchip, htoken⟩ :=
    h.replied hresponse hrested hstill rfl rfl
  exact ⟨t, hcarry, hready, hsent, hcore, hwriter, hchip, htoken⟩

end Service

end Loader

end Reflash
