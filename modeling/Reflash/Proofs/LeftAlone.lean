import Reflash.Proofs.Attended
import Reflash.Proofs.CompleteDelivery
/-! # A service that is left alone

  A service that took a command in has one job at most, and then one answer. It comes to
  the same whatever happens next: the worker may do its next step, or the interrupt may
  come and send the answer if there is one. `Service.finished` is what it comes to, and
  `Served` says that this is settled. When it is left alone it gets there and is at rest.

  All this is so but for the call for the interrupt and for how often the endpoint was
  polled. Nothing depends on those, and `Service.still` leaves them out.
-/

namespace Reflash

/-! ### One job at a time -/

namespace Loader

namespace Board

variable {σ : Type} [Hardware σ] {b : Board σ}

/-- An answer calls for the interrupt, even if it is lost. -/
theorem interrupt_complete (response : Response) :
    (Machine.perform b (.complete response)).interrupt = true := by
  show (b.complete response).interrupt = true
  unfold complete
  split <;> rfl

end Board

end Loader

namespace Device

open Loader

variable {σ : Type} [Hardware σ] (d : Device (Board σ)) (flag : Bool)

/-- What becomes of a device whose worker deals with the job at hand. -/
def wrapUp : Except Fault (Device (Board σ)) := d.takeJob.carryOut.finish

/-- The device with the interrupt called for or not. -/
def flagged : Device (Board σ) := { d with machine := { d.machine with interrupt := flag } }

/-! The worker does not look at the call for the interrupt. -/

omit [Hardware σ] in
theorem takeJob_flagged : (d.flagged flag).takeJob = d.takeJob.flagged flag := by
  obtain ⟨⟨config, ⟨waiting, fence⟩, ⟨waiting', fence'⟩, upload, rebooting⟩, phase, writer, b⟩ := d
  cases phase <;> cases waiting <;> cases waiting' <;> rfl

theorem carryOut_flagged : (d.flagged flag).carryOut = d.carryOut.flagged flag := by
  cases hphase : d.phase with
  | idle => simp only [carryOut, flagged, hphase]
  | done job => simp only [carryOut, flagged, hphase]
  | holding origin job =>
    have hquiet : ∀ call ∈ (job.plan d.core.config.map d.core.rebooting d.lastWriter).calls,
        call.isComplete = false := fun call hcall => (Job.mem_plan_calls hcall).2
    have hmachine : Machine.performAll { d.machine with interrupt := flag }
          (job.plan d.core.config.map d.core.rebooting d.lastWriter).calls
        = { Machine.performAll d.machine
              (job.plan d.core.config.map d.core.rebooting d.lastWriter).calls with
            interrupt := flag } := by
      rw [Board.performAll_quiet hquiet, Board.performAll_quiet hquiet]
    simp only [carryOut, flagged, hphase]
    split
    · rfl
    · simp only [execute, hmachine, Job.carriedOut]
      rfl

theorem finish_flagged :
    (d.flagged flag).finish.map (flagged · false) = d.finish.map (flagged · false) := by
  cases hphase : d.phase with
  | idle => simp only [finish, flagged, hphase, Except.map]
  | holding origin job => simp only [finish, flagged, hphase, Except.map]
  | done job =>
    simp only [finish, flagged, hphase]
    cases hlistener : job.listener with
    | none => simp only [notify, hlistener, Except.map]
    | some listener =>
      -- Whoever is told, the answer calls for the interrupt in any case.
      have hcomplete : ∀ b : Board σ,
          Machine.perform { b with interrupt := flag } (.complete job.response)
            = Machine.perform b (.complete job.response) := fun b => rfl
      cases listener with
      | host => simp only [notify, hlistener, report, hcomplete]
      | upload =>
        simp only [notify, hlistener]
        cases d.core.upload.credit job d.core.config with
        | error fault => rfl
        | ok credited =>
          obtain ⟨v, request⟩ := credited
          cases request <;> rfl

theorem wrapUp_flagged :
    (d.flagged flag).wrapUp.map (flagged · false) = d.wrapUp.map (flagged · false) := by
  unfold wrapUp
  rw [takeJob_flagged, carryOut_flagged, finish_flagged]

/-- No job waits in a slot. -/
def NoneWaits : Prop := ∀ channel, (d.core.slot channel).job = none

/-- There is one job at most, and an answer waits only when there is none. -/
structure Lone : Prop where
  single : ∀ channel other, channel ≠ other → (d.core.slot channel).job ≠ none →
    (d.core.slot other).job = none
  held : d.phase ≠ .idle → d.NoneWaits
  waiting : d.machine.completions ≠ [] →
    d.phase = .idle ∧ d.NoneWaits ∧ d.machine.interrupt = true

variable {d} {d' : Device (Board σ)}

omit [Hardware σ] in
theorem noneWaits_iff :
    d.NoneWaits ↔ d.core.disk.job = none ∧ d.core.control.job = none := by
  constructor
  · exact fun h => ⟨h .disk, h .control⟩
  · intro h channel
    cases channel with
    | disk => exact h.1
    | control => exact h.2

omit [Hardware σ] in
/-- When no job waits there is one at most. -/
theorem NoneWaits.lone (h : d.NoneWaits)
    (hwaiting : d.machine.completions ≠ [] → d.phase = .idle ∧ d.machine.interrupt = true) :
    d.Lone :=
  ⟨fun _ other _ _ => h other, fun _ => h,
    fun hwait => ⟨(hwaiting hwait).1, h, (hwaiting hwait).2⟩⟩

theorem wrapUp_of_empty (hphase : d.phase = .idle) (h : d.NoneWaits) : d.wrapUp = .ok d := by
  unfold wrapUp
  rw [takeJob_of_empty (h .disk) (h .control), carryOut_of_idle hphase, finish_of_idle hphase]

/-- A worker that tells of a job changes nothing about the jobs that wait. -/
theorem notify_keeps {job : Job} (h : d.notify job = .ok d') :
    d'.phase = d.phase ∧ d'.core.disk = d.core.disk ∧ d'.core.control = d.core.control
      ∧ (d'.machine.completions = d.machine.completions ∨ d'.machine.interrupt = true) := by
  cases hlistener : job.listener with
  | none =>
    simp only [notify, hlistener] at h
    cases h
    exact ⟨rfl, rfl, rfl, .inl rfl⟩
  | some listener =>
    cases listener with
    | host =>
      simp only [notify, hlistener] at h
      cases h
      exact ⟨rfl, rfl, rfl, .inr (Board.interrupt_complete _)⟩
    | upload =>
      cases hcredit : d.core.upload.credit job d.core.config with
      | error fault =>
        simp only [notify, hlistener, hcredit] at h
        cases h
      | ok credited =>
        rw [notify_upload hlistener hcredit] at h
        cases h
        exact ⟨rfl, rfl, rfl, .inr (Board.interrupt_complete _)⟩

/-! Whatever the worker does next, the device comes to the same. -/

theorem Lone.takeJob (h : d.Lone) : d.takeJob.Lone ∧ d.takeJob.wrapUp = d.wrapUp := by
  rcases d.takeJob_cases with hsame | ⟨origin, job, hphase, hjob, -, htake⟩
  · rw [hsame]
    exact ⟨h, rfl⟩
  · have hwaits : (d.core.slot origin).job ≠ none := by
      rw [hjob]
      exact nofun
    -- The slot that the job came from is empty, and the other one was so before.
    have hnone : d.takeJob.NoneWaits := by
      rw [htake]
      intro channel
      by_cases hsame : origin = channel
      · subst hsame
        cases origin <;> rfl
      · have hother := h.single origin channel hsame hwaits
        cases origin <;> cases channel <;> first | exact absurd rfl hsame | exact hother
    have hbusy : d.takeJob.phase ≠ .idle := by
      rw [htake]
      exact Phase.noConfusion
    refine ⟨hnone.lone fun hwait => ?_, ?_⟩
    · rw [htake] at hwait
      exact absurd ((h.waiting hwait).2.1 origin) hwaits
    · unfold wrapUp
      rw [takeJob_of_busy hbusy]

theorem Lone.carryOut (h : d.Lone) : d.carryOut.Lone ∧ d.carryOut.wrapUp = d.wrapUp := by
  rcases carryOut_cases d with hsame | ⟨origin, job, done, hphase, -, -, hdone, hslots, -, hqueue⟩
  · rw [hsame]
    exact ⟨h, rfl⟩
  · have hbusy : d.phase ≠ .idle := by
      rw [hphase]
      exact Phase.noConfusion
    have hbusy' : d.carryOut.phase ≠ .idle := by
      rw [hdone]
      exact Phase.noConfusion
    have hnone : d.carryOut.NoneWaits := fun channel =>
      (hslots channel).trans (h.held hbusy channel)
    refine ⟨hnone.lone fun hwait => ?_, ?_⟩
    · rw [hqueue] at hwait
      exact absurd (h.waiting hwait).1 hbusy
    · unfold wrapUp
      rw [takeJob_of_busy hbusy', takeJob_of_busy hbusy, carryOut_of_done hdone]

omit [Hardware σ] in
/-- A worker that takes no job has none to take. -/
theorem takeJob_of_idle (h : d.takeJob.phase = .idle) :
    d.phase = .idle ∧ d.NoneWaits ∧ d.takeJob = d := by
  have hsame : d.takeJob = d := by
    rcases d.takeJob_cases with hsame | ⟨origin, job, -, -, -, htake⟩
    · exact hsame
    · rw [htake] at h
      cases h
  have hphase : d.phase = .idle := hsame ▸ h
  have hdisk : d.core.disk.job = none := by
    cases hdisk : d.core.disk.job with
    | none => rfl
    | some job =>
      rw [takeJob_of_disk hphase hdisk] at h
      cases h
  have hcontrol : d.core.control.job = none := by
    cases hcontrol : d.core.control.job with
    | none => rfl
    | some job =>
      rw [takeJob_of_control hphase hdisk hcontrol] at h
      cases h
  exact ⟨hphase, noneWaits_iff.mpr ⟨hdisk, hcontrol⟩, hsame⟩

/-- When the worker has told of its job, nothing is left but the answer. -/
theorem Lone.told (h : d.Lone) {job : Job} (hphase : d.phase = .done job)
    (hfinish : d.finish = .ok d') : d'.Lone ∧ d'.phase = .idle ∧ d'.NoneWaits := by
  have hbusy : d.phase ≠ .idle := by
    rw [hphase]
    exact Phase.noConfusion
  have hnotify : { d with phase := .idle }.notify job = .ok d' := by
    simpa only [Device.finish, hphase] using hfinish
  obtain ⟨hidle, hdisk, hcontrol, hflag⟩ := notify_keeps hnotify
  obtain ⟨hdisk', hcontrol'⟩ := noneWaits_iff.mp (h.held hbusy)
  have hnone : d'.NoneWaits :=
    noneWaits_iff.mpr ⟨by rw [hdisk]; exact hdisk', by rw [hcontrol]; exact hcontrol'⟩
  refine ⟨hnone.lone fun hwait => ⟨hidle, hflag.resolve_left fun hsame => ?_⟩, hidle, hnone⟩
  rw [hsame] at hwait
  exact hbusy (h.waiting hwait).1

theorem Lone.finish (h : d.Lone) {e : Device (Board σ)} (hends : d.wrapUp = .ok e) :
    ∃ d', d.finish = .ok d' ∧ d'.Lone ∧ d'.wrapUp = d.wrapUp := by
  cases hphase : d.phase with
  | idle => exact ⟨d, finish_of_idle hphase, h, rfl⟩
  | holding origin job => exact ⟨d, finish_of_holding hphase, h, rfl⟩
  | done job =>
    have hfinish : d.wrapUp = d.finish := by
      unfold wrapUp
      rw [takeJob_of_busy (by rw [hphase]; exact Phase.noConfusion), carryOut_of_done hphase]
    obtain ⟨hlone, hidle, hnone⟩ := h.told hphase (hfinish ▸ hends)
    refine ⟨e, hfinish ▸ hends, hlone, ?_⟩
    rw [wrapUp_of_empty hidle hnone, hends]

/-- When the worker has dealt with the job at hand, there is none any more. -/
theorem Lone.wrapUp (h : d.Lone) (hends : d.wrapUp = .ok d') :
    d'.Lone ∧ d'.phase = .idle ∧ d'.NoneWaits := by
  have hlone := h.takeJob.1.carryOut.1
  have hfinish : d.takeJob.carryOut.finish = .ok d' := hends
  cases hphase : d.takeJob.carryOut.phase with
  | done job => exact hlone.told hphase hfinish
  | holding origin job => exact absurd hphase (carryOut_ne_holding _ origin job)
  | idle =>
    rcases carryOut_cases d.takeJob with hsame | ⟨_, _, _, -, -, -, hdone, -⟩
    · rw [hsame] at hphase
      obtain ⟨hidle, hnone, htake⟩ := takeJob_of_idle hphase
      rw [hsame, htake] at hfinish
      rw [finish_of_idle hidle] at hfinish
      cases hfinish
      exact ⟨h, hidle, hnone⟩
    · rw [hdone] at hphase
      cases hphase

end Device

namespace Loader

open Device (flagged wrapUp_flagged)

/-! ### A service that is left alone -/

namespace Endpoint

/-- How often an endpoint was polled does not matter for what it sends. -/
theorem sendWith_polls (e : Endpoint) (n : Nat) (bytes : Bytes) (script : List WriteResult) :
    { sendWith { e with polls := n } bytes script with polls := 0 }
      = { e.sendWith bytes script with polls := 0 } := by
  induction script generalizing e n bytes with
  | nil => rfl
  | cons result script ih =>
    unfold sendWith
    by_cases hempty : bytes.isEmpty = true
    · rw [if_pos hempty, if_pos hempty]
    · rw [if_neg hempty, if_neg hempty]
      cases result with
      | takes n' => exact ih { e with sent := e.sent ++ bytes.take n' } n _
      | blocked => exact (ih e (n + 1) bytes).trans (ih e (e.polls + 1) bytes).symm
      | failed => rfl

theorem send_polls (e : Endpoint) (n : Nat) (response : Response) :
    { send { e with polls := n } response with polls := 0 }
      = { e.send response with polls := 0 } := by
  unfold send
  split
  · exact sendWith_polls e n _ _
  · rfl

end Endpoint

namespace Service

variable {σ : Type} [Hardware σ] {s t : Service σ}

/-- The service with its device in another state. -/
def withDevice (s : Service σ) (device : Device (Board σ)) : Service σ := { s with device }

/-- The service but for the call for the interrupt and the count of polls. -/
def still (s : Service σ) : Service σ :=
  { s with
    device := s.device.flagged false
    endpoint := { s.endpoint with polls := 0 } }

/-- What comes of a service when its worker deals with the job at hand and the answers
    are sent. -/
def finished (s : Service σ) : Except Fault (Service σ) :=
  s.device.wrapUp.map fun device => (s.withDevice device).sendCompletions

omit [Hardware σ] in
theorem still_send (h : s.still = t.still) (response : Response) :
    (s.send response).still = (t.send response).still := by
  have hsend : ∀ s : Service σ, (s.send response).still = (s.still.send response).still := by
    intro s
    exact congrArg (fun e => { s.still with endpoint := e })
      (Endpoint.send_polls s.endpoint 0 response).symm
  rw [hsend s, hsend t, h]

omit [Hardware σ] in
theorem still_sendCompletions (h : s.still = t.still) :
    s.sendCompletions.still = t.sendCompletions.still := by
  have hqueue : s.device.machine.completions = t.device.machine.completions :=
    congrArg (fun s => s.device.machine.completions) h
  have hcleared : (s.withCompletions []).still = (t.withCompletions []).still :=
    congrArg (withCompletions · []) h
  unfold sendCompletions
  rw [hqueue]
  show (t.device.machine.completions.foldl send (s.withCompletions [])).still
    = (t.device.machine.completions.foldl send (t.withCompletions [])).still
  -- Answer by answer the two services send the same.
  generalize t.device.machine.completions = waiting
  generalize s.withCompletions [] = s' at hcleared
  generalize t.withCompletions [] = t' at hcleared
  induction waiting generalizing s' t' with
  | nil => exact hcleared
  | cons response waiting ih => exact ih _ _ (still_send hcleared response)

omit [Hardware σ] in
theorem sendCompletions_of_nil (h : s.device.machine.completions = []) : s.sendCompletions = s := by
  have hcleared : s.withCompletions [] = s := by
    rw [← h]
    rfl
  unfold sendCompletions
  rw [h]
  exact hcleared

/-- What a service comes to depends neither on the call for the interrupt nor on the
    polls. -/
theorem still_finished (h : s.still = t.still) :
    s.finished.map still = t.finished.map still := by
  have hdevice : s.device.flagged false = t.device.flagged false := congrArg Service.device h
  have hwrap : s.device.wrapUp.map (flagged · false) = t.device.wrapUp.map (flagged · false) := by
    rw [← wrapUp_flagged s.device false, hdevice, wrapUp_flagged t.device false]
  unfold finished
  cases hs : s.device.wrapUp with
  | error fault =>
    cases ht : t.device.wrapUp with
    | error fault' =>
      rw [hs, ht] at hwrap
      cases hwrap
      rfl
    | ok e =>
      rw [hs, ht] at hwrap
      cases hwrap
  | ok d =>
    cases ht : t.device.wrapUp with
    | error fault =>
      rw [hs, ht] at hwrap
      cases hwrap
    | ok e =>
      rw [hs, ht] at hwrap
      have hsame : (s.withDevice d).still = (t.withDevice e).still := by
        have hd : d.flagged false = e.flagged false := Except.ok.inj hwrap
        show { s.still with device := d.flagged false } = { t.still with device := e.flagged false }
        rw [hd, h]
      exact congrArg Except.ok (still_sendCompletions hsame)

/-- The service at the start of an interrupt. -/
def entered (s : Service σ) : Service σ :=
  { s with
    endpoint := s.endpoint.poll
    device := s.device.flagged false }

theorem interrupt_eq (s : Service σ) : s.interrupt = s.entered.serveAll.map sendCompletions := by
  show (do return (← s.entered.serveAll).sendCompletions) = _
  cases s.entered.serveAll <;> rfl

/-- When nothing has come in there is no command. -/
theorem receive_of_quiet (hreceiver : s.receiver = .empty) (hpackets : s.endpoint.packets = []) :
    s.receive = (s, none) := by
  have hinput : s.withInput .empty [] = s := by
    rw [← hreceiver, ← hpackets]
    rfl
  have hgot : s.receiver.receive s.endpoint.packets = ⟨0, none, .empty, []⟩ := by
    rw [hreceiver, hpackets]
    rfl
  unfold receive
  rw [hgot]
  exact congrArg (·, none) hinput

theorem serveAll_of_quiet (hreceiver : s.receiver = .empty) (hpackets : s.endpoint.packets = []) :
    s.serveAll = .ok s := serveAll_of_none (receive_of_quiet hreceiver hpackets)

omit [Hardware σ] in
/-- Sending the answers changes nothing but the endpoint. -/
theorem sendCompletions_keeps (s : Service σ) :
    s.sendCompletions.device = { s.device with
        machine := { s.device.machine with completions := [] } }
      ∧ s.sendCompletions.receiver = s.receiver
      ∧ s.sendCompletions.endpoint.packets = s.endpoint.packets := by
  have hsend : ∀ (waiting : List Response) (t : Service σ),
      (waiting.foldl send t).device = t.device ∧ (waiting.foldl send t).receiver = t.receiver
        ∧ (waiting.foldl send t).endpoint.packets = t.endpoint.packets := by
    intro waiting
    induction waiting with
    | nil => exact fun t => ⟨rfl, rfl, rfl⟩
    | cons response waiting ih =>
      intro t
      obtain ⟨hdevice, hreceiver, hpackets⟩ := ih (t.send response)
      have hinput : t.send response = (t.send response).withInput t.receiver t.endpoint.packets :=
        send_withInput t.receiver t.endpoint.packets t response
      exact ⟨hdevice, hreceiver, hpackets.trans (congrArg (fun t => t.endpoint.packets) hinput)⟩
  exact hsend _ (s.withCompletions [])

/-- A command does the same whether the interrupt is called for or not. -/
theorem still_serve (h : s.still = t.still) (command : Command) :
    (s.serve command).map still = (t.serve command).map still := by
  have hcore : s.device.core = t.device.core := congrArg (fun s => s.device.core) h
  have htoken : s.nextToken = t.nextToken := congrArg (fun s => s.nextToken) h
  obtain ⟨core, outcome, hs, -⟩ := s.device.core.handle_handles command s.nextToken
  have ht : t.device.core.handle command t.nextToken = .ok (core, outcome) := by
    rw [← hcore, ← htoken, hs]
  let after (s : Service σ) : Service σ :=
    { s.onCore fun _ => core with nextToken := s.nextToken + 1 }
  have hafter : (after s).still = (after t).still := congrArg after h
  rw [serve_of_handle hs, serve_of_handle ht]
  refine congrArg Except.ok ?_
  cases outcome with
  | pending => exact hafter
  | reply response => exact still_send hafter response
  | reboot request =>
    have hsend : ((after s).send (.ack s.nextToken .ok)).still
        = ((after t).send (.ack t.nextToken .ok)).still :=
      (still_send hafter _).trans (by rw [htoken])
    exact congrArg (fun s : Service σ => s.onChip (Hardware.armReset · request)) hsend

theorem completions_serve {command : Command} (h : s.serve command = .ok t) :
    t.device.machine.completions = s.device.machine.completions := by
  obtain ⟨core, outcome, hs, -⟩ := s.device.core.handle_handles command s.nextToken
  rw [serve_of_handle hs] at h
  cases h
  cases outcome <;> rfl

/-- A service in which nothing goes on. -/
structure Rested (s : Service σ) : Prop where
  phase : s.device.phase = .idle
  disk : s.device.core.disk.job = none
  control : s.device.core.control.job = none
  completions : s.device.machine.completions = []
  receiver : s.receiver = .empty
  packets : s.endpoint.packets = []

/-- A command was taken in, and nothing comes behind it. What becomes of the service is
    settled. -/
structure Served (r t : Service σ) : Prop where
  lone : t.device.Lone
  receiver : t.receiver = .empty
  packets : t.endpoint.packets = []
  ends : t.finished.map still = .ok r.still

variable {r : Service σ}

theorem Served.withDevice (h : Served r t) {d : Device (Board σ)} (hlone : d.Lone)
    (hends : d.wrapUp = t.device.wrapUp) : Served r (t.withDevice d) := by
  refine ⟨hlone, h.receiver, h.packets, ?_⟩
  have hends' := h.ends
  unfold finished at hends' ⊢
  rw [← hends] at hends'
  exact hends'

theorem Served.wrapUp_ok (h : Served r t) : ∃ d, t.device.wrapUp = .ok d := by
  have hends := h.ends
  unfold finished at hends
  cases hwrap : t.device.wrapUp with
  | ok d => exact ⟨d, rfl⟩
  | error fault =>
    rw [hwrap] at hends
    cases hends

/-- An interrupt sends the answer if there is one, and that was to come in any case. -/
theorem Served.interrupt (h : Served r t) :
    ∃ t', t.interrupt = .ok t' ∧ Served r t' ∧ t'.device.machine.completions = []
      ∧ t'.device.machine.interrupt = false ∧ t'.device.core = t.device.core
      ∧ t'.device.phase = t.device.phase := by
  have hinterrupt : t.interrupt = .ok t.entered.sendCompletions := by
    rw [interrupt_eq, serveAll_of_quiet (s := t.entered) h.receiver h.packets]
    rfl
  have hstill : t.entered.still = t.still := rfl
  obtain ⟨hdevice, hreceiver, hpackets⟩ := t.entered.sendCompletions_keeps
  have hlone : t.entered.sendCompletions.device.Lone := by
    rw [hdevice]
    exact ⟨h.lone.single, h.lone.held, fun hwait => absurd rfl hwait⟩
  refine ⟨t.entered.sendCompletions, hinterrupt, ⟨hlone, hreceiver.trans h.receiver,
    hpackets.trans h.packets, ?_⟩, ?_, ?_, ?_, ?_⟩
  · by_cases hnone : t.device.machine.completions = []
    · have hsame : t.entered.sendCompletions = t.entered := sendCompletions_of_nil hnone
      rw [hsame, still_finished hstill]
      exact h.ends
    · -- With an answer waiting there is no job, so that sending it is all there is to do.
      obtain ⟨hidle, hempty, -⟩ := h.lone.waiting hnone
      have hbefore : t.finished = .ok t.sendCompletions := by
        unfold finished
        rw [Device.wrapUp_of_empty hidle hempty]
        rfl
      have hsent : t.entered.sendCompletions.device.machine.completions = [] := by rw [hdevice]
      have hafter : t.entered.sendCompletions.finished = .ok t.entered.sendCompletions := by
        unfold finished
        rw [Device.wrapUp_of_empty]
        · exact congrArg Except.ok (sendCompletions_of_nil hsent)
        · rw [hdevice]
          exact hidle
        · rw [hdevice]
          exact hempty
      have hends := h.ends
      rw [hbefore] at hends
      rw [hafter, ← hends]
      exact congrArg Except.ok (still_sendCompletions hstill)
  all_goals rw [hdevice]
  all_goals rfl

/-! ### Coming to rest -/

/-- Once the worker is idle, the answer is sent if there is one, and that is all. -/
theorem Served.settle_idle (h : Served r t) (hidle : t.device.phase = .idle)
    (hempty : t.device.NoneWaits) (fuel : Nat) :
    ∃ t', settleWithin (fuel + 2) t = .ok t' ∧ t'.Rested ∧ t'.still = r.still := by
  have hstop : ∀ {t : Service σ}, Served r t → t.device.phase = .idle →
      t.device.NoneWaits → t.device.machine.interrupt = false → ∀ fuel,
      settleWithin (fuel + 1) t = .ok t ∧ t.Rested ∧ t.still = r.still := by
    intro t h hidle hempty hflag fuel
    have hnone : t.device.machine.completions = [] := by
      by_contra hwait
      rw [(h.lone.waiting hwait).2.2] at hflag
      cases hflag
    have hends : t.finished = .ok t := by
      unfold finished
      rw [Device.wrapUp_of_empty hidle hempty]
      exact congrArg Except.ok (sendCompletions_of_nil hnone)
    refine ⟨?_, ⟨hidle, hempty .disk, hempty .control, hnone, h.receiver, h.packets⟩, ?_⟩
    · simp only [settleWithin, work, Device.poll_of_empty hidle (hempty .disk) (hempty .control),
        bind, Except.bind, pure, Except.pure, Bool.false_eq_true, if_false, hflag]
    · have hsame := h.ends
      rw [hends] at hsame
      exact Except.ok.inj hsame
  cases hflag : t.device.machine.interrupt with
  | false => exact ⟨t, hstop h hidle hempty hflag (fuel + 1)⟩
  | true =>
    obtain ⟨t', hinterrupt, h', -, hflag', hcore, hphase⟩ := h.interrupt
    obtain ⟨hsettle, hrested, hstill⟩ := hstop h' (hphase.trans hidle)
      (fun channel => by rw [hcore]; exact hempty channel) hflag' fuel
    refine ⟨t', ?_, hrested, hstill⟩
    rw [settleWithin]
    simp only [work, Device.poll_of_empty hidle (hempty .disk) (hempty .control), bind,
      Except.bind, pure, Except.pure, Bool.false_eq_true, if_false, hflag, if_true, hinterrupt]
    exact hsettle

/-- A service that took a command in comes to rest when it is left alone. -/
theorem Served.settle (h : Served r t) (fuel : Nat) :
    ∃ t', settleWithin (fuel + 3) t = .ok t' ∧ t'.Rested ∧ t'.still = r.still := by
  by_cases hidle : t.device.takeJob.phase = .idle
  · obtain ⟨hidle, hempty, -⟩ := Device.takeJob_of_idle hidle
    exact h.settle_idle hidle hempty (fuel + 1)
  · obtain ⟨d, hwrap⟩ := h.wrapUp_ok
    obtain ⟨hlone, hphase, hempty⟩ := h.lone.wrapUp hwrap
    have h' := h.withDevice hlone
      ((Device.wrapUp_of_empty hphase hempty).trans hwrap.symm)
    obtain ⟨t', hsettle, hrested, hstill⟩ := h'.settle_idle hphase hempty fuel
    have hpoll : t.device.poll = .ok (d, true) := by
      rw [Device.poll_of_busy hidle]
      exact congrArg (Except.map _) hwrap
    refine ⟨t', ?_, hrested, hstill⟩
    rw [settleWithin]
    simp only [work, hpoll, bind, Except.bind, pure, Except.pure, if_true]
    exact hsettle

end Service

end Loader

end Reflash
