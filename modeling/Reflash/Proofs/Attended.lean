import Mathlib.Data.List.Count
import Mathlib.Logic.Function.Iterate
import Reflash.Proofs.Attribution
import Reflash.Proofs.RebootLatch
import Reflash.Proofs.RoundTrip
import Reflash.Loader.Service
/-! # An interrupt between any two steps of the worker

  The interrupt takes in commands and sends answers, and it may come between any two
  steps of the worker. `Attended` cuts an interrupt into the things that it does one
  after the other, so that a run can be looked at in the middle of one, and
  `run_interrupt` says that together they are the interrupt. A log goes with a run: it
  says which commands were taken in, what was answered, and which jobs were lost
  because a later command needed the slot.

  `View.Step` says what any action can do to the jobs and answers, and `Ready.step`
  that every action does one of these things. There are three jobs at most between two
  interrupts, one in each slot and one with the worker, and the interrupt takes all
  answers away. So three answers are the most that ever wait, and there is always room
  for one more.
-/

namespace Reflash

/-! ### What becomes of a command -/

/-- The slot that the job of a command goes through. -/
def Command.channel : Command → Channel
  | .writeSector .. => .disk
  | _ => .control

/-- The token in an answer, if it bears one. -/
def Response.token? (response : Response) : Option UInt32 := response.completion.map Prod.fst

theorem Job.token?_response (job : Job) : job.response.token? = some job.token := by
  unfold response Response.readBack
  dsimp only
  split <;> rfl

/-- The job for a block bears the token that the block came with. -/
theorem Upload.Accepts.token {u v : Upload} {block : Block} {token : UInt32} {config : Config}
    {fenced : Bool} {job : Option Job} (h : Accepts u block token config fenced v job) :
    ∀ j ∈ job, j.token = token := by
  intro j hj
  cases h with
  | turnedAway => cases hj
  | dropped => cases hj
  | taken =>
    cases hj
    rfl

namespace Core

/-- What the host is told of a command at once. -/
def Outcome.answer? (token : UInt32) : Outcome → Option Response
  | .reply response => some response
  | .pending => none
  | .reboot _ => some (.ack token .ok)

/-- What can become of a command. -/
inductive Handles (c : Core) (command : Command) (token : UInt32) (after : Core) : Outcome → Prop
  where
  /-- The host is told how the device is. -/
  | status : command = .getStatus → after = c →
      Handles c command token after (.reply c.statusResponse)
  /-- The command is acknowledged. -/
  | acked {outcome : Outcome} (status : Status) : command ≠ .getStatus →
      outcome.answer? token = some (.ack token status) →
      (∀ channel, (after.slot channel).job = (c.slot channel).job) →
      Handles c command token after outcome
  /-- There is a job for the command. -/
  | queued {job : Job} : command ≠ .getStatus → job.token = token → job.listener.isSome = true →
      (after.slot command.channel).job = some job →
      (∀ channel, channel ≠ command.channel → (after.slot channel).job = (c.slot channel).job) →
      Handles c command token after .pending

/-- The job for a command bears its token. -/
theorem token_of_jobFor {c : Core} {command : Command} {token : UInt32} {job : Job}
    (h : c.jobFor command token = .ok job) : job.token = token := by
  unfold jobFor at h
  cases heffects : c.effectsFor command token with
  | error status =>
    rw [heffects] at h
    cases h
  | ok j =>
    rw [heffects] at h
    cases h
    show j.token = token
    cases command <;>
      simp only [effectsFor, Job.write, Job.read, reduceCtorEq] at heffects <;>
      (try split at heffects) <;> cases heffects <;> rfl

theorem handle_sector {c : Core} {token lba : UInt32} {data : Bytes} :
    ∃ after outcome, c.handle (.writeSector lba data) token = .ok (after, outcome)
      ∧ c.Handles (.writeSector lba data) token after outcome := by
  have hother : Command.writeSector lba data ≠ .getStatus := Command.noConfusion
  by_cases hsize : data.toArray.size = 512
  · rcases c.writeSector_cases token ⟨data.toArray, hsize⟩ with
      ⟨e, -, hwrite, -⟩ | ⟨block, v, job, -, hcases, hwrite, -⟩
    · refine ⟨c, .reply (.ack token .ok), ?_, .acked .ok hother rfl fun _ => rfl⟩
      simp only [handle, dif_pos hsize, hwrite]
      rfl
    · cases job with
      | none =>
        refine ⟨c.afterBlock v none, .reply (.ack token .ok), ?_,
          .acked .ok hother rfl fun channel => by cases channel <;> rfl⟩
        simp only [handle, dif_pos hsize, hwrite]
        rfl
      | some job =>
        have htoken : job.forUpload.token = token := hcases.token job rfl
        refine ⟨c.afterBlock v (some job), .pending, ?_,
          .queued hother htoken rfl rfl fun channel hchannel => ?_⟩
        · simp only [handle, dif_pos hsize, hwrite]
          rfl
        · cases channel with
          | disk => exact absurd rfl hchannel
          | control => rfl
  · refine ⟨c, .reply (.ack token .invalidTransferLength), ?_, .acked _ hother rfl fun _ => rfl⟩
    simp only [handle, dif_neg hsize]

/-- Every command is dealt with in one of these ways. -/
theorem handle_handles (c : Core) (command : Command) (token : UInt32) :
    ∃ after outcome, c.handle command token = .ok (after, outcome)
      ∧ c.Handles command token after outcome := by
  cases hjob : c.jobFor command token with
  | ok job =>
    have hother : command ≠ .getStatus := by
      rintro rfl
      cases hjob
    have hchannel : command.channel = .control := by
      cases command with
      | writeSector => cases hjob
      | _ => rfl
    obtain ⟨hlistener, -, -⟩ := jobFor_eq_ok hjob
    refine ⟨_, _, handle_of_jobFor hjob,
      .queued hother (token_of_jobFor hjob) (by rw [hlistener]; rfl) ?_ fun channel hne => ?_⟩
    · rw [hchannel]
      rfl
    · cases channel with
      | disk => rfl
      | control => exact absurd hchannel.symm hne
  | error status =>
    cases command with
    | writeSector lba data => exact handle_sector
    | getStatus => exact ⟨c, _, rfl, .status rfl rfl⟩
    | reboot request =>
      exact ⟨c.latchReboot, _, rfl,
        .acked .ok Command.noConfusion rfl fun channel => by cases channel <;> rfl⟩
    | _ =>
      refine ⟨c, .reply (.ack token status), ?_, .acked status Command.noConfusion rfl fun _ => rfl⟩
      simp only [handle, hjob]

theorem handles_of_handle {c after : Core} {command : Command} {token : UInt32} {outcome : Outcome}
    (h : c.handle command token = .ok (after, outcome)) :
    c.Handles command token after outcome := by
  obtain ⟨_, _, hsame, hhandles⟩ := c.handle_handles command token
  cases h.symm.trans hsame
  exact hhandles

end Core

/-- A command keeps the books of the upload in order. -/
theorem Device.sound_of_handle {σ : Type} [Machine σ] {d : Device σ} {after : Core}
    {command : Command} {token : UInt32} {outcome : Core.Outcome}
    (h : d.core.handle command token = .ok (after, outcome)) (hs : d.core.upload.Sound) :
    after.upload.Sound := by
  obtain ⟨core, _, hhandle, hstep⟩ := d.command_step token command
  rw [h] at hhandle
  cases hhandle
  exact hstep.sound hs

/-! ### What the worker does -/

namespace Loader

section worker

variable {σ : Type} [Hardware σ]

/-- Calls that tell the host nothing are calls to the chip. -/
theorem Board.performAll_quiet {b : Board σ} {calls : List Call}
    (h : ∀ call ∈ calls, call.isComplete = false) :
    Machine.performAll b calls = { b with chip := Machine.performAll b.chip calls } := by
  induction calls generalizing b with
  | nil => rfl
  | cons call calls ih =>
    have hcall : Machine.perform b call = { b with chip := Machine.perform b.chip call } := by
      cases call with
      | complete => exact absurd (h _ List.mem_cons_self) Bool.noConfusion
      | _ => rfl
    show Machine.performAll (Machine.perform b call) calls = _
    rw [ih fun c hc => h c (List.mem_cons_of_mem _ hc), hcall]
    rfl

/-- With room for it, an answer goes to the end of the queue. -/
theorem Board.completions_complete {b : Board σ} (response : Response)
    (h : b.completions.length < completionSlots) :
    (Machine.perform b (.complete response)).completions = b.completions ++ [response] := by
  show (b.complete response).completions = _
  rw [Board.complete, if_pos h]

variable (d : Device (Board σ))

/-- The worker is done with the job that it held. What waits stays where it is. -/
theorem carryOut_of_holding {origin : Channel} {job : Job}
    (hphase : d.phase = .holding origin job) :
    ∃ done : Job, done.token = job.token ∧ done.listener = job.listener
      ∧ d.carryOut.phase = .done done
      ∧ (∀ channel, (d.carryOut.core.slot channel).job = (d.core.slot channel).job)
      ∧ d.carryOut.core.upload = d.core.upload
      ∧ d.carryOut.machine.completions = d.machine.completions := by
  cases hfence : (d.core.slot origin).isFenced with
  | true =>
    rw [Device.carryOut_of_fenced hphase hfence]
    exact ⟨{ job with result := some .disabled }, rfl, rfl, rfl, fun _ => rfl, rfl, rfl⟩
  | false =>
    rw [Device.carryOut_of_open hphase hfence]
    refine ⟨d.doneJob job, ?_, Watched.listener_execute d job, rfl, ?_, rfl, ?_⟩
    · simp only [Device.doneJob, Device.execute, Job.carriedOut]
      split <;> rfl
    · intro channel
      cases channel with
      | disk => exact Watched.disk_execute d job
      | control => rfl
    · have hquiet : ∀ call ∈ (job.plan d.core.config.map d.core.rebooting d.lastWriter).calls,
          call.isComplete = false := fun call hcall => (Job.mem_plan_calls hcall).2
      show (Machine.performAll d.machine _).completions = d.machine.completions
      rw [Board.performAll_quiet hquiet]

/-- The worker either holds no job, or is done with the one that it held. -/
theorem carryOut_cases :
    d.carryOut = d ∨ ∃ origin job done, d.phase = .holding origin job ∧ done.token = job.token
      ∧ done.listener = job.listener ∧ d.carryOut.phase = .done done
      ∧ (∀ channel, (d.carryOut.core.slot channel).job = (d.core.slot channel).job)
      ∧ d.carryOut.core.upload = d.core.upload
      ∧ d.carryOut.machine.completions = d.machine.completions := by
  cases hphase : d.phase with
  | idle => exact .inl (Device.carryOut_of_idle hphase)
  | done job => exact .inl (Device.carryOut_of_done hphase)
  | holding origin job =>
    obtain ⟨done, hdone⟩ := carryOut_of_holding d hphase
    exact .inr ⟨origin, job, done, rfl, hdone⟩

/-- The worker leaves the answer for the interrupt. -/
theorem finish_of_done {job : Job} (hs : d.core.upload.Sound) (hphase : d.phase = .done job)
    (hlistener : job.listener.isSome = true)
    (hroom : d.machine.completions.length < completionSlots) :
    ∃ d', d.finish = .ok d' ∧ d'.phase = .idle
      ∧ (∀ channel, (d'.core.slot channel).job = (d.core.slot channel).job)
      ∧ d'.core.upload.Sound
      ∧ d'.machine.completions = d.machine.completions ++ [job.response] := by
  obtain ⟨d', hfinish, hstep⟩ := d.finish_step hs
  have hsound := hstep.sound hs
  refine ⟨d', hfinish, ?_⟩
  obtain ⟨listener, hsome⟩ := Option.isSome_iff_exists.mp hlistener
  cases listener with
  | host =>
    rw [Device.finish_of_host hphase hsome] at hfinish
    cases hfinish
    exact ⟨rfl, fun channel => by cases channel <;> rfl, hsound,
      Board.completions_complete _ hroom⟩
  | upload =>
    obtain ⟨v, request, hcredit⟩ := Upload.credit_ok hs job d.core.config
    rw [Device.finish_of_credit hphase hsome hcredit] at hfinish
    cases hfinish
    refine ⟨rfl, fun channel => by cases channel <;> rfl, hsound, ?_⟩
    cases request with
    | none => exact Board.completions_complete _ hroom
    | some request => exact Board.completions_complete _ hroom

/-- The worker either has nothing to tell, or leaves the answer for the interrupt. -/
theorem finish_cases (hs : d.core.upload.Sound)
    (hlistener : ∀ job, d.phase = .done job → job.listener.isSome = true)
    (hroom : d.machine.completions.length < completionSlots) :
    d.finish = .ok d ∨ ∃ job d', d.phase = .done job ∧ d.finish = .ok d' ∧ d'.phase = .idle
      ∧ (∀ channel, (d'.core.slot channel).job = (d.core.slot channel).job)
      ∧ d'.core.upload.Sound
      ∧ d'.machine.completions = d.machine.completions ++ [job.response] := by
  cases hphase : d.phase with
  | idle => exact .inl (Device.finish_of_idle hphase)
  | holding origin job => exact .inl (Device.finish_of_holding hphase)
  | done job =>
    obtain ⟨d', hd'⟩ := finish_of_done d hs hphase (hlistener job hphase) hroom
    exact .inr ⟨job, d', rfl, hd'⟩

end worker

/-! ### An interrupt, one thing after the other -/

/-- What happened between the host and the device. -/
inductive Exchange where
  /-- A command was taken in, and got a token. -/
  | asked (token : UInt32) (command : Command)
  | answered (response : Response)
  /-- The job of a command was lost to that of another one. -/
  | displaced (token winner : UInt32)

/-- What the interrupt is doing. -/
inductive Duty where
  /-- It is not running. -/
  | away
  | receiving
  | sending
deriving DecidableEq

/-- What happens next. -/
inductive Action where
  /-- Packets arrive at the endpoint. -/
  | arrive (packets : List Bytes)
  /-- The interrupt begins. -/
  | interrupt
  /-- The interrupt, if it is running, does its next thing: it looks for a command, sends
      an answer, or comes to its end. -/
  | attend
  /-- The worker takes a job, unless the interrupt is running. -/
  | take
  | carryOut
  | finish

namespace Service

variable {σ : Type} [Hardware σ]

/-- The service with something else at its endpoint and in its receiver. -/
def withInput (s : Service σ) (r : Receiver) (packets : List Bytes) : Service σ :=
  { s with receiver := r, endpoint := { s.endpoint with packets } }

/-- The service with other answers that wait. -/
def withCompletions (s : Service σ) (completions : List Response) : Service σ :=
  { s with device := { s.device with machine := { s.device.machine with completions } } }

/-- Look for one command. -/
def receive (s : Service σ) : Service σ × Option Command :=
  let got := s.receiver.receive s.endpoint.packets
  ((s.onChip (Hardware.warn · .malformedFrame)^[got.malformed]).withInput got.receiver got.packets,
    got.command)

/-- What is put down about a command, the latest first. -/
def exchanges (s : Service σ) (command : Command) : List Exchange :=
  match s.device.core.handle command s.nextToken with
  | .error _ => []
  | .ok (_, outcome) =>
    (match outcome.answer? s.nextToken with
      | some response => [.answered response]
      | none => (s.device.core.slot command.channel).job.toList.map fun lost =>
          .displaced lost.token s.nextToken)
    ++ [.asked s.nextToken command]

/-- The service when a command was dealt with. -/
def served (s : Service σ) (core : Core) (outcome : Core.Outcome) : Service σ :=
  let after := { s.onCore fun _ => core with nextToken := s.nextToken + 1 }
  match outcome with
  | .reply response => after.send response
  | .pending => after
  | .reboot request => (after.send (.ack s.nextToken .ok)).onChip (Hardware.armReset · request)

theorem serve_of_handle {s : Service σ} {command : Command} {core : Core} {outcome : Core.Outcome}
    (h : s.device.core.handle command s.nextToken = .ok (core, outcome)) :
    s.serve command = .ok (s.served core outcome) := by
  simp only [serve, h, bind, Except.bind]
  cases outcome <;> rfl

end Service

/-- A service, what its interrupt is doing, and what happened so far, the latest
    first. -/
structure Attended (σ : Type) where
  service : Service σ
  duty : Duty
  log : List Exchange

namespace Attended

variable {σ : Type} [Hardware σ]

/-- A service that has seen nothing. -/
def fresh (chip : σ) (upload : Upload) : Attended σ := ⟨.fresh chip upload, .away, []⟩

/-- The interrupt does its next thing. -/
def attend (w : Attended σ) : Except Fault (Attended σ) :=
  match w.duty with
  | .away => .ok w
  | .receiving =>
    match w.service.receive with
    | (s, none) => .ok { w with service := s, duty := .sending }
    | (s, some command) => do
      let after ← s.serve command
      return { w with service := after, log := s.exchanges command ++ w.log }
  | .sending =>
    match w.service.device.machine.completions with
    | [] => .ok { w with duty := .away }
    | response :: rest =>
      .ok { w with
        service := (w.service.withCompletions rest).send response
        log := .answered response :: w.log }

/-- The worker does something, unless the interrupt is running. -/
def work (w : Attended σ) (f : Device (Board σ) → Except Fault (Device (Board σ))) :
    Except Fault (Attended σ) :=
  if w.duty = .away then do
    let device ← f w.service.device
    return { w with service := { w.service with device } }
  else .ok w

/-- What comes of an action. -/
def step (w : Attended σ) : Action → Except Fault (Attended σ)
  | .arrive packets =>
    .ok { w with
      service := w.service.withInput w.service.receiver (w.service.endpoint.packets ++ packets) }
  | .interrupt =>
    if w.duty = .away then
      .ok { w with
        service := { w.service with
          endpoint := w.service.endpoint.poll
          device := { w.service.device with
            machine := { w.service.device.machine with interrupt := false } } }
        duty := .receiving }
    else .ok w
  | .attend => w.attend
  | .take => w.work fun d => .ok d.takeJob
  | .carryOut => w.work fun d => .ok d.carryOut
  | .finish => w.work Device.finish

/-- What comes of several actions. -/
def run (w : Attended σ) (actions : List Action) : Except Fault (Attended σ) :=
  actions.foldlM step w

theorem run_cons {w v : Attended σ} {a : Action} (actions : List Action) (h : w.step a = .ok v) :
    w.run (a :: actions) = v.run actions := by
  simp only [run, List.foldlM_cons, h]
  rfl

theorem run_append {w v : Attended σ} {actions later : List Action} (h : w.run actions = .ok v) :
    w.run (actions ++ later) = v.run later := by
  unfold run at h ⊢
  rw [List.foldlM_append, h]
  rfl

end Attended

/-! ### The interrupt as a whole -/

namespace Service

variable {σ : Type} [Hardware σ] (r : Receiver) (packets : List Bytes)

/-! Dealing with commands leaves alone what is at the endpoint. -/

theorem sendWith_packets (e : Endpoint) (bytes : Bytes) (script : List WriteResult) :
    Endpoint.sendWith { e with packets } bytes script
      = { e.sendWith bytes script with packets } := by
  induction script generalizing e bytes with
  | nil => rfl
  | cons result script ih =>
    unfold Endpoint.sendWith
    by_cases hempty : bytes.isEmpty = true
    · rw [if_pos hempty, if_pos hempty]
    · rw [if_neg hempty, if_neg hempty]
      cases result with
      | takes n => exact ih { e with sent := e.sent ++ bytes.take n } _
      | blocked => exact ih e.poll _
      | failed => rfl

omit [Hardware σ] in
theorem send_withInput (s : Service σ) (response : Response) :
    (s.withInput r packets).send response = (s.send response).withInput r packets := by
  have hsend : Endpoint.send { s.endpoint with packets } response
      = { s.endpoint.send response with packets } := by
    unfold Endpoint.send
    split
    · exact sendWith_packets packets s.endpoint _ _
    · rfl
  simp only [send, withInput, hsend]

theorem served_withInput (s : Service σ) (core : Core) (outcome : Core.Outcome) :
    (s.withInput r packets).served core outcome = (s.served core outcome).withInput r packets := by
  let after := { s.onCore fun _ => core with nextToken := s.nextToken + 1 }
  cases outcome with
  | reply response => exact send_withInput r packets after response
  | pending => rfl
  | reboot request =>
    exact congrArg (Service.onChip · (Hardware.armReset · request))
      (send_withInput r packets after _)

theorem serve_withInput (s : Service σ) (command : Command) :
    (s.withInput r packets).serve command
      = (s.serve command).map fun s => s.withInput r packets := by
  obtain ⟨core, outcome, hhandle, -⟩ := s.device.core.handle_handles command s.nextToken
  have hhandle' : (s.withInput r packets).device.core.handle command
      (s.withInput r packets).nextToken = .ok (core, outcome) := hhandle
  rw [serve_of_handle hhandle, serve_of_handle hhandle', served_withInput]
  rfl

theorem serveEvent_withInput (s : Service σ) (event : Receiver.Event) :
    (s.withInput r packets).serveEvent event
      = (s.serveEvent event).map fun s => s.withInput r packets := by
  cases event with
  | malformed => rfl
  | command c => exact serve_withInput r packets s c

theorem serveEvents_withInput (s : Service σ) (events : List Receiver.Event) :
    events.foldlM serveEvent (s.withInput r packets)
      = (events.foldlM serveEvent s).map fun s => s.withInput r packets := by
  induction events generalizing s with
  | nil => rfl
  | cons event events ih =>
    rw [List.foldlM_cons, List.foldlM_cons, serveEvent_withInput]
    cases s.serveEvent event with
    | error fault => rfl
    | ok s => exact ih s

/-- Frames that are no commands are put on record. -/
theorem serveEvents_malformed (s : Service σ) (n : Nat) :
    (List.replicate n .malformed).foldlM serveEvent s
      = .ok (s.onChip (Hardware.warn · .malformedFrame)^[n]) := by
  induction n generalizing s with
  | zero => rfl
  | succ n ih =>
    rw [List.replicate_succ, List.foldlM_cons]
    exact ih _

/-- Taking in all commands is looking for one, dealing with it, and going on. -/
theorem serveAll_of_none {s s' : Service σ} (h : s.receive = (s', none)) : s.serveAll = .ok s' := by
  obtain ⟨rfl, hnone⟩ := Prod.mk.inj h
  have hdrain : s.receiver.drain s.endpoint.packets
      = ⟨List.replicate (s.receiver.receive s.endpoint.packets).malformed .malformed,
        (s.receiver.receive s.endpoint.packets).receiver,
        (s.receiver.receive s.endpoint.packets).packets⟩ := by
    rw [Receiver.drain]
    split
    · rfl
    · rename_i heq
      rw [hnone] at heq
      cases heq
  unfold serveAll
  rw [hdrain]
  show (List.replicate _ .malformed).foldlM serveEvent (s.withInput _ _) = _
  rw [serveEvents_withInput, serveEvents_malformed]
  rfl

theorem serveAll_of_some {s s' after : Service σ} {command : Command}
    (h : s.receive = (s', some command)) (hserve : s'.serve command = .ok after) :
    s.serveAll = after.serveAll := by
  obtain ⟨rfl, hsome⟩ := Prod.mk.inj h
  let got := s.receiver.receive s.endpoint.packets
  let more := got.receiver.drain got.packets
  have hdrain : s.receiver.drain s.endpoint.packets
      = { more with events := List.replicate got.malformed .malformed
            ++ .command command :: more.events } := by
    rw [Receiver.drain]
    split
    · rename_i heq
      rw [hsome] at heq
      cases heq
    · rename_i heq
      rw [hsome] at heq
      cases heq
      rfl
  -- What the receiver has to tell is the same, whether the command is dealt with or not.
  let before := s.onChip (Hardware.warn · .malformedFrame)^[got.malformed]
  obtain ⟨core, outcome, hhandle, -⟩ := before.device.core.handle_handles command before.nextToken
  have hbefore := serve_of_handle hhandle
  have hserved : after = (before.served core outcome).withInput got.receiver got.packets := by
    have hboth := (serve_withInput got.receiver got.packets before command).symm.trans hserve
    rw [hbefore] at hboth
    exact (Except.ok.inj hboth).symm
  have hafter : after.serveAll
      = more.events.foldlM serveEvent
        ((before.served core outcome).withInput more.receiver more.packets) := by
    have hinput : after.receiver = got.receiver ∧ after.endpoint.packets = got.packets := by
      rw [hserved]
      exact ⟨rfl, rfl⟩
    unfold serveAll
    rw [hinput.1, hinput.2, hserved]
    rfl
  unfold serveAll at hafter ⊢
  rw [hdrain, hafter]
  show (_ ++ _ :: _).foldlM serveEvent (s.withInput more.receiver more.packets) = _
  rw [serveEvents_withInput, serveEvents_withInput, List.foldlM_append, serveEvents_malformed]
  show ((before.serve command >>= fun s => more.events.foldlM serveEvent s).map _) = _
  rw [hbefore]
  rfl

/-- Dealing with a command leaves alone what is at the endpoint. -/
theorem serve_input {s after : Service σ} {command : Command} (h : s.serve command = .ok after) :
    after.receiver = s.receiver ∧ after.endpoint.packets = s.endpoint.packets := by
  have hsame := (serve_withInput s.receiver s.endpoint.packets s command).symm.trans h
  rw [h] at hsame
  rw [← Except.ok.inj hsame]
  exact ⟨rfl, rfl⟩

end Service

namespace Attended

variable {σ : Type} [Hardware σ]

/-- The interrupt comes to deal with all commands. -/
theorem run_receiving {w : Attended σ} {s : Service σ} (hduty : w.duty = .receiving)
    (h : w.service.serveAll = .ok s) :
    ∃ n w', w.run (List.replicate n .attend) = .ok w' ∧ w'.service = s ∧ w'.duty = .sending := by
  -- Each command uses up bytes.
  induction hahead : w.service.receiver.ahead w.service.endpoint.packets using
    Nat.strong_induction_on generalizing w with
  | _ ahead ih =>
    cases hreceive : w.service.receive with
    | mk s' command =>
      cases command with
      | none =>
        rw [Service.serveAll_of_none hreceive] at h
        cases h
        let after : Attended σ := { w with service := s, duty := .sending }
        have hstep : w.step .attend = .ok after := by
          simp only [step, attend, hduty, hreceive, after]
        exact ⟨1, after, run_cons [] hstep, rfl, rfl⟩
      | some command =>
        obtain ⟨core, outcome, hhandle, -⟩ := s'.device.core.handle_handles command s'.nextToken
        have hserve := Service.serve_of_handle hhandle
        let after : Attended σ :=
          ⟨s'.served core outcome, .receiving, s'.exchanges command ++ w.log⟩
        have hstep : w.step .attend = .ok after := by
          simp only [step, attend, hduty, hreceive, hserve]
          rfl
        rw [Service.serveAll_of_some hreceive hserve] at h
        have hless : after.service.receiver.ahead after.service.endpoint.packets < ahead := by
          obtain ⟨hreceiver, hpackets⟩ := Service.serve_input hserve
          obtain ⟨rfl, hcommand⟩ := Prod.mk.inj hreceive
          show (Service.served _ core outcome).receiver.ahead
            (Service.served _ core outcome).endpoint.packets < _
          rw [hreceiver, hpackets, ← hahead]
          exact Receiver.receive_ahead hcommand
        obtain ⟨n, w', hrun, hservice, hsending⟩ := ih _ hless (w := after) rfl h rfl
        refine ⟨n + 1, w', ?_, hservice, hsending⟩
        rw [List.replicate_succ, run_cons _ hstep]
        exact hrun

/-- The interrupt comes to send all answers that wait. -/
theorem run_sending {w : Attended σ} (hduty : w.duty = .sending) :
    ∃ n w', w.run (List.replicate n .attend) = .ok w'
      ∧ w'.service = w.service.sendCompletions ∧ w'.duty = .away := by
  induction hwaiting : w.service.device.machine.completions generalizing w with
  | nil =>
    have hstep : w.step .attend = .ok { w with duty := .away } := by
      simp only [step, attend, hduty, hwaiting]
    refine ⟨1, _, run_cons [] hstep, ?_, rfl⟩
    show w.service = w.service.device.machine.completions.foldl Service.send
      (w.service.withCompletions [])
    rw [hwaiting]
    exact congrArg w.service.withCompletions hwaiting
  | cons response rest ih =>
    let after : Attended σ :=
      ⟨(w.service.withCompletions rest).send response, .sending, .answered response :: w.log⟩
    have hstep : w.step .attend = .ok after := by
      simp only [step, attend, hduty, hwaiting, after]
    obtain ⟨n, w', hrun, hservice, haway⟩ := ih (w := after) rfl rfl
    refine ⟨n + 1, w', ?_, ?_, haway⟩
    · rw [List.replicate_succ, run_cons _ hstep]
      exact hrun
    · rw [hservice]
      show rest.foldl Service.send _ = w.service.device.machine.completions.foldl Service.send
        (w.service.withCompletions [])
      rw [hwaiting]
      rfl

/-- An interrupt that does one thing after the other is the interrupt. -/
theorem run_interrupt {w : Attended σ} {s : Service σ} (hduty : w.duty = .away)
    (h : w.service.interrupt = .ok s) :
    ∃ n w', w.run (.interrupt :: List.replicate n .attend) = .ok w' ∧ w'.service = s
      ∧ w'.duty = .away := by
  obtain ⟨after, hstep, hreceiving, hafter⟩ : ∃ after, w.step .interrupt = .ok after
      ∧ after.duty = .receiving
      ∧ w.service.interrupt = after.service.serveAll.map Service.sendCompletions := by
    let entered : Service σ := { w.service with
      endpoint := w.service.endpoint.poll
      device := { w.service.device with
        machine := { w.service.device.machine with interrupt := false } } }
    refine ⟨{ w with service := entered, duty := .receiving }, if_pos hduty, rfl, ?_⟩
    show (do return (← entered.serveAll).sendCompletions) = entered.serveAll.map _
    cases entered.serveAll <;> rfl
  rw [hafter] at h
  cases hserve : after.service.serveAll with
  | error fault =>
    rw [hserve] at h
    cases h
  | ok s' =>
    rw [hserve] at h
    cases h
    obtain ⟨n, v, hrun, hservice, hsending⟩ := run_receiving hreceiving hserve
    obtain ⟨m, w', hrun', hservice', haway⟩ := run_sending hsending
    refine ⟨n + m, w', ?_, ?_, haway⟩
    · rw [run_cons _ hstep, List.replicate_add, run_append hrun]
      exact hrun'
    · rw [hservice', hservice]

end Attended

/-! ### What a step can do -/

/-- What the answers depend on. -/
@[ext]
structure View where
  /-- The job that waits in a slot. -/
  slot : Channel → Option Job
  /-- The job that the worker has. -/
  working : Option Job
  completions : List Response
  nextToken : UInt32
  sent : Bytes
  log : List Exchange

namespace View

/-- What a step can do to it. -/
inductive Step (v : View) : View → Prop where
  | same : Step v v
  /-- The host is told how the device is. -/
  | status {upload : UploadStatus} {fence : Option AccessMode} {rebooting : Bool} :
      Step v { v with
        nextToken := v.nextToken + 1
        sent := v.sent ++ Frame.wrap (Encode.response (.status upload fence rebooting))
        log :=
          .answered (.status upload fence rebooting) :: .asked v.nextToken .getStatus :: v.log }
  /-- A command is acknowledged. -/
  | acked {command : Command} {status : Status} : command ≠ .getStatus →
      Step v { v with
        nextToken := v.nextToken + 1
        sent := v.sent ++ Frame.wrap (Encode.response (.ack v.nextToken status))
        log := .answered (.ack v.nextToken status) :: .asked v.nextToken command :: v.log }
  /-- A job is left for a command. -/
  | queued {command : Command} {job : Job} : command ≠ .getStatus → job.token = v.nextToken →
      Step v { v with
        slot := Function.update v.slot command.channel (some job)
        nextToken := v.nextToken + 1
        log := ((v.slot command.channel).toList.map fun lost =>
          .displaced lost.token v.nextToken) ++ .asked v.nextToken command :: v.log }
  /-- An answer that waited is sent. -/
  | sent {response : Response} {rest : List Response} {token : UInt32} :
      v.completions = response :: rest → response.token? = some token →
      Step v { v with
        completions := rest
        sent := v.sent ++ Frame.wrap (Encode.response response)
        log := .answered response :: v.log }
  | taken {channel : Channel} {job : Job} : v.working = none → v.slot channel = some job →
      Step v { v with slot := Function.update v.slot channel none, working := some job }
  | carriedOut {job done : Job} : v.working = some job → done.token = job.token →
      Step v { v with working := some done }
  | told {job : Job} : v.working = some job →
      Step v { v with working := none, completions := v.completions ++ [job.response] }

end View

/-- The part of an attended service that the answers depend on. -/
def Attended.view {σ : Type} (w : Attended σ) : View :=
  { slot := fun channel => (w.service.device.core.slot channel).job
    working := w.service.device.phase.job?
    completions := w.service.device.machine.completions
    nextToken := w.service.nextToken
    sent := w.service.endpoint.sent
    log := w.log }

/-- An endpoint that takes all it is given gets the frame of an answer. -/
theorem Endpoint.send_eq {e : Endpoint} {response : Response} (hscript : e.script = [])
    (hfits : response.Fits .device) :
    e.send response = { e with
      sent := e.sent ++ Frame.wrap (Encode.response response), script := [] } := by
  unfold send
  rw [Frame.wrap?_response hfits, hscript]
  rfl

namespace Attended

variable {σ : Type} [Hardware σ] {w : Attended σ}

/-- What keeps a service going: there is room for one more answer, and the host is told
    of every job. -/
structure Ready (w : Attended σ) : Prop where
  sound : w.service.device.core.upload.Sound
  script : w.service.endpoint.script = []
  waiting : ∀ channel job, w.view.slot channel = some job → job.listener.isSome = true
  working : ∀ job, w.view.working = some job → job.listener.isSome = true
  completions : ∀ response ∈ w.view.completions, ∃ job : Job, response = job.response
  room : w.view.completions.length + w.view.working.toList.length ≤ 3
  /-- Between two interrupts the jobs that wait count as well. -/
  roomForAll : w.duty = .away → w.view.completions.length + w.view.working.toList.length
    + (w.view.slot .disk).toList.length + (w.view.slot .control).toList.length ≤ 3

omit [Hardware σ] in
theorem Ready.length_completions_lt (hw : w.Ready) :
    w.service.device.machine.completions.length < completionSlots := by
  have hroom := hw.room
  show w.view.completions.length < 4
  omega

omit [Hardware σ] in
theorem ready_fresh (chip : σ) (ramBlocks flashBlocks erasedSectors : IndexSet) :
    (fresh chip (.onSets ramBlocks flashBlocks erasedSectors)).Ready where
  sound := Upload.sound_onSets _ _ _
  script := rfl
  waiting := fun channel job h => by cases channel <;> cases h
  working := fun job h => by cases h
  completions := fun response h => by cases h
  room := Nat.zero_le 3
  roomForAll := fun _ => Nat.zero_le 3

omit [Hardware σ] in
/-- Nothing has become of jobs and answers. -/
theorem Ready.of_view {w' : Attended σ} (hw : w.Ready) (hview : w'.view = w.view)
    (hsound : w'.service.device.core.upload.Sound) (hscript : w'.service.endpoint.script = [])
    (hduty : w'.duty = .away → w.duty = .away) : w'.Ready where
  sound := hsound
  script := hscript
  waiting := hview ▸ hw.waiting
  working := hview ▸ hw.working
  completions := hview ▸ hw.completions
  room := hview ▸ hw.room
  roomForAll := fun haway => hview ▸ hw.roomForAll (hduty haway)

/-- The service when it has told the host something of a command. -/
theorem served_answered {s : Service σ} (core : Core) {outcome : Core.Outcome} {response : Response}
    (h : outcome.answer? s.nextToken = some response) :
    (s.served core outcome).device.core = core
      ∧ (s.served core outcome).device.phase = s.device.phase
      ∧ (s.served core outcome).device.machine.completions = s.device.machine.completions
      ∧ (s.served core outcome).nextToken = s.nextToken + 1
      ∧ (s.served core outcome).endpoint = s.endpoint.send response := by
  cases outcome with
  | pending => cases h
  | _ =>
    cases h
    exact ⟨rfl, rfl, rfl, rfl, rfl⟩

/-- A command that is answered at once leaves all jobs where they are. -/
theorem Ready.answered (hw : w.Ready) {command : Command}
    {core : Core} {outcome : Core.Outcome} {response : Response}
    (hhandle : w.service.device.core.handle command w.service.nextToken = .ok (core, outcome))
    (hanswer : outcome.answer? w.service.nextToken = some response)
    (hfits : response.Fits .device)
    (hslot : ∀ channel, (core.slot channel).job = (w.service.device.core.slot channel).job) :
    let w' : Attended σ := ⟨w.service.served core outcome, .receiving,
      w.service.exchanges command ++ w.log⟩
    w'.Ready ∧ w'.view = { w.view with
      nextToken := w.view.nextToken + 1
      sent := w.view.sent ++ Frame.wrap (Encode.response response)
      log := .answered response :: .asked w.view.nextToken command :: w.view.log } := by
  intro w'
  obtain ⟨hcore, hphase, hcompletions, htoken, hendpoint⟩ := served_answered core hanswer
  rw [Endpoint.send_eq hw.script hfits] at hendpoint
  have hlog : w.service.exchanges command
      = [.answered response, .asked w.service.nextToken command] := by
    simp only [Service.exchanges, hhandle, hanswer, List.singleton_append]
  have hjobs : w'.view.slot = w.view.slot := by
    funext channel
    show ((w.service.served core outcome).device.core.slot channel).job = _
    rw [hcore]
    exact hslot channel
  have hworking : w'.view.working = w.view.working := congrArg Phase.job? hphase
  refine ⟨⟨?_, ?_, ?_, ?_, ?_, ?_, nofun⟩, View.ext hjobs hworking hcompletions htoken ?_ ?_⟩
  · show (w.service.served core outcome).device.core.upload.Sound
    rw [hcore]
    exact Device.sound_of_handle hhandle hw.sound
  · show (w.service.served core outcome).endpoint.script = []
    rw [hendpoint]
  · rw [hjobs]
    exact hw.waiting
  · rw [hworking]
    exact hw.working
  · rw [show w'.view.completions = w.view.completions from hcompletions]
    exact hw.completions
  · rw [show w'.view.completions = w.view.completions from hcompletions, hworking]
    exact hw.room
  · show (w.service.served core outcome).endpoint.sent = _
    rw [hendpoint]
    rfl
  · show w.service.exchanges command ++ w.log = _
    rw [hlog]
    rfl

/-- A command is answered at once, or a job is left for it. -/
theorem Ready.command (hw : w.Ready) (command : Command) :
    ∃ after, w.service.serve command = .ok after
      ∧ w.view.Step (view ⟨after, .receiving, w.service.exchanges command ++ w.log⟩)
      ∧ (Attended.mk after .receiving (w.service.exchanges command ++ w.log)).Ready := by
  obtain ⟨core, outcome, hhandle, hcases⟩ :=
    w.service.device.core.handle_handles command w.service.nextToken
  refine ⟨_, Service.serve_of_handle hhandle, ?_⟩
  cases hcases with
  | status hstatus hcore =>
    subst hstatus hcore
    obtain ⟨hready, hview⟩ := hw.answered hhandle rfl trivial fun _ => rfl
    exact ⟨hview ▸ .status, hready⟩
  | acked status hother hanswer hslot =>
    obtain ⟨hready, hview⟩ := hw.answered hhandle hanswer trivial hslot
    exact ⟨hview ▸ .acked hother, hready⟩
  | @queued job hother htoken hlistener hjob hslot =>
    let w' : Attended σ := ⟨w.service.served core .pending, .receiving,
      w.service.exchanges command ++ w.log⟩
    have hlog : w.service.exchanges command
        = (w.view.slot command.channel).toList.map
            (fun lost => .displaced lost.token w.view.nextToken)
          ++ [.asked w.view.nextToken command] := by
      simp only [Service.exchanges, hhandle, Core.Outcome.answer?]
      rfl
    have hjobs : w'.view.slot = Function.update w.view.slot command.channel (some job) := by
      funext channel
      by_cases hchannel : channel = command.channel
      · subst hchannel
        rw [Function.update_self]
        exact hjob
      · rw [Function.update_of_ne hchannel]
        exact hslot channel hchannel
    have hview : w'.view = { w.view with
        slot := Function.update w.view.slot command.channel (some job)
        nextToken := w.view.nextToken + 1
        log := ((w.view.slot command.channel).toList.map fun lost =>
          .displaced lost.token w.view.nextToken) ++ .asked w.view.nextToken command :: w.view.log }
        := by
      refine View.ext hjobs rfl rfl rfl rfl ?_
      show w.service.exchanges command ++ w.log = _
      rw [hlog, List.append_assoc]
      rfl
    refine ⟨hview ▸ .queued hother htoken, Device.sound_of_handle hhandle hw.sound, hw.script, ?_,
      hw.working, hw.completions, hw.room, nofun⟩
    rw [show (view w').slot = _ from hjobs]
    intro channel other hjob'
    by_cases hchannel : channel = command.channel
    · subst hchannel
      rw [Function.update_self] at hjob'
      cases hjob'
      exact hlistener
    · rw [Function.update_of_ne hchannel] at hjob'
      exact hw.waiting channel other hjob'

/-- The interrupt does its next thing. -/
theorem Ready.attend (hw : w.Ready) :
    ∃ w', w.attend = .ok w' ∧ w.view.Step w'.view ∧ w'.Ready := by
  unfold Attended.attend
  cases hduty : w.duty with
  | away => exact ⟨w, rfl, .same, hw⟩
  | receiving =>
    cases hreceive : w.service.receive with
    | mk s command =>
      -- Looking for a command changes only what is at the endpoint and what is on record.
      have hs : s = w.service.receive.1 := congrArg Prod.fst hreceive.symm
      have hview : ∀ duty, view ⟨s, duty, w.log⟩ = w.view := by
        intro duty
        rw [hs]
        rfl
      have hsame : ∀ duty, duty ≠ .away → Ready ⟨s, duty, w.log⟩ := by
        intro duty hduty
        refine hw.of_view (hview duty) ?_ ?_ fun haway => absurd haway hduty
        · rw [hs]
          exact hw.sound
        · rw [hs]
          exact hw.script
      cases command with
      | none => exact ⟨⟨s, .sending, w.log⟩, rfl, hview .sending ▸ .same, hsame .sending nofun⟩
      | some command =>
        obtain ⟨after, hserve, hstep, hafter⟩ := (hsame .receiving nofun).command command
        rw [hview] at hstep
        refine ⟨_, ?_, hstep, hafter⟩
        simp only [show s.serve command = .ok after from hserve]
        rfl
  | sending =>
    cases hwaiting : w.service.device.machine.completions with
    | nil =>
      refine ⟨{ w with duty := .away }, rfl, .same, hw.sound, hw.script, hw.waiting, hw.working,
        hw.completions, hw.room, fun _ => ?_⟩
      -- Nothing waits to be sent, and there is one job at most in each other place.
      have hlength : ∀ o : Option Job, o.toList.length ≤ 1 := fun o => by cases o <;> simp
      have hnone : w.view.completions.length = 0 := congrArg List.length hwaiting
      have hworking := hlength w.view.working
      have hdisk := hlength (w.view.slot .disk)
      have hcontrol := hlength (w.view.slot .control)
      show w.view.completions.length + w.view.working.toList.length
        + (w.view.slot .disk).toList.length + (w.view.slot .control).toList.length ≤ 3
      omega
    | cons response rest =>
      have hcompletions : w.view.completions = response :: rest := hwaiting
      obtain ⟨job, rfl⟩ := hw.completions response (by rw [hcompletions]; exact List.mem_cons_self)
      let w' : Attended σ :=
        ⟨(w.service.withCompletions rest).send job.response, .sending,
          .answered job.response :: w.log⟩
      have hendpoint : w'.service.endpoint = { w.service.endpoint with
          sent := w.service.endpoint.sent ++ Frame.wrap (Encode.response job.response)
          script := [] } := Endpoint.send_eq hw.script job.response_fits
      have hview : w'.view = { w.view with
          completions := rest
          sent := w.view.sent ++ Frame.wrap (Encode.response job.response)
          log := .answered job.response :: w.view.log } :=
        View.ext rfl rfl rfl rfl (congrArg Endpoint.sent hendpoint) rfl
      refine ⟨w', rfl, hview ▸ .sent hcompletions job.token?_response, hw.sound, ?_, hw.waiting,
        hw.working, fun r hr => hw.completions r ?_, ?_, nofun⟩
      · rw [hendpoint]
      · rw [hcompletions]
        exact List.mem_cons_of_mem _ hr
      · have hroom := hw.room
        rw [hcompletions, List.length_cons] at hroom
        show rest.length + w.view.working.toList.length ≤ 3
        omega

/-- The service with another device. -/
def withDevice (w : Attended σ) (device : Device (Board σ)) : Attended σ :=
  { w with service := { w.service with device } }

variable {d : Device (Board σ)}

omit [Hardware σ] in
/-- The worker takes a job. -/
theorem Ready.take (hw : w.Ready) (hduty : w.duty = .away) :
    w.view.Step (w.withDevice w.service.device.takeJob).view
      ∧ (w.withDevice w.service.device.takeJob).Ready := by
  rcases w.service.device.takeJob_cases with hsame | ⟨origin, job, hphase, hjob, -, htake⟩
  · rw [hsame]
    exact ⟨.same, hw⟩
  · rw [htake]
    have hidle : w.view.working = none := congrArg Phase.job? hphase
    have hslot : w.view.slot origin = some job := hjob
    have hview : (w.withDevice { w.service.device with
        core := w.service.device.core.withSlot origin
          { w.service.device.core.slot origin with job := none }
        phase := .holding origin job }).view
        = { w.view with slot := Function.update w.view.slot origin none, working := some job } := by
      refine View.ext (funext fun channel => ?_) rfl rfl rfl rfl rfl
      cases origin <;> cases channel <;> rfl
    have hroom := hw.roomForAll hduty
    rw [hidle] at hroom
    have hless : w.view.completions.length + 1
        + (Function.update w.view.slot origin none .disk).toList.length
        + (Function.update w.view.slot origin none .control).toList.length ≤ 3 := by
      cases origin with
      | disk =>
        rw [hslot] at hroom
        rw [Function.update_self, Function.update_of_ne (show Channel.control ≠ .disk by decide)]
        simp only [Option.toList_some, Option.toList_none, List.length_cons, List.length_nil]
          at hroom ⊢
        omega
      | control =>
        rw [hslot] at hroom
        rw [Function.update_self, Function.update_of_ne (show Channel.disk ≠ .control by decide)]
        simp only [Option.toList_some, Option.toList_none, List.length_cons, List.length_nil]
          at hroom ⊢
        omega
    refine ⟨hview ▸ .taken hidle hslot, ?_, hw.script, ?_, ?_, ?_, ?_, ?_⟩
    · cases origin <;> exact hw.sound
    · rw [hview]
      intro channel other hother
      change Function.update w.view.slot origin none channel = some other at hother
      by_cases hchannel : channel = origin
      · subst hchannel
        rw [Function.update_self] at hother
        cases hother
      · rw [Function.update_of_ne hchannel] at hother
        exact hw.waiting channel other hother
    · rw [hview]
      rintro _ ⟨⟩
      exact hw.waiting origin job hslot
    · rw [hview]
      exact hw.completions
    · rw [hview]
      show w.view.completions.length + 1 ≤ 3
      omega
    · rw [hview]
      exact fun _ => hless

/-- The worker carries out the job that it holds. -/
theorem Ready.carryOut (hw : w.Ready) :
    w.view.Step (w.withDevice w.service.device.carryOut).view
      ∧ (w.withDevice w.service.device.carryOut).Ready := by
  rcases carryOut_cases w.service.device with
    hsame | ⟨origin, job, done, hphase, htoken, hlistener, hdone, hslot, hupload, hcompletions⟩
  · rw [hsame]
    exact ⟨.same, hw⟩
  · have hworking : w.view.working = some job := congrArg Phase.job? hphase
    have hview : (w.withDevice w.service.device.carryOut).view
        = { w.view with working := some done } :=
      View.ext (funext hslot) (congrArg Phase.job? hdone) hcompletions rfl rfl rfl
    have hroom := hw.room
    have hroomForAll := hw.roomForAll
    rw [hworking] at hroom hroomForAll
    refine ⟨hview ▸ .carriedOut hworking htoken, ?_, hw.script, ?_, ?_, ?_, ?_, ?_⟩
    · show w.service.device.carryOut.core.upload.Sound
      rw [hupload]
      exact hw.sound
    · rw [hview]
      exact hw.waiting
    · rw [hview]
      rintro _ ⟨⟩
      rw [hlistener]
      exact hw.working job hworking
    · rw [hview]
      exact hw.completions
    · rw [hview]
      exact hroom
    · rw [hview]
      exact hroomForAll

/-- The worker tells those who wait for the job. There is room for the answer. -/
theorem Ready.finish (hw : w.Ready) (hduty : w.duty = .away) :
    ∃ d, w.service.device.finish = .ok d ∧ w.view.Step (w.withDevice d).view
      ∧ (w.withDevice d).Ready := by
  have hlistener : ∀ job, w.service.device.phase = .done job → job.listener.isSome = true :=
    fun job hphase => hw.working job (congrArg Phase.job? hphase)
  rcases finish_cases w.service.device hw.sound hlistener hw.length_completions_lt with
    hsame | ⟨job, d, hphase, hfinish, hidle, hslot, hsound, hcompletions⟩
  · exact ⟨_, hsame, .same, hw⟩
  · have hworking : w.view.working = some job := congrArg Phase.job? hphase
    have hview : (w.withDevice d).view
        = { w.view with working := none, completions := w.view.completions ++ [job.response] } :=
      View.ext (funext hslot) (congrArg Phase.job? hidle) hcompletions rfl rfl rfl
    have hroom := hw.roomForAll hduty
    rw [hworking] at hroom
    have hless : (w.view.completions ++ [job.response]).length + (w.view.slot .disk).toList.length
        + (w.view.slot .control).toList.length ≤ 3 := by
      rw [List.length_append]
      simp only [Option.toList_some, List.length_cons, List.length_nil] at hroom ⊢
      omega
    refine ⟨d, hfinish, hview ▸ .told hworking, hsound, hw.script, ?_, ?_, ?_, ?_, ?_⟩
    · rw [hview]
      exact hw.waiting
    · rw [hview]
      exact fun _ h => nomatch h
    · rw [hview]
      intro response hresponse
      rcases List.mem_append.mp hresponse with hold | hnew
      · exact hw.completions response hold
      · exact ⟨job, List.mem_singleton.mp hnew⟩
    · rw [hview]
      show (w.view.completions ++ [job.response]).length ≤ 3
      omega
    · rw [hview]
      exact fun _ => hless

/-- Whatever happens, the service goes on, and what the answers depend on takes a step. -/
theorem Ready.step (hw : w.Ready) (a : Action) :
    ∃ w', w.step a = .ok w' ∧ w.view.Step w'.view ∧ w'.Ready := by
  have hwork : ∀ f : Device (Board σ) → Except Fault (Device (Board σ)),
      (w.duty = .away → ∃ d, f w.service.device = .ok d ∧ w.view.Step (w.withDevice d).view
        ∧ (w.withDevice d).Ready) →
      ∃ w', w.work f = .ok w' ∧ w.view.Step w'.view ∧ w'.Ready := by
    intro f hf
    by_cases hduty : w.duty = .away
    · obtain ⟨d, hd, hstep, hready⟩ := hf hduty
      refine ⟨w.withDevice d, ?_, hstep, hready⟩
      rw [work, if_pos hduty, hd]
      rfl
    · exact ⟨w, if_neg hduty, .same, hw⟩
  cases a with
  | arrive packets => exact ⟨_, rfl, .same, hw.of_view rfl hw.sound hw.script id⟩
  | attend => exact hw.attend
  | interrupt =>
    by_cases hduty : w.duty = .away
    · exact ⟨_, if_pos hduty, .same, hw.of_view rfl hw.sound hw.script nofun⟩
    · exact ⟨w, if_neg hduty, .same, hw⟩
  | take => exact hwork (fun d => .ok d.takeJob) fun hduty => ⟨_, rfl, hw.take hduty⟩
  | carryOut => exact hwork (fun d => .ok d.carryOut) fun _ => ⟨_, rfl, hw.carryOut⟩
  | finish => exact hwork Device.finish hw.finish

end Attended

end Loader

end Reflash
