import Reflash.Proofs.Attribution
import Reflash.Proofs.RunHistory
/-! # One command after the other

  A host that waits for the answer to a command before it sends the next one finds
  a device with nothing going on: no job waits, and the worker is idle. What comes
  of a command is then settled by the command and the device alone.

  `Device.Served` says once what that can be. A command is answered at once, or it
  latches a reboot, or it brings a block, or it leaves a job for the control channel.
  The worker carries out the job that comes of it and tells of it. `serve_served`
  says that every command does one of these things and none is a fault, and that
  nothing is going on afterwards.
-/

namespace Reflash

/-! ### Serving commands -/

/-- The block for a family that a command brings. -/
def Command.block? (familyId : UInt32) : Command → Option Block
  | .writeSector _ data => do (Block.ofSectorFor? (← Sector.ofBytes? data) familyId).toOption
  | _ => none

/-- The bytes of a sector are a sector again. -/
theorem Sector.ofBytes?_toList (s : Sector) : Sector.ofBytes? s.toList = some s := by
  simp [ofBytes?, Vector.toList]

theorem Command.block?_of_sector (lba : UInt32) {sector : Sector} {familyId : UInt32}
    {block : Block} (h : Block.ofSectorFor? sector familyId = .ok block) :
    (Command.writeSector lba sector.toList).block? familyId = some block := by
  simp [block?, Sector.ofBytes?_toList, h, Except.toOption]

theorem Command.block?_eq_some {command : Command} {familyId : UInt32} {block : Block}
    (h : command.block? familyId = some block) :
    ∃ lba data sector, command = .writeSector lba data ∧ Sector.ofBytes? data = some sector
      ∧ Block.ofSectorFor? sector familyId = .ok block := by
  cases command with
  | writeSector lba data =>
    cases hdata : Sector.ofBytes? data with
    | none => simp [block?, hdata] at h
    | some sector =>
      cases hblock : Block.ofSectorFor? sector familyId with
      | error e => simp [block?, hdata, hblock, Except.toOption] at h
      | ok b =>
        simp only [block?, hdata, hblock, Except.toOption, bind, Option.bind_some,
          Option.some.injEq] at h
        exact ⟨lba, data, sector, rfl, hdata, hblock.trans (congrArg Except.ok h)⟩
  | _ => cases h

namespace Watched

variable {σ : Type} [Machine σ]

/-- A command comes in under its token, and the worker deals with the job that
    comes of it. -/
def serve (w : Watched σ) (request : UInt32 × Command) : Except Fault (Watched σ) :=
  w.run [.command request.1 request.2, .take, .carryOut, .finish]

/-- Commands are served one after the other. -/
def serveAll (w : Watched σ) (requests : List (UInt32 × Command)) : Except Fault (Watched σ) :=
  requests.foldlM serve w

theorem serveAll_append {w v : Watched σ} {earlier : List (UInt32 × Command)}
    (h : w.serveAll earlier = .ok v) (later : List (UInt32 × Command)) :
    w.serveAll (earlier ++ later) = v.serveAll later := by
  unfold serveAll
  rw [List.foldlM_append, show earlier.foldlM serve w = .ok v from h]
  rfl

theorem serveAll_cons {w v : Watched σ} {request : UInt32 × Command} (h : w.serve request = .ok v)
    (later : List (UInt32 × Command)) : w.serveAll (request :: later) = v.serveAll later := by
  unfold serveAll
  rw [List.foldlM_cons, h]
  rfl

/-- Commands that were served were served in each part. -/
theorem serveAll_append_eq_ok {w v' : Watched σ} {earlier later : List (UInt32 × Command)}
    (h : w.serveAll (earlier ++ later) = .ok v') :
    ∃ v, w.serveAll earlier = .ok v ∧ v.serveAll later = .ok v' := by
  cases hv : w.serveAll earlier with
  | error e =>
    unfold serveAll at h hv
    rw [List.foldlM_append, hv] at h
    cases h
  | ok v => exact ⟨v, rfl, (serveAll_append hv later).symm.trans h⟩

theorem serveAll_singleton (w : Watched σ) (request : UInt32 × Command) :
    w.serveAll [request] = w.serve request := by
  unfold serveAll
  cases h : w.serve request <;> simp [h, bind, Except.bind, pure, Except.pure]

/-- Serving commands only adds to the journal. -/
theorem serveAll_journal {requests : List (UInt32 × Command)} {w v : Watched σ}
    (h : w.serveAll requests = .ok v) : ∃ since, v.journal = since ++ w.journal := by
  induction requests generalizing w with
  | nil => cases h; exact ⟨[], rfl⟩
  | cons request requests ih =>
    obtain ⟨x, hserve, hrest⟩ :=
      serveAll_append_eq_ok (show w.serveAll ([request] ++ requests) = .ok v from h)
    rw [serveAll_singleton] at hserve
    obtain ⟨since, hsince⟩ := ih hrest
    obtain ⟨now, hnow⟩ := run_journal hserve
    exact ⟨since ++ now, by rw [hsince, hnow, List.append_assoc]⟩

theorem serveAll_snoc {w v v' : Watched σ} {earlier : List (UInt32 × Command)}
    {request : UInt32 × Command} (h : w.serveAll earlier = .ok v)
    (hlast : v.serve request = .ok v') :
    w.serveAll (earlier ++ [request]) = .ok v' := by
  rw [serveAll_append h, serveAll_cons hlast]
  rfl

end Watched

namespace Device

variable {σ : Type}

/-- Nothing is going on: no job waits, and the worker has none. -/
structure Settled (d : Device σ) : Prop where
  phase : d.phase = .idle
  disk : d.core.disk.job = none
  control : d.core.control = .empty

variable [Machine σ]

/-- What a command and the job that comes of it can do to a device with nothing
    going on, and what they put down. -/
inductive Served (d : Device σ) (token : UInt32) (command : Command) : Journal → Device σ → Prop
    where
  /-- The command is answered at once. -/
  | answered : command.block? d.core.config.familyId = none → Served d token command [] d
  | latched : command.block? d.core.config.familyId = none →
      Served d token command [] { d with core := d.core.latchReboot }
  /-- A block comes for which there is no job. -/
  | noted {block : Block} {v : Upload} : command.block? d.core.config.familyId = some block →
      Upload.Accepts d.core.upload block token d.core.config d.core.disk.isFenced v none →
      Served d token command
        (d.core.upload.entries block d.core.config d.core.disk.isFenced none)
        { d with core := { d.core with upload := v } }
  /-- A block comes, and its job is carried out according to its plan. -/
  | written {block : Block} {v v' : Upload} {job : Job} {p : Job.Plan}
      {request : Option RebootRequest} : command.block? d.core.config.familyId = some block →
      Upload.Accepts d.core.upload block token d.core.config d.core.disk.isFenced v (some job) →
      job.forUpload.WritesPage →
      job.forUpload.plan d.core.config.map d.core.rebooting d.lastWriter = p →
      v.credit { job.forUpload with result := some p.status } d.core.config = .ok (v', request) →
      Served d token command
        (.told { job.forUpload with result := some p.status }
          :: .carriedOut { job.forUpload with result := some p.status }
          :: d.core.upload.entries block d.core.config d.core.disk.isFenced (some job.forUpload))
        { d with
          core := { d.core with upload := v', rebooting := d.core.rebooting || request.isSome }
          lastWriter := p.lastWriter
          machine := Machine.perform
            (match request with
              | some request =>
                Machine.perform (Machine.performAll d.machine p.calls) (.reboot request)
              | none => Machine.performAll d.machine p.calls)
            (.complete { job.forUpload with result := some p.status }.response) }
  /-- A job of the control channel is carried out. -/
  | commanded {job : Job} : d.core.jobFor command token = .ok job →
      Served d token command [.told (d.doneJob job), .carriedOut (d.doneJob job)]
        ((d.execute job).1.report (d.doneJob job))

end Device

/-- A block for which there is a job came while the disk was open. -/
theorem Upload.Accepts.isFenced {u v : Upload} {block : Block} {token : UInt32} {config : Config}
    {fenced : Bool} {job : Job} (h : Accepts u block token config fenced v (some job)) :
    fenced = false := by
  cases h with
  | taken hstay => exact (Bool.or_eq_false_iff.mp hstay).2

/-- The job for a block writes a page. -/
theorem Upload.Accepts.writesPage {u v : Upload} {block : Block} {token : UInt32} {config : Config}
    {fenced : Bool} {job : Job} (h : Accepts u block token config fenced v (some job))
    (hpayload : block.payload.length = 256) : job.forUpload.WritesPage := by
  cases h with
  | taken => exact (Job.writesPage_pageJob hpayload).forUpload

/-! ### The worker -/

namespace Job

/-- The mode is changed as the job says, unless a reboot is due. -/
theorem access_plan (job : Job) (map : AddressMap) (rebooting : Bool)
    (lastWriter : Option Channel) :
    (job.plan map rebooting lastWriter).access = if rebooting then none else job.access := by
  unfold plan
  split
  · rfl
  · split
    · rfl
    · cases job.checkedMoves map <;> rfl

end Job

namespace Device

variable {σ : Type} {d : Device σ}

theorem poll_of_empty [Machine σ] (hphase : d.phase = .idle) (hdisk : d.core.disk.job = none)
    (hcontrol : d.core.control.job = none) : d.poll = .ok (d, false) := by
  obtain ⟨core, phase, lastWriter, machine⟩ := d
  cases hphase
  unfold poll
  rw [takeJob_of_empty hdisk hcontrol]

theorem poll_of_busy [Machine σ] (h : d.takeJob.phase ≠ .idle) :
    d.poll = d.takeJob.carryOut.finish.map fun d => (d, true) := by
  unfold poll
  split
  · rename_i htake
    rw [htake] at h
    exact absurd rfl h
  · cases d.takeJob.carryOut.finish <;> rfl

/-- A worker with nothing else to do takes the job of the control channel. -/
theorem Settled.takeJob_control (h : d.Settled) (job : Job) :
    ({ d with core := d.core.withControlJob job } : Device σ).takeJob
      = { d with phase := .holding .control job } := by
  obtain ⟨⟨config, disk, control, upload, rebooting⟩, phase, lastWriter, machine⟩ := d
  obtain rfl : control = .empty := h.control
  exact takeJob_of_control h.phase h.disk rfl

end Device

namespace Watched

variable {σ : Type} [Machine σ] {w : Watched σ}

theorem step_eq (w : Watched σ) (m : Move) (d : Device σ) (es : Journal)
    (hmove : w.device.move m = .ok d) (hentries : w.device.entries m = es) :
    w.step m = .ok ⟨d, es ++ w.journal⟩ := by
  unfold step
  rw [hmove, hentries]
  rfl

/-- A worker that finds no job leaves everything as it is. -/
theorem run_worker_of_settled (h : w.device.Settled) :
    w.run [.take, .carryOut, .finish] = .ok w := by
  have htake : w.device.takeJob = w.device :=
    Device.takeJob_of_empty h.disk (by rw [h.control]; rfl)
  have htaken : w.step .take = .ok w := w.step_eq .take w.device [] (congrArg Except.ok htake) rfl
  have hcarried : w.step .carryOut = .ok w :=
    w.step_eq .carryOut w.device []
      (by simp only [Device.move, Device.carryOut_of_idle h.phase])
      (by simp only [Device.entries, h.phase])
  have hfinished : w.step .finish = .ok w :=
    w.step_eq .finish w.device [] (Device.finish_of_idle h.phase)
      (by simp only [Device.entries, h.phase])
  rw [run_cons _ _ _ _ htaken, run_cons _ _ _ _ hcarried, run_cons _ _ _ _ hfinished]
  rfl

/-- A worker takes the job that it finds, carries it out and tells of it. -/
theorem run_worker (held : Device σ) {d' : Device σ} {origin : Channel} {job done : Job}
    (htake : w.device.takeJob = held) (hphase : held.phase = .holding origin job)
    (hopen : (held.core.slot origin).isFenced = false) (hdone : held.doneJob job = done)
    (hnotify : { (held.execute job).1 with phase := .idle }.notify done = .ok d') :
    w.run [.take, .carryOut, .finish]
      = .ok ⟨d', .told done :: .carriedOut done :: w.journal⟩ := by
  subst hdone
  let after : Device σ := { (held.execute job).1 with phase := .done (held.doneJob job) }
  have htaken : w.step .take = .ok ⟨held, w.journal⟩ :=
    w.step_eq .take held [] (congrArg Except.ok htake) rfl
  have hcarried : (⟨held, w.journal⟩ : Watched σ).step .carryOut
      = .ok ⟨after, .carriedOut (held.doneJob job) :: w.journal⟩ :=
    step_carriedOut hphase hopen rfl
  have hfinished : ∀ journal, (⟨after, journal⟩ : Watched σ).step .finish
      = .ok ⟨d', .told (held.doneJob job) :: journal⟩ := fun _ =>
    step_eq ⟨after, _⟩ .finish d' [_] hnotify rfl
  rw [run_cons _ _ _ _ htaken, run_cons _ _ _ _ hcarried, run_cons _ _ _ _ (hfinished _)]
  rfl

/-! ### What comes of a command -/

theorem serve_of_step {v w' : Watched σ} {token : UInt32} {command : Command}
    (h : w.step (.command token command) = .ok v)
    (hworker : v.run [.take, .carryOut, .finish] = .ok w') :
    w.serve (token, command) = .ok w' :=
  (run_cons w v (.command token command) [.take, .carryOut, .finish] h).trans hworker

/-- A sector in a command is written to the disk. -/
theorem step_command_sector {token : UInt32} (lba : UInt32) {data : Bytes} {sector : Sector}
    (h : Sector.ofBytes? data = some sector) :
    w.step (.command token (.writeSector lba data)) = w.step (.sector token sector) := by
  unfold Sector.ofBytes? at h
  split at h
  · rename_i hsize
    obtain rfl := Option.some.inj h
    have hentries : w.device.entries (.command token (.writeSector lba data))
        = w.device.entries (.sector token ⟨data.toArray, hsize⟩) := by
      simp only [Device.entries, Move.sector?, Sector.ofBytes?, dif_pos hsize, Option.map_some]
    have hmove : w.device.move (.command token (.writeSector lba data))
        = w.device.move (.sector token ⟨data.toArray, hsize⟩) := by
      simp only [Device.move, Core.handle, dif_pos hsize]
      cases w.device.core.writeSector token ⟨data.toArray, hsize⟩ <;> rfl
    unfold step
    rw [hmove, hentries]
  · cases h

/-- A command for which there is a job leaves it for the control channel. -/
theorem step_command_of_jobFor {token : UInt32} {command : Command} {job : Job}
    (h : w.device.core.jobFor command token = .ok job) :
    w.step (.command token command)
      = .ok ⟨{ w.device with core := w.device.core.withControlJob job }, w.journal⟩ := by
  have hentries : w.device.entries (.command token command) = [] := by
    cases command with
    | writeSector => cases h
    | _ => rfl
  exact w.step_eq _ _ [] (by simp only [Device.move, Core.handle_of_jobFor h]; rfl) hentries

/-- A command without a block is answered at once, or latches a reboot, or leaves
    a job. -/
theorem step_command_cases (w : Watched σ) (token : UInt32) {command : Command}
    (h : command.block? w.device.core.config.familyId = none) :
    w.step (.command token command) = .ok w
    ∨ w.step (.command token command)
        = .ok ⟨{ w.device with core := w.device.core.latchReboot }, w.journal⟩
    ∨ ∃ job, w.device.core.jobFor command token = .ok job := by
  by_cases hsector : ∃ lba data, command = .writeSector lba data
  · obtain ⟨lba, data, rfl⟩ := hsector
    left
    cases hdata : Sector.ofBytes? data with
    | none =>
      have hsize : ¬ data.toArray.size = 512 := by
        intro hsize
        simp only [Sector.ofBytes?, dif_pos hsize, reduceCtorEq] at hdata
      exact w.step_eq (.command _ _) w.device []
        (by simp only [Device.move, Core.handle, dif_neg hsize]; rfl)
        (by simp only [Device.entries, Move.sector?, hdata, Option.map_none])
    | some sector =>
      rw [step_command_sector lba hdata]
      cases hblock : Block.ofSectorFor? sector w.device.core.config.familyId with
      | error e =>
        exact w.step_eq (.sector _ _) w.device []
          (by simp only [Device.move, Core.writeSector_of_noBlock hblock]; rfl)
          (by simp only [Device.entries, Move.sector?, Core.entries, hblock])
      | ok block => simp [Command.block?, hdata, hblock, Except.toOption] at h
  · have hno : ∀ lba data, command ≠ .writeSector lba data :=
      fun lba data h => hsector ⟨lba, data, h⟩
    have hentries : w.device.entries (.command token command) = [] := by
      cases command <;> first | rfl | exact absurd rfl (hno _ _)
    obtain ⟨outcome, hhandle⟩ | ⟨outcome, hhandle⟩ | ⟨job, -, hjob, -⟩ :=
      w.device.core.handle_cases command token hno
    · exact .inl (w.step_eq _ w.device [] (by simp only [Device.move, hhandle]; rfl) hentries)
    · exact .inr (.inl (w.step_eq _ _ [] (by simp only [Device.move, hhandle]; rfl) hentries))
    · exact .inr (.inr ⟨job, hjob⟩)

/-- A block that leaves no job is only looked at. -/
theorem serve_noted {token : UInt32} {command : Command} {block : Block} {v : Upload}
    (hw : w.device.Settled) (hblock : command.block? w.device.core.config.familyId = some block)
    (h : Upload.Accepts w.device.core.upload block token w.device.core.config
      w.device.core.disk.isFenced v none) :
    w.serve (token, command) = .ok ⟨{ w.device with core := { w.device.core with upload := v } },
      w.device.core.upload.entries block w.device.core.config w.device.core.disk.isFenced none
        ++ w.journal⟩ := by
  obtain ⟨lba, data, sector, rfl, hdata, hsector⟩ := Command.block?_eq_some hblock
  have hstep := (step_command_sector lba hdata).trans (step_block hsector h)
  exact serve_of_step hstep (run_worker_of_settled ⟨hw.phase, hw.disk, hw.control⟩)

/-- The job for a block is carried out according to its plan, and told of. -/
theorem serve_written {token : UInt32} {command : Command} {block : Block} {v v' : Upload}
    {job : Job} {p : Job.Plan} {request : Option RebootRequest} (hw : w.device.Settled)
    (hblock : command.block? w.device.core.config.familyId = some block)
    (h : Upload.Accepts w.device.core.upload block token w.device.core.config
      w.device.core.disk.isFenced v (some job))
    (hpage : job.forUpload.WritesPage)
    (hplan : job.forUpload.plan w.device.core.config.map w.device.core.rebooting
      w.device.lastWriter = p) :
    v.credit { job.forUpload with result := some p.status } w.device.core.config
      = .ok (v', request) →
    w.serve (token, command) = .ok
      ⟨{ w.device with
          core := { w.device.core with
            upload := v', rebooting := w.device.core.rebooting || request.isSome }
          lastWriter := p.lastWriter
          machine := Machine.perform
            (match request with
              | some request =>
                Machine.perform (Machine.performAll w.device.machine p.calls) (.reboot request)
              | none => Machine.performAll w.device.machine p.calls)
            (.complete { job.forUpload with result := some p.status }.response) },
        .told { job.forUpload with result := some p.status }
          :: .carriedOut { job.forUpload with result := some p.status }
          :: (w.device.core.upload.entries block w.device.core.config w.device.core.disk.isFenced
            (some job.forUpload) ++ w.journal)⟩ := by
  intro hcredit
  obtain ⟨lba, data, sector, rfl, hdata, hsector⟩ := Command.block?_eq_some hblock
  have hstep := (step_command_sector lba hdata).trans (step_block hsector h)
  have hopen : w.device.core.disk.isFenced = false := h.isFenced
  rcases w with ⟨⟨core, phase, lastWriter, machine⟩, journal⟩
  obtain rfl : phase = .idle := hw.phase
  have hempty : core.disk.job = none := hw.disk
  -- The worker takes the job out of the slot, which is empty again.
  let held : Device σ :=
    { core := { core with upload := v }, phase := .holding .disk job.forUpload, lastWriter
      machine }
  have haccess : p.access = none := by
    rw [← hplan, Job.access_plan, hpage.access, ite_self]
  have hexecute := held.execute_page hpage hplan haccess
  have hdone : held.doneJob job.forUpload = { job.forUpload with result := some p.status } := by
    simp only [Device.doneJob, hexecute]
  refine serve_of_step hstep (run_worker held ?_ rfl hopen hdone ?_)
  · rw [Device.takeJob_of_disk rfl rfl]
    simp only [Core.afterBlock, held, ← hempty]
  · rw [hexecute]
    exact Device.notify_upload rfl hcredit

/-- The job that a command leaves is carried out and told of. -/
theorem serve_job {token : UInt32} {command : Command} {job : Job} (hw : w.device.Settled)
    (hjob : w.device.core.jobFor command token = .ok job) :
    w.serve (token, command) = .ok ⟨(w.device.execute job).1.report (w.device.doneJob job),
      .told (w.device.doneJob job) :: .carriedOut (w.device.doneJob job) :: w.journal⟩ := by
  have hlistener : (w.device.doneJob job).listener = some .host :=
    (listener_execute w.device job).trans (Core.jobFor_eq_ok hjob).1
  have hstep := step_command_of_jobFor hjob
  have htake := hw.takeJob_control job
  have hopen : w.device.core.control.isFenced = false := by
    rw [hw.control]
    rfl
  rcases w with ⟨⟨core, phase, lastWriter, machine⟩, journal⟩
  obtain rfl : phase = .idle := hw.phase
  refine serve_of_step hstep (run_worker ⟨core, .holding .control job, lastWriter, machine⟩ htake
    rfl hopen rfl ?_)
  simp only [Device.notify, hlistener]
  rfl

/-- Every command does one of the things that a command can do, and none of them is
    a fault. -/
theorem serve_served (hw : w.device.Settled) (hs : w.device.core.upload.Sound) (token : UInt32)
    (command : Command) :
    ∃ d es, w.serve (token, command) = .ok ⟨d, es ++ w.journal⟩
      ∧ w.device.Served token command es d := by
  cases hblock : command.block? w.device.core.config.familyId with
  | none =>
    obtain hstep | hstep | ⟨job, hjob⟩ := w.step_command_cases token hblock
    · exact ⟨_, [], serve_of_step hstep (run_worker_of_settled hw), .answered hblock⟩
    · have hlatched : { w.device with core := w.device.core.latchReboot }.Settled :=
        ⟨hw.phase, hw.disk, hw.control⟩
      exact ⟨_, [], serve_of_step hstep (run_worker_of_settled hlatched), .latched hblock⟩
    · exact ⟨_, _, serve_job hw hjob, .commanded hjob⟩
  | some block =>
    obtain ⟨-, -, sector, -, -, hsector⟩ := Command.block?_eq_some hblock
    obtain ⟨v, job, -, haccepts⟩ := w.device.core.upload.accept_accepts block token
      w.device.core.config w.device.core.disk.isFenced
    cases job with
    | none => exact ⟨_, _, serve_noted hw hblock haccepts, .noted hblock haccepts⟩
    | some job =>
      have hpage := haccepts.writesPage (Block.length_payload hsector)
      -- The books are sound, so the credit is no fault.
      obtain ⟨v', request, hcredit⟩ : ∃ v' request, v.credit { job.forUpload with
          result := some (job.forUpload.plan w.device.core.config.map w.device.core.rebooting
            w.device.lastWriter).status } w.device.core.config = .ok (v', request) := by
        rcases Upload.credit_cases (haccepts.sound hs) _ w.device.core.config with
          ⟨-, h⟩ | ⟨-, v', request, h, -⟩
        · exact ⟨_, _, h⟩
        · exact ⟨v', request, h⟩
      exact ⟨_, _, serve_written hw hblock haccepts hpage rfl hcredit,
        .written hblock haccepts hpage rfl hcredit⟩

end Watched

/-! ### What stays so -/

namespace Device

variable {σ : Type} [Machine σ] {d d' : Device σ} {token : UInt32} {command : Command}
  {es : Journal}

/-- After a command nothing is going on. -/
theorem Served.settled (h : d.Served token command es d') (hd : d.Settled) : d'.Settled := by
  cases h with
  | @commanded job => exact ⟨hd.phase, (Watched.disk_execute d job).trans hd.disk, hd.control⟩
  | _ => exact ⟨hd.phase, hd.disk, hd.control⟩

/-- The books of the upload stay in order. -/
theorem Served.sound (h : d.Served token command es d') (hs : d.core.upload.Sound) :
    d'.core.upload.Sound := by
  cases h with
  | noted _ haccepts => exact haccepts.sound hs
  | written _ haccepts _ _ hcredit =>
    rcases Upload.credit_cases (haccepts.sound hs) _ d.core.config with ⟨-, h⟩ | ⟨-, _, _, h, hv⟩
    · rw [h] at hcredit
      cases hcredit
      exact haccepts.sound hs
    · rw [h] at hcredit
      cases hcredit
      exact hv.sound
  | _ => exact hs

end Device

namespace Watched

variable {σ : Type} [Machine σ]

omit [Machine σ] in
theorem settled_fresh (config : Config) (ramBlocks flashBlocks erasedSectors : IndexSet)
    (machine : σ) : (fresh config ramBlocks flashBlocks erasedSectors machine).device.Settled :=
  ⟨rfl, rfl, rfl⟩

/-- What is known at the end of the commands served so far and kept by each of them
    is known of all commands, and none of them stops at a fault. -/
theorem serveAll_history {P : List (UInt32 × Command) → Watched σ → Prop} {w₀ : Watched σ}
    (hsettled : w₀.device.Settled) (hsound : w₀.device.core.upload.Sound) (h₀ : P [] w₀)
    (hserve : ∀ requests v token command d es, w₀.serveAll requests = .ok v → P requests v →
      v.device.core.upload.Sound → v.serve (token, command) = .ok ⟨d, es ++ v.journal⟩ →
      v.device.Served token command es d →
      P (requests ++ [(token, command)]) ⟨d, es ++ v.journal⟩)
    (requests : List (UInt32 × Command)) :
    ∃ w, w₀.serveAll requests = .ok w ∧ w.device.Settled ∧ w.device.core.upload.Sound
      ∧ P requests w := by
  induction requests using List.reverseRecOn with
  | nil => exact ⟨w₀, rfl, hsettled, hsound, h₀⟩
  | append_singleton requests request ih =>
    obtain ⟨v, hrun, hv, hbooks, hP⟩ := ih
    obtain ⟨d, es, hserved, hd⟩ := v.serve_served hv hbooks request.1 request.2
    exact ⟨_, serveAll_snoc hrun hserved, hd.settled hv, hd.sound hbooks,
      hserve requests v request.1 request.2 d es hrun hP hbooks hserved hd⟩

end Watched

end Reflash
