import Reflash.Device
import Reflash.ImageFile
import Reflash.Proofs.Upload
/-! # Runs of a device

  A run is any sequence of moves: producers write sectors, send commands, reset
  the disk or fence it off, and the worker takes a job, carries it out and tells
  those who wait for it. Moves of the two sides come in any order.

  A journal goes with a run. It says what became of the upload and of its jobs:
  when an upload was started or given up, which job was left for which block, how
  a job ended and when those who wait were told. The journal only watches; the
  device does not know of it.

  `Step` says once what a move can do to a device, and `move_step` that every
  move of a device with sound books does one of these things.
-/

namespace Reflash

/-! ### Moves -/

/-- What a producer or the worker does next. -/
inductive Move where
  /-- A sector is written to the disk. -/
  | sector (token : UInt32) (sector : Sector)
  /-- A command comes in. -/
  | command (token : UInt32) (command : Command)
  /-- The bus of the disk is reset. -/
  | resetDisk
  /-- The disk is fenced off, or opened. -/
  | setMode (mode : AccessMode)
  /-- The worker takes a job. -/
  | take
  /-- The worker carries out the job that it holds. -/
  | carryOut
  /-- The worker tells those who wait for the job. -/
  | finish

/-- The sector that a move brings, with its token. It may come in a command. -/
def Move.sector? : Move → Option (UInt32 × Sector)
  | .sector token s => some (token, s)
  | .command token (.writeSector _ data) => (Sector.ofBytes? data).map fun s => (token, s)
  | _ => none

/-- The token of a move that brings a block for a family. -/
def Move.blockToken? (familyId : UInt32) (m : Move) : Option UInt32 :=
  m.sector?.bind fun p =>
    match Block.ofSectorFor? p.2 familyId with
    | .ok _ => some p.1
    | .error _ => none

theorem Move.blockToken?_of_block {token familyId : UInt32} {sector : Sector} {block : Block}
    (h : Block.ofSectorFor? sector familyId = .ok block) :
    (Move.sector token sector).blockToken? familyId = some token := by
  simp only [blockToken?, sector?, Option.bind_some, h]

/-! ### The journal -/

/-- What is put down in a journal. -/
inductive Entry where
  /-- An upload was started, also if its image did not fit. -/
  | started
  /-- The upload was given up. -/
  | givenUp
  /-- A job was left for a block. -/
  | accepted (blockNo : UInt32) (job : Job)
  /-- The worker is done with a job, which has its result. -/
  | carriedOut (job : Job)
  /-- Those who wait for a job were told. -/
  | told (job : Job)

/-- What happened, the latest first. -/
abbrev Journal := List Entry

namespace Entry

/-- Whether an upload begins or ends here. -/
def isBoundary : Entry → Bool
  | .started | .givenUp => true
  | _ => false

/-- Whether a job was accepted here. -/
def isAccepted : Entry → Bool
  | .accepted .. => true
  | _ => false

/-- The token of a job that was accepted here. -/
def token? : Entry → Option UInt32
  | .accepted _ job => some job.token
  | _ => none

end Entry

namespace Journal

/-- What happened since the upload was last started or given up. -/
def current (journal : Journal) : Journal := journal.takeWhile fun e => !e.isBoundary

/-- The tokens of all jobs accepted so far. -/
def tokens (journal : Journal) : List UInt32 := journal.filterMap Entry.token?

/-- The block and the token of the job accepted last; zeros if there is none. -/
def awaited : Journal → UInt32 × UInt32
  | [] => (0, 0)
  | .accepted blockNo job :: _ => (blockNo, job.token)
  | _ :: earlier => awaited earlier

end Journal

/-- What a block and the job left for it put down. -/
def Upload.entries (u : Upload) (block : Block) (config : Config) (fenced : Bool)
    (job : Option Job) : Journal :=
  if turnsAway block config fenced then [.givenUp]
  else job.toList.map (.accepted block.header.blockNo)
    ++ if u.numBlocks = block.header.numBlocks then [] else [.started]

/-- What a sector puts down. -/
def Core.entries (c : Core) (token : UInt32) (sector : Sector) : Journal :=
  match Block.ofSectorFor? sector c.config.familyId with
  | .error _ => []
  | .ok block =>
    c.upload.entries block c.config c.disk.isFenced <|
      match c.writeSector token sector with
      | .ok (after, true) => after.disk.job
      | _ => none

namespace Device

variable {σ : Type} [Machine σ]

/-- The device after a move. -/
def move (d : Device σ) : Move → Except Fault (Device σ)
  | .sector token sector => do
    let (core, _) ← d.core.writeSector token sector
    return { d with core }
  | .command token command => do
    let (core, _) ← d.core.handle command token
    return { d with core }
  | .resetDisk => .ok { d with core := d.core.resetDisk }
  | .setMode mode => .ok { d with core := { d.core with disk := d.core.disk.setMode mode } }
  | .take => .ok d.takeJob
  | .carryOut => .ok d.carryOut
  | .finish => d.finish

/-- What a move puts down. -/
def entries (d : Device σ) (m : Move) : Journal :=
  match m with
  | .resetDisk => [.givenUp]
  | .carryOut =>
    match d.phase, d.carryOut.phase with
    | .holding .., .done job => [.carriedOut job]
    | _, _ => []
  | .finish =>
    match d.phase with
    | .done job => [.told job]
    | _ => []
  | _ =>
    match m.sector? with
    | some (token, sector) => d.core.entries token sector
    | none => []

end Device

/-! ### What a move can do -/

/-- The job that the worker has. -/
def Phase.job? : Phase → Option Job
  | .idle => none
  | .holding _ job => some job
  | .done job => some job

/-- A job as it is left in the slot of the disk. -/
def Job.forUpload (job : Job) : Job := { job with listener := some .upload }

/-- The core after a block was looked at. -/
def Core.afterBlock (c : Core) (v : Upload) (job : Option Job) : Core :=
  { c with upload := v, disk := { c.disk with job := (job.map Job.forUpload).or c.disk.job } }

/-- The core with a job in the slot of the control channel. -/
def Core.withControlJob (c : Core) (job : Job) : Core :=
  { c with control := { c.control with job := some job } }

section sectors

variable {c : Core} {token : UInt32} {sector : Sector}

theorem Core.writeSector_of_noBlock {e : Unusable}
    (h : Block.ofSectorFor? sector c.config.familyId = .error e) :
    c.writeSector token sector = .ok (c, false) := by simp only [writeSector, h]

theorem Core.writeSector_of_block {block : Block} {v : Upload} {job : Option Job}
    (h : Block.ofSectorFor? sector c.config.familyId = .ok block)
    (haccept : c.upload.accept block token c.config c.disk.isFenced = .ok (v, job))
    (hresult : ∀ j ∈ job, j.result = none) :
    c.writeSector token sector = .ok (c.afterBlock v job, job.isSome) := by
  simp only [writeSector, h, haccept, bind, Except.bind, pure, Except.pure]
  cases job with
  | none => simp [afterBlock]
  | some j =>
    have hj : j.result = none := hresult j rfl
    simp [enqueue, slot, Slot.put, withSlot, hj, afterBlock, Job.forUpload, bind, Except.bind,
      pure, Except.pure]

theorem Upload.Accepts.result {u v : Upload} {block : Block} {config : Config} {fenced : Bool}
    {job : Option Job} (h : Accepts u block token config fenced v job) :
    ∀ j ∈ job, j.result = none := by
  cases h with
  | turnedAway => intro j hj; cases hj
  | dropped => intro j hj; cases hj
  | taken => intro j hj; cases hj; rfl

/-- A sector either holds no block and changes nothing, or its block is looked
    at. -/
theorem Core.writeSector_cases (c : Core) (token : UInt32) (sector : Sector) :
    (∃ e, Block.ofSectorFor? sector c.config.familyId = .error e
        ∧ c.writeSector token sector = .ok (c, false) ∧ c.entries token sector = [])
    ∨ ∃ block v job, Block.ofSectorFor? sector c.config.familyId = .ok block
        ∧ Upload.Accepts c.upload block token c.config c.disk.isFenced v job
        ∧ c.writeSector token sector = .ok (c.afterBlock v job, job.isSome)
        ∧ c.entries token sector = c.upload.entries block c.config c.disk.isFenced
            (job.map Job.forUpload) := by
  cases hblock : Block.ofSectorFor? sector c.config.familyId with
  | error e =>
    refine .inl ⟨e, rfl, writeSector_of_noBlock hblock, ?_⟩
    simp only [entries, hblock]
  | ok block =>
    obtain ⟨v, job, haccept, hcases⟩ := c.upload.accept_accepts block token c.config c.disk.isFenced
    have hwrite := writeSector_of_block hblock haccept hcases.result
    refine .inr ⟨block, v, job, rfl, hcases, hwrite, ?_⟩
    simp only [entries, hblock, hwrite]
    cases job <;> rfl

end sectors

/-- What a move can do to a device, and what it puts down. -/
inductive Device.Step {σ : Type} [Machine σ] (d : Device σ) : Journal → Device σ → Prop where
  /-- A sector without a block, a command that is answered at once, or a worker
      with nothing to do. -/
  | nothing : Step d [] d
  | block {token : UInt32} {sector : Sector} {block : Block} {v : Upload} {job : Option Job} :
      Block.ofSectorFor? sector d.core.config.familyId = .ok block →
      Upload.Accepts d.core.upload block token d.core.config d.core.disk.isFenced v job →
      Step d (d.core.upload.entries block d.core.config d.core.disk.isFenced
          (job.map Job.forUpload))
        { d with core := d.core.afterBlock v job }
  | resetDisk : Step d [.givenUp] { d with core := d.core.resetDisk }
  | setMode (mode : AccessMode) :
      Step d [] { d with core := { d.core with disk := d.core.disk.setMode mode } }
  | latch : Step d [] { d with core := d.core.latchReboot }
  | command {job : Job} : job.listener = some .host → job.source = .control →
      Step d [] { d with core := d.core.withControlJob job }
  | take {origin : Channel} {job : Job} : d.phase = .idle →
      (d.core.slot origin).job = some job → (origin = .control → d.core.disk.job = none) →
      Step d [] { d with
        core := d.core.withSlot origin { d.core.slot origin with job := none }
        phase := .holding origin job }
  | keptOut {origin : Channel} {job : Job} : d.phase = .holding origin job →
      (d.core.slot origin).isFenced = true →
      Step d [.carriedOut { job with result := some .disabled }]
        { d with phase := .done { job with result := some .disabled } }
  | carriedOut {origin : Channel} {job : Job} : d.phase = .holding origin job →
      (d.core.slot origin).isFenced = false →
      Step d [.carriedOut { (d.execute job).2.1 with result := some (d.execute job).2.2 }]
        { (d.execute job).1 with
          phase := .done { (d.execute job).2.1 with result := some (d.execute job).2.2 } }
  | told {job : Job} : d.phase = .done job → job.listener ≠ some .upload →
      Step d [.told job]
        { d with
          phase := .idle
          machine := if job.listener = some .host
            then Machine.perform d.machine (.complete job.response) else d.machine }
  | credited {job : Job} {v : Upload} {request : Option RebootRequest} : d.phase = .done job →
      job.listener = some .upload → d.core.upload.credit job d.core.config = .ok (v, request) →
      Step d [.told job]
        { d with
          phase := .idle
          core := { d.core with upload := v, rebooting := d.core.rebooting || request.isSome }
          machine := Machine.perform
            (match request with
              | some request => Machine.perform d.machine (.reboot request)
              | none => d.machine)
            (.complete job.response) }

/-- The job for a command is for the control channel, and has not run. -/
theorem Core.jobFor_eq_ok {c : Core} {command : Command} {token : UInt32} {job : Job}
    (h : c.jobFor command token = .ok job) :
    job.listener = some .host ∧ job.source = .control ∧ job.result = none := by
  have heffects : ∃ j, c.effectsFor command token = .ok j ∧ j.source = .control
      ∧ j.result = none ∧ job = { j with listener := some .host } := by
    unfold jobFor at h
    cases he : c.effectsFor command token with
    | error e => rw [he] at h; cases h
    | ok j =>
      rw [he] at h
      cases h
      refine ⟨j, rfl, ?_, ?_, rfl⟩ <;> cases command <;>
        simp only [effectsFor, Job.write, Job.read, reduceCtorEq] at he <;>
        (try split at he) <;> cases he <;> rfl
  obtain ⟨j, -, hsource, hresult, rfl⟩ := heffects
  exact ⟨rfl, hsource, hresult⟩

theorem Core.enqueue_control {c : Core} {job : Job} (h : job.result = none) :
    c.enqueue .control job = .ok (c.withControlJob job, c.control.job) := by
  simp only [enqueue, slot, Slot.put, h, Option.isSome_none, Bool.false_eq_true, if_false]
  rfl

/-- The job for a command is left in the slot of the control channel. -/
theorem Core.handle_of_jobFor {c : Core} {command : Command} {token : UInt32} {job : Job}
    (h : c.jobFor command token = .ok job) :
    c.handle command token = .ok (c.withControlJob job, .pending) := by
  have henqueue := enqueue_control (c := c) (jobFor_eq_ok h).2.2
  cases command with
  | getStatus => cases h
  | reboot => cases h
  | writeSector => cases h
  | _ =>
    simp only [handle, h, henqueue]
    rfl

/-- A command that brings no sector is answered at once, or latches a reboot, or
    leaves a job in the slot of the control channel. -/
theorem Core.handle_cases (c : Core) (command : Command) (token : UInt32)
    (hno : ∀ lba data, command ≠ .writeSector lba data) :
    (∃ outcome, c.handle command token = .ok (c, outcome))
    ∨ (∃ outcome, c.handle command token = .ok (c.latchReboot, outcome))
    ∨ ∃ job outcome, c.jobFor command token = .ok job
        ∧ c.handle command token = .ok (c.withControlJob job, outcome) := by
  cases hjob : c.jobFor command token with
  | ok job => exact .inr (.inr ⟨job, _, rfl, handle_of_jobFor hjob⟩)
  | error status =>
    cases command with
    | writeSector lba data => exact absurd rfl (hno lba data)
    | reboot => exact .inr (.inl ⟨_, rfl⟩)
    | getStatus => exact .inl ⟨_, rfl⟩
    | _ =>
      refine .inl ⟨.reply (.ack token status), ?_⟩
      simp only [handle, hjob]

namespace Device

variable {σ : Type} [Machine σ]

theorem sector_step (d : Device σ) (token : UInt32) (sector : Sector) :
    ∃ core queued, d.core.writeSector token sector = .ok (core, queued)
      ∧ d.Step (d.core.entries token sector) { d with core } := by
  obtain ⟨e, -, hwrite, hentries⟩ | ⟨block, v, job, hblock, hcases, hwrite, hentries⟩ :=
    d.core.writeSector_cases token sector
  · rw [hentries]
    exact ⟨_, _, hwrite, .nothing⟩
  · rw [hentries]
    exact ⟨_, _, hwrite, .block hblock hcases⟩

theorem command_step (d : Device σ) (token : UInt32) (command : Command) :
    ∃ core outcome, d.core.handle command token = .ok (core, outcome)
      ∧ d.Step (d.entries (.command token command)) { d with core } := by
  -- A sector in a command goes the way of a sector of the disk, if it has the right length.
  by_cases hsector : ∃ lba data, command = .writeSector lba data
  · obtain ⟨lba, data, rfl⟩ := hsector
    by_cases hsize : data.toArray.size = 512
    · obtain ⟨core, queued, hwrite, hstep⟩ := d.sector_step token ⟨data.toArray, hsize⟩
      have hentries : d.entries (.command token (.writeSector lba data))
          = d.core.entries token ⟨data.toArray, hsize⟩ := by
        simp only [entries, Move.sector?, Sector.ofBytes?, dif_pos hsize, Option.map_some]
      rw [hentries]
      refine ⟨core, if queued then .pending else .reply (.ack token .ok), ?_, hstep⟩
      simp only [Core.handle, dif_pos hsize, hwrite]
      rfl
    · have hentries : d.entries (.command token (.writeSector lba data)) = [] := by
        simp only [entries, Move.sector?, Sector.ofBytes?, dif_neg hsize, Option.map_none]
      rw [hentries]
      refine ⟨d.core, .reply (.ack token .invalidTransferLength), ?_, .nothing⟩
      simp only [Core.handle, dif_neg hsize]
  · have hno : ∀ lba data, command ≠ .writeSector lba data :=
      fun lba data h => hsector ⟨lba, data, h⟩
    have hentries : d.entries (.command token command) = [] := by
      cases command <;> first | rfl | exact absurd rfl (hno _ _)
    rw [hentries]
    obtain ⟨outcome, hhandle⟩ | ⟨outcome, hhandle⟩ | ⟨job, outcome, hjob, hhandle⟩ :=
      d.core.handle_cases command token hno
    · exact ⟨_, _, hhandle, .nothing⟩
    · exact ⟨_, _, hhandle, .latch⟩
    · obtain ⟨hlistener, hsource, -⟩ := Core.jobFor_eq_ok hjob
      exact ⟨_, _, hhandle, .command hlistener hsource⟩

/-! ### What the worker does -/

section takeJob

omit [Machine σ]

variable {d : Device σ}

/-! A worker that is idle takes the job of the disk, if there is one, and else the one of the
    control channel. -/

theorem takeJob_of_busy (h : d.phase ≠ .idle) : d.takeJob = d := by
  unfold takeJob
  split
  · exact absurd ‹_› h
  · rfl

theorem takeJob_of_disk {job : Job} (hphase : d.phase = .idle)
    (hjob : d.core.disk.job = some job) :
    d.takeJob = { d with
      core := { d.core with disk := { d.core.disk with job := none } }
      phase := .holding .disk job } := by
  simp only [takeJob, hphase, Core.dequeue, Core.slot, Slot.take, hjob, Core.withSlot]

theorem takeJob_of_control {job : Job} (hphase : d.phase = .idle) (hdisk : d.core.disk.job = none)
    (hjob : d.core.control.job = some job) :
    d.takeJob = { d with
      core := { d.core with control := { d.core.control with job := none } }
      phase := .holding .control job } := by
  simp only [takeJob, hphase, Core.dequeue, Core.slot, Slot.take, hdisk, hjob, Core.withSlot]

/-- The worker takes a job if it is idle and there is one; the slot of the disk goes
    first. -/
theorem takeJob_cases (d : Device σ) :
    d.takeJob = d ∨ ∃ origin job, d.phase = .idle ∧ (d.core.slot origin).job = some job
      ∧ (origin = .control → d.core.disk.job = none)
      ∧ d.takeJob = { d with
        core := d.core.withSlot origin { d.core.slot origin with job := none }
        phase := .holding origin job } := by
  cases hphase : d.phase with
  | holding origin job => exact .inl (takeJob_of_busy (by simp [hphase]))
  | done job => exact .inl (takeJob_of_busy (by simp [hphase]))
  | idle =>
    cases hdisk : d.core.disk.job with
    | some job => exact .inr ⟨.disk, job, rfl, hdisk, nofun, takeJob_of_disk hphase hdisk⟩
    | none =>
      cases hcontrol : d.core.control.job with
      | some job =>
        exact .inr ⟨.control, job, rfl, hcontrol, fun _ => rfl,
          takeJob_of_control hphase hdisk hcontrol⟩
      | none =>
        refine .inl ?_
        simp only [takeJob, hphase, Core.dequeue, Core.slot, Slot.take, hdisk, hcontrol]

theorem takeJob_of_empty (hdisk : d.core.disk.job = none) (hcontrol : d.core.control.job = none) :
    d.takeJob = d := by
  rcases d.takeJob_cases with hsame | ⟨origin, job, -, hjob, -⟩
  · exact hsame
  · cases origin with
    | disk => exact absurd (hdisk.symm.trans hjob) nofun
    | control => exact absurd (hcontrol.symm.trans hjob) nofun

end takeJob

theorem take_step (d : Device σ) : d.Step [] d.takeJob := by
  rcases d.takeJob_cases with hsame | ⟨origin, job, hphase, hjob, horder, htake⟩
  · rw [hsame]
    exact .nothing
  · rw [htake]
    exact .take hphase hjob horder

/-- The job as it is told of after it was carried out. -/
def doneJob (d : Device σ) (job : Job) : Job :=
  { (d.execute job).2.1 with result := some (d.execute job).2.2 }

section carryOut

variable {d : Device σ} {origin : Channel} {job : Job}

/-! A worker without a job has nothing to carry out. With a job, all depends on the slot that the
    job was in. -/

theorem carryOut_of_idle (hphase : d.phase = .idle) : d.carryOut = d := by
  simp only [carryOut, hphase]

theorem carryOut_of_done (hphase : d.phase = .done job) : d.carryOut = d := by
  simp only [carryOut, hphase]

theorem carryOut_of_fenced (hphase : d.phase = .holding origin job)
    (hfence : (d.core.slot origin).isFenced = true) :
    d.carryOut = { d with phase := .done { job with result := some .disabled } } := by
  simp only [carryOut, hphase, hfence, if_true]

theorem carryOut_of_open (hphase : d.phase = .holding origin job)
    (hopen : (d.core.slot origin).isFenced = false) :
    d.carryOut = { (d.execute job).1 with phase := .done (d.doneJob job) } := by
  simp only [carryOut, hphase, hopen, Bool.false_eq_true, if_false, doneJob]

/-- The job that the worker held is done. -/
theorem carryOut_ne_holding (d : Device σ) (origin : Channel) (job : Job) :
    d.carryOut.phase ≠ .holding origin job := by
  intro hheld
  cases hphase : d.phase with
  | idle =>
    rw [carryOut_of_idle hphase, hphase] at hheld
    cases hheld
  | done job =>
    rw [carryOut_of_done hphase, hphase] at hheld
    cases hheld
  | holding origin job =>
    cases hfence : (d.core.slot origin).isFenced with
    | true =>
      rw [carryOut_of_fenced hphase hfence] at hheld
      cases hheld
    | false =>
      rw [carryOut_of_open hphase hfence] at hheld
      cases hheld

end carryOut

theorem carryOut_step (d : Device σ) : d.Step (d.entries .carryOut) d.carryOut := by
  cases hphase : d.phase with
  | idle =>
    simp only [entries, carryOut_of_idle hphase, hphase]
    exact .nothing
  | done job =>
    simp only [entries, carryOut_of_done hphase, hphase]
    exact .nothing
  | holding origin job =>
    cases hfence : (d.core.slot origin).isFenced with
    | true =>
      simp only [entries, carryOut_of_fenced hphase hfence, hphase]
      exact .keptOut hphase hfence
    | false =>
      simp only [entries, carryOut_of_open hphase hfence, hphase]
      exact .carriedOut hphase hfence

/-- Telling of a job that an upload gets to know of, as well as the host. -/
theorem notify_upload {d : Device σ} {job : Job} {v : Upload} {request : Option RebootRequest}
    (h : job.listener = some .upload) :
    d.core.upload.credit job d.core.config = .ok (v, request) →
    d.notify job = .ok { d with
      core := { d.core with upload := v, rebooting := d.core.rebooting || request.isSome }
      machine := Machine.perform
        (match request with
          | some request => Machine.perform d.machine (.reboot request)
          | none => d.machine)
        (.complete job.response) } := by
  intro hcredit
  simp only [notify, h, hcredit, bind, Except.bind, pure, Except.pure]
  cases request <;> simp [report, scheduleReboot, Core.latchReboot]

section finish

variable {d : Device σ} {origin : Channel} {job : Job}

/-! A worker with no job that is done has nothing to tell. With one, it depends on who waits for
    the job. -/

theorem finish_of_idle (hphase : d.phase = .idle) : d.finish = .ok d := by
  simp only [finish, hphase]

theorem finish_of_holding (hphase : d.phase = .holding origin job) : d.finish = .ok d := by
  simp only [finish, hphase]

theorem finish_of_unheard (hphase : d.phase = .done job) (hlistener : job.listener = none) :
    d.finish = .ok { d with phase := .idle } := by
  simp only [finish, hphase, notify, hlistener]

theorem finish_of_host (hphase : d.phase = .done job) (hlistener : job.listener = some .host) :
    d.finish = .ok { d with
      phase := .idle, machine := Machine.perform d.machine (.complete job.response) } := by
  simp only [finish, hphase, notify, hlistener]
  rfl

theorem finish_of_credit {v : Upload} {request : Option RebootRequest}
    (hphase : d.phase = .done job) (hlistener : job.listener = some .upload) :
    d.core.upload.credit job d.core.config = .ok (v, request) →
    d.finish = .ok { d with
      phase := .idle
      core := { d.core with upload := v, rebooting := d.core.rebooting || request.isSome }
      machine := Machine.perform
        (match request with
          | some request => Machine.perform d.machine (.reboot request)
          | none => d.machine)
        (.complete job.response) } := by
  intro hcredit
  simp only [finish, hphase]
  exact notify_upload (d := { d with phase := .idle }) hlistener hcredit

end finish

theorem finish_step (d : Device σ) (hs : d.core.upload.Sound) :
    ∃ d', d.finish = .ok d' ∧ d.Step (d.entries .finish) d' := by
  cases hphase : d.phase with
  | idle =>
    simp only [entries, hphase]
    exact ⟨_, finish_of_idle hphase, .nothing⟩
  | holding origin job =>
    simp only [entries, hphase]
    exact ⟨_, finish_of_holding hphase, .nothing⟩
  | done job =>
    simp only [entries, hphase]
    cases hlistener : job.listener with
    | none =>
      refine ⟨_, ?_, .told hphase (by simp [hlistener])⟩
      simpa [hlistener] using finish_of_unheard hphase hlistener
    | some listener =>
      cases listener with
      | host =>
        refine ⟨_, ?_, .told hphase (by simp [hlistener])⟩
        simpa [hlistener] using finish_of_host hphase hlistener
      | upload =>
        -- The books are sound, so that the count cannot overflow.
        obtain ⟨v, request, hcredit⟩ := Upload.credit_ok hs job d.core.config
        exact ⟨_, finish_of_credit hphase hlistener hcredit, .credited hphase hlistener hcredit⟩

/-- Every move does one of the things that a step can do, and none of them is a
    fault. -/
theorem move_step (d : Device σ) (hs : d.core.upload.Sound) (m : Move) :
    ∃ d', d.move m = .ok d' ∧ d.Step (d.entries m) d' := by
  cases m with
  | sector token sector =>
    obtain ⟨core, queued, hwrite, hstep⟩ := d.sector_step token sector
    refine ⟨_, ?_, hstep⟩
    simp only [move, hwrite]
    rfl
  | command token command =>
    obtain ⟨core, outcome, hhandle, hstep⟩ := d.command_step token command
    refine ⟨_, ?_, hstep⟩
    simp only [move, hhandle]
    rfl
  | resetDisk => exact ⟨_, rfl, .resetDisk⟩
  | setMode mode => exact ⟨_, rfl, .setMode mode⟩
  | take => exact ⟨_, rfl, d.take_step⟩
  | carryOut => exact ⟨_, rfl, d.carryOut_step⟩
  | finish => exact d.finish_step hs

end Device

/-- A step does not touch the configuration. -/
theorem Device.Step.config {σ : Type} [Machine σ] {d d' : Device σ} {es : Journal}
    (h : d.Step es d') : d'.core.config = d.core.config := by
  cases h with
  | @take origin => cases origin <;> rfl
  | _ => rfl

/-- A step keeps the books of the upload in order. -/
theorem Device.Step.sound {σ : Type} [Machine σ] {d d' : Device σ} {es : Journal}
    (h : d.Step es d') (hs : d.core.upload.Sound) : d'.core.upload.Sound := by
  cases h with
  | block _ hcases => exact hcases.sound hs
  | resetDisk => exact Upload.sound_reset _
  | credited _ _ hcredit =>
    rcases Upload.cases_of_credit hs hcredit with ⟨-, rfl, -⟩ | ⟨-, hcredits⟩
    · exact hs
    · exact hcredits.sound
  | @take origin => cases origin <;> exact hs
  | _ => exact hs

/-! ### Tokens -/

section tokens

@[simp] theorem Journal.tokens_nil : tokens [] = [] := rfl

@[simp] theorem Journal.tokens_cons (e : Entry) (earlier : Journal) :
    tokens (e :: earlier) = e.token?.toList ++ tokens earlier := by
  cases h : e.token? <;> simp [tokens, h]

@[simp] theorem Journal.tokens_append (es earlier : Journal) :
    tokens (es ++ earlier) = tokens es ++ tokens earlier := List.filterMap_append

theorem Upload.tokens_entries {u v : Upload} {block : Block} {token : UInt32} {config : Config}
    {fenced : Bool} {job : Option Job} (h : Accepts u block token config fenced v job) :
    (u.entries block config fenced (job.map Job.forUpload)).tokens.Sublist [token] := by
  cases h with
  | turnedAway haway => simp [entries, haway, Entry.token?]
  | dropped hstay =>
    simp only [entries, hstay, Bool.false_eq_true, if_false]
    split <;> simp [Entry.token?]
  | taken hstay =>
    simp only [entries, hstay, Bool.false_eq_true, if_false]
    split <;> simp [Entry.token?, Job.forUpload, pageJob, Job.idle]

theorem Core.tokens_entries (c : Core) (token : UInt32) (sector : Sector) :
    (c.entries token sector).tokens.Sublist
      ((Move.sector token sector).blockToken? c.config.familyId).toList := by
  obtain ⟨e, hblock, -, hentries⟩ | ⟨block, v, job, hblock, hcases, -, hentries⟩ :=
    c.writeSector_cases token sector
  · simp [hentries]
  · rw [hentries]
    simpa [Move.blockToken?_of_block hblock] using Upload.tokens_entries hcases

variable {σ : Type} [Machine σ]

/-- Only a move that brings a block puts down a new token, and it is that of the
    move. -/
theorem Device.tokens_entries (d : Device σ) (m : Move) :
    (d.entries m).tokens.Sublist (m.blockToken? d.core.config.familyId).toList := by
  cases m with
  | sector token sector => exact d.core.tokens_entries token sector
  | command token command =>
    cases hsector : (Move.command token command).sector? with
    | none => simp [entries, hsector]
    | some p =>
      have hentries : d.entries (.command token command) = d.core.entries p.1 p.2 := by
        simp only [entries, hsector]
      have htoken : (Move.command token command).blockToken? d.core.config.familyId
          = (Move.sector p.1 p.2).blockToken? d.core.config.familyId := by
        simp only [Move.blockToken?, hsector]
        rfl
      rw [hentries, htoken]
      exact d.core.tokens_entries p.1 p.2
  | resetDisk => simp [entries, Entry.token?]
  | setMode mode => simp [entries, Move.sector?]
  | take => simp [entries, Move.sector?]
  | carryOut =>
    simp only [entries]
    split <;> simp [Entry.token?]
  | finish =>
    simp only [entries]
    split <;> simp [Entry.token?]

end tokens

/-! ### Runs -/

/-- A device and its journal. -/
structure Watched (σ : Type) where
  device : Device σ
  journal : Journal

namespace Watched

variable {σ : Type} [Machine σ]

/-- A device that was just made, over sets of an upload that may hold
    anything. -/
def fresh (config : Config) (ramBlocks flashBlocks erasedSectors : IndexSet) (machine : σ) :
    Watched σ :=
  { device := .fresh (.fresh config (.onSets ramBlocks flashBlocks erasedSectors)) machine
    journal := [] }

/-- One move, put down in the journal. -/
def step (w : Watched σ) (m : Move) : Except Fault (Watched σ) := do
  return ⟨← w.device.move m, w.device.entries m ++ w.journal⟩

/-- A sequence of moves. -/
def run (w : Watched σ) (moves : List Move) : Except Fault (Watched σ) := moves.foldlM step w

theorem run_cons (w v : Watched σ) (m : Move) (moves : List Move) (h : w.step m = .ok v) :
    w.run (m :: moves) = v.run moves := by
  simp only [run, List.foldlM_cons, h]
  rfl

theorem run_snoc {w v v' : Watched σ} {m : Move} {moves : List Move} (h : w.run moves = .ok v)
    (hstep : v.step m = .ok v') : w.run (moves ++ [m]) = .ok v' := by
  unfold run
  rw [List.foldlM_append, show moves.foldlM step w = .ok v from h]
  show v.run [m] = .ok v'
  rw [run_cons v v' m [] hstep]
  rfl

/-- What a step of a watched device with sound books is. -/
theorem step_ok (w : Watched σ) (hs : w.device.core.upload.Sound) (m : Move) :
    ∃ d, w.step m = .ok ⟨d, w.device.entries m ++ w.journal⟩
      ∧ w.device.Step (w.device.entries m) d := by
  obtain ⟨d, hmove, hstep⟩ := w.device.move_step hs m
  refine ⟨d, ?_, hstep⟩
  simp only [step, hmove]
  rfl

/-- What a sector with a block does to a watched device. -/
theorem step_block {w : Watched σ} {token : UInt32} {sector : Sector} {block : Block} {v : Upload}
    {job : Option Job}
    (hblock : Block.ofSectorFor? sector w.device.core.config.familyId = .ok block)
    (h : Upload.Accepts w.device.core.upload block token w.device.core.config
      w.device.core.disk.isFenced v job) :
    w.step (.sector token sector) = .ok
      ⟨{ w.device with core := w.device.core.afterBlock v job },
        w.device.core.upload.entries block w.device.core.config w.device.core.disk.isFenced
          (job.map Job.forUpload) ++ w.journal⟩ := by
  have hwrite := Core.writeSector_of_block hblock h.accept_eq h.result
  have hentries : w.device.entries (.sector token sector)
      = w.device.core.upload.entries block w.device.core.config w.device.core.disk.isFenced
        (job.map Job.forUpload) := by
    simp only [Device.entries, Move.sector?, Core.entries, hblock, hwrite]
    cases job <;> rfl
  unfold step
  rw [hentries]
  simp only [Device.move, hwrite]
  rfl

/-- What carrying a job out does to a watched device, if the slot that the job was in
    is open: the job is done, and the device is left as the job left it. -/
theorem step_carriedOut {w : Watched σ} {origin : Channel} {job done : Job} {d : Device σ}
    {status : Status} (hphase : w.device.phase = .holding origin job)
    (hopen : (w.device.core.slot origin).isFenced = false)
    (hexecute : w.device.execute job = (d, done, status)) :
    w.step .carryOut = .ok
      ⟨{ d with phase := .done { done with result := some status } },
        .carriedOut { done with result := some status } :: w.journal⟩ := by
  have hcarry : w.device.carryOut
      = { d with phase := .done { done with result := some status } } := by
    rw [Device.carryOut_of_open hphase hopen, Device.doneJob, hexecute]
  simp only [step, Device.move, hcarry, Device.entries, hphase]
  rfl

/-- What telling of a job of the disk does to a watched device: the job is credited, the
    reboot that it may call for is scheduled, and the host is told. -/
theorem step_told {w : Watched σ} {job : Job} {v : Upload} {request : Option RebootRequest}
    (hphase : w.device.phase = .done job) (hjob : job.listener = some .upload)
    (hcredit : w.device.core.upload.credit job w.device.core.config = .ok (v, request)) :
    w.step .finish = .ok
      ⟨{ w.device with
          phase := .idle
          core := { w.device.core with
            upload := v, rebooting := w.device.core.rebooting || request.isSome }
          machine := Machine.perform
            (Machine.performAll w.device.machine (request.map Call.reboot).toList)
            (.complete job.response) },
        .told job :: w.journal⟩ := by
  have hfinish : w.device.finish = .ok { w.device with
      phase := .idle
      core := { w.device.core with
        upload := v, rebooting := w.device.core.rebooting || request.isSome }
      machine := Machine.perform
        (Machine.performAll w.device.machine (request.map Call.reboot).toList)
        (.complete job.response) } := by
    rw [Device.finish_of_credit hphase hjob hcredit]
    cases request <;> rfl
  simp only [step, Device.move, hfinish, Device.entries, hphase]
  rfl

/-- A run comes to an end if every step does and keeps what the next one
    needs. -/
theorem run_ok {P : Watched σ → Prop} (moves : List Move) {w : Watched σ} (h₀ : P w)
    (hstep : ∀ m ∈ moves, ∀ v, P v → ∃ v', v.step m = .ok v' ∧ P v') :
    ∃ w', w.run moves = .ok w' ∧ P w' := by
  induction moves generalizing w with
  | nil => exact ⟨w, rfl, h₀⟩
  | cons m moves ih =>
    obtain ⟨v, hv, hP⟩ := hstep m List.mem_cons_self w h₀
    obtain ⟨w', hrun, hP'⟩ := ih hP fun m' hm' => hstep m' (List.mem_cons_of_mem m hm')
    exact ⟨w', (run_cons w v m moves hv).trans hrun, hP'⟩

/-- The tokens in the journal of a run come from its moves, each from one of its
    own. -/
theorem tokens_run {moves : List Move} {w w' : Watched σ} (hs : w.device.core.upload.Sound)
    (h : w.run moves = .ok w') :
    w'.journal.tokens.Sublist
      ((moves.filterMap (Move.blockToken? w.device.core.config.familyId)).reverse
        ++ w.journal.tokens) := by
  induction moves generalizing w with
  | nil => cases h; simp
  | cons m moves ih =>
    obtain ⟨d, hstep, hd⟩ := w.step_ok hs m
    rw [run_cons w _ m moves hstep] at h
    -- The journal has the latest first and the moves the earliest, so one of them is reversed.
    have hlater := ih (hd.sound hs) h
    have hnow := w.device.tokens_entries m
    have hmoves : (m :: moves).filterMap (Move.blockToken? w.device.core.config.familyId)
        = (m.blockToken? w.device.core.config.familyId).toList
          ++ moves.filterMap (Move.blockToken? w.device.core.config.familyId) := by
      cases hm : m.blockToken? w.device.core.config.familyId <;> simp [hm]
    have hself : (m.blockToken? w.device.core.config.familyId).toList.reverse
        = (m.blockToken? w.device.core.config.familyId).toList := by
      cases m.blockToken? w.device.core.config.familyId <;> rfl
    simp only [hd.config, Journal.tokens_append] at hlater
    rw [hmoves, List.reverse_append, hself, List.append_assoc]
    exact hlater.trans ((hnow.append_right _).append_left _)

end Watched

end Reflash
