import Reflash.Job.Plan
import Reflash.Slot
/-! # The device core

  The device core is shared by two sides. Producers run in interrupts: they take
  sectors and commands and leave jobs in the two slots. The worker takes a job
  out of a slot, carries it out and tells those who wait for it; the slot of the
  disk comes first. A producer may run between any two of these three steps, so
  they are three operations here: `takeJob`, `carryOut`, `finish`. One after the
  other they make up `poll`.
-/

namespace Reflash

/-! ### Shared state -/

/-- What the producers and the worker share. -/
structure Core where
  config : Config
  disk : Slot
  control : Slot
  upload : Upload
  /-- A reboot is due. Once set it stays so. -/
  rebooting : Bool
deriving DecidableEq, Inhabited

namespace Core

/-- A core with nothing going on. -/
def fresh (config : Config) (upload : Upload) : Core :=
  { config, disk := .empty, control := .empty, upload, rebooting := false }

/-- The slot of a party. -/
def slot (c : Core) : Channel → Slot
  | .disk => c.disk
  | .control => c.control

/-- The core with another slot for a party. -/
def withSlot (c : Core) (channel : Channel) (s : Slot) : Core :=
  match channel with
  | .disk => { c with disk := s }
  | .control => { c with control := s }

/-- Leave a job in a slot, and give back the one that it displaces. -/
def enqueue (c : Core) (channel : Channel) (job : Job) : Except Fault (Core × Option Job) := do
  let (s, displaced) ← (c.slot channel).put job
  return (c.withSlot channel s, displaced)

/-- Take the job out of a slot. -/
def dequeue (c : Core) (channel : Channel) : Core × Option Job :=
  let (s, job) := (c.slot channel).take
  (c.withSlot channel s, job)

/-- From now on a reboot is due. -/
def latchReboot (c : Core) : Core := { c with rebooting := true }

/-! ### Sectors -/

/-- A sector is written to the disk. The answer says whether a job was left for
    it; if not, the sector is dealt with. -/
def writeSector (c : Core) (token : UInt32) (sector : Sector) : Except Fault (Core × Bool) :=
  match Block.ofSectorFor? sector c.config.familyId with
  | .error _ => .ok (c, false)
  | .ok block => do
    let (upload, job) ← c.upload.accept block token c.config c.disk.isFenced
    let c := { c with upload }
    match job with
    | none => return (c, false)
    | some job =>
      let (c, _) ← c.enqueue .disk { job with listener := some .upload }
      return (c, true)

/-- The bus of the disk was reset: the upload is given up. -/
def resetDisk (c : Core) : Core := { c with upload := c.upload.reset }

/-! ### Commands -/

/-- What becomes of a command. -/
inductive Outcome where
  /-- It is answered at once. -/
  | reply (response : Response)
  /-- It is answered when its job is done. -/
  | pending
  /-- It is acknowledged, then the chip reboots. -/
  | reboot (request : RebootRequest)
deriving DecidableEq, Inhabited

/-- What is told about the device. -/
def statusResponse (c : Core) : Response :=
  .status c.upload.status c.disk.fence c.rebooting

/-- A mutation from the control channel may touch flash if it is meant to, and
    is guarded unless the disk is fenced off. -/
def prepareMutation (c : Core) (job : Job) (addr len : UInt32) : Job :=
  { job with
    exitXip := job.exitXip || (c.config.map.findOf? .flash addr len).isSome
    guarded := job.guarded || !c.disk.isFenced }

/-- The effects that a command asks for. A command that needs no job has none,
    and neither has one whose payload is too long. -/
def effectsFor (c : Core) (command : Command) (token : UInt32) : Except Status Job :=
  match command with
  | .exclusiveAccess mode => .ok (Job.changeAccess .control token mode)
  | .exec addr => .ok (Job.call .control token addr)
  | .read addr len => Job.read .control token addr len
  | .write addr data =>
    (Job.write .control token addr data).map fun job =>
      c.prepareMutation job addr (UInt32.ofNat data.length)
  | .flashErase addr len =>
    .ok (c.prepareMutation (Job.eraseFlash .control token addr len) addr len)
  | .getStatus | .reboot _ | .writeSector .. => .error .invalidTransferLength

/-- The job for a command: its effects, and the host is told when it is done. -/
def jobFor (c : Core) (command : Command) (token : UInt32) : Except Status Job :=
  (c.effectsFor command token).map fun job => { job with listener := some .host }

/-- Deal with a command. -/
def handle (c : Core) (command : Command) (token : UInt32) : Except Fault (Core × Outcome) :=
  match command with
  | .getStatus => .ok (c, .reply c.statusResponse)
  | .reboot request => .ok (c.latchReboot, .reboot request)
  | .writeSector _ data =>
    if h : data.toArray.size = 512 then do
      let (c, queued) ← c.writeSector token ⟨data.toArray, h⟩
      return (c, if queued then .pending else .reply (.ack token .ok))
    else .ok (c, .reply (.ack token .invalidTransferLength))
  | _ =>
    match c.jobFor command token with
    | .error status => .ok (c, .reply (.ack token status))
    | .ok job => do
      let (c, _) ← c.enqueue .control job
      return (c, .pending)

end Core

/-! ### The worker -/

/-- What the worker is doing. -/
inductive Phase where
  | idle
  /-- It holds a job from a slot. -/
  | holding (origin : Channel) (job : Job)
  /-- The job is done, and nobody has been told. -/
  | done (job : Job)
deriving DecidableEq, Inhabited

/-- A device: what is shared, the worker, and the machine that the worker acts
    on. -/
structure Device (σ : Type) where
  core : Core
  phase : Phase
  /-- The party that mutated memory last. -/
  lastWriter : Option Channel
  machine : σ
deriving Inhabited

namespace Device

variable {σ : Type} [Machine σ]

/-- A device whose worker has done nothing. -/
def fresh (core : Core) (machine : σ) : Device σ :=
  { core, phase := .idle, lastWriter := none, machine }

/-- An idle worker takes a job, from the disk if there is one there. -/
def takeJob (d : Device σ) : Device σ :=
  match d.phase with
  | .idle =>
    match d.core.dequeue .disk with
    | (core, some job) => { d with core, phase := .holding .disk job }
    | (_, none) =>
      match d.core.dequeue .control with
      | (core, some job) => { d with core, phase := .holding .control job }
      | (_, none) => d
  | _ => d

/-- Carry out a job. Its result is part of the answer, and what it read. -/
def execute (d : Device σ) (job : Job) : Device σ × Job × Status :=
  let p := job.plan d.core.config.map d.core.rebooting d.lastWriter
  let machine := Machine.performAll d.machine p.calls
  let disk := match p.access with
    | some mode => d.core.disk.setMode mode
    | none => d.core.disk
  ({ d with core := { d.core with disk }, lastWriter := p.lastWriter, machine },
    job.carriedOut p machine, p.status)

/-- The worker carries out the job it holds, unless its slot is fenced off. -/
def carryOut (d : Device σ) : Device σ :=
  match d.phase with
  | .holding origin job =>
    if (d.core.slot origin).isFenced then
      { d with phase := .done { job with result := some .disabled } }
    else
      let (d, job, status) := d.execute job
      { d with phase := .done { job with result := some status } }
  | _ => d

/-- Latch the reboot and ask the machine for it. -/
def scheduleReboot (d : Device σ) (request : RebootRequest) : Device σ :=
  { d with core := d.core.latchReboot, machine := Machine.perform d.machine (.reboot request) }

/-- Report a finished job to the host. -/
def report (d : Device σ) (job : Job) : Device σ :=
  { d with machine := Machine.perform d.machine (.complete job.response) }

/-- Tell those who wait for a finished job. -/
def notify (d : Device σ) (job : Job) : Except Fault (Device σ) :=
  match job.listener with
  | none => .ok d
  | some .host => .ok (d.report job)
  | some .upload => do
    let (upload, request) ← d.core.upload.credit job d.core.config
    let d := { d with core := { d.core with upload } }
    let d := match request with
      | some request => d.scheduleReboot request
      | none => d
    return d.report job

/-- The worker tells those who wait for the job it has done. -/
def finish (d : Device σ) : Except Fault (Device σ) :=
  match d.phase with
  | .done job => { d with phase := .idle }.notify job
  | _ => .ok d

/-- The worker deals with one job, if there is one, and says whether there
    was. -/
def poll (d : Device σ) : Except Fault (Device σ × Bool) :=
  match d.takeJob with
  | { phase := .idle, .. } => .ok (d, false)
  | d => do return (← d.carryOut.finish, true)

end Device

end Reflash
