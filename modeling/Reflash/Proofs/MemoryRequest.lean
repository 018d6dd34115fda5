import Reflash.Proofs.CallBounds
import Reflash.Proofs.HostMutation
/-! # What the host asks of memory

  On the control channel the host can read memory, write it, erase flash and change who
  may write. `MemoryRequest` is one of these. How it ends is settled by the table of
  regions alone, as long as the disk has written nothing and no reboot is due: the checks
  that build the job and those that carry it out agree.

  `status` and `calls` say what comes of a request in terms of ranges. `jobFor_of_long`
  says that a request for more than a page leaves no job, and `HostOnly.obeys` what the job
  for any other one does on any machine.
-/

namespace Reflash

/-! ### Requests -/

/-- A command that is about memory. -/
inductive MemoryRequest where
  | read (addr len : UInt32)
  | write (addr : UInt32) (data : Bytes)
  | erase (addr len : UInt32)
  /-- Change who may write. -/
  | access (mode : AccessMode)
deriving DecidableEq

namespace MemoryRequest

/-- The command that a request is sent as. -/
def command : MemoryRequest → Command
  | .read addr len => .read addr len
  | .write addr data => .write addr data
  | .erase addr len => .flashErase addr len
  | .access mode => .exclusiveAccess mode

/-- Whether a page has no room for the bytes. -/
def isLong : MemoryRequest → Bool
  | .read _ len => 256 < len.toNat
  | .write _ data => 256 < data.length
  | .erase .. | .access _ => false

/-- How a request ends, if a page has room for the bytes. -/
def status (map : AddressMap) : MemoryRequest → Status
  | .read addr len => if map.Has addr len.toNat then .ok else .invalidAddress
  | .write addr data =>
    if map.HasIn .ram addr data.length then .ok
    else if map.HasIn .flash addr data.length then
      if addr.toNat % 256 = 0 ∧ data.length % 256 = 0 then .ok else .badAlignment
    else .invalidAddress
  | .erase addr len =>
    if map.HasIn .flash addr len.toNat then
      if 0 < len.toNat ∧ addr.toNat % 4096 = 0 ∧ len.toNat % 4096 = 0 then .ok else .badAlignment
    else .invalidAddress
  | .access _ => .ok

/-- The calls that move the bytes of a request. -/
def moves (map : AddressMap) : MemoryRequest → List Call
  | .read addr len => [.read addr len]
  | .write addr data =>
    if map.HasIn .ram addr data.length then [.writeRam addr data]
    else [.updateFlash ⟨none, some (addr, data)⟩]
  | .erase addr len => [.updateFlash ⟨some ⟨addr, len⟩, none⟩]
  | .access _ => []

/-- The calls that are made for a request, before and after the checks. No byte moves for
    one that does not end well. -/
def calls (map : AddressMap) (r : MemoryRequest) : List Call :=
  (if r = .access .exclusiveAndEject then [.eject] else [])
    ++ if r.status map = .ok then r.moves map else []

/-- The access mode that a request puts the disk in. -/
def mode? : MemoryRequest → Option AccessMode
  | .access mode => some mode
  | _ => none

/-- The answer to a request that ends so, if memory holds these bytes. What could not be
    read is answered with zeros. -/
def response (status : Status) (token : UInt32) (load : UInt32 → UInt32 → Bytes) :
    MemoryRequest → Response
  | .read addr len =>
    .data token status (if status = .ok then load addr len else List.replicate len.toNat 0)
  | _ => .ack token status

/-! ### The job for a request -/

variable {c : Core} {token : UInt32} {r : MemoryRequest}

/-- There is no job for a request for more than a page. -/
theorem jobFor_of_long (h : r.isLong = true) :
    c.jobFor r.command token = .error .invalidTransferLength := by
  cases r with
  | read addr len =>
    have hlong : ¬ len ≤ 256 := by
      intro hle
      exact absurd (of_decide_eq_true h) (Nat.not_lt.mpr (UInt32.le_iff_toNat_le.mp hle))
    simp only [command, Core.jobFor, Core.effectsFor, Job.read, if_neg hlong]
    rfl
  | write addr data =>
    have hlong : ¬ data.length ≤ 256 := Nat.not_le.mpr (of_decide_eq_true h)
    simp only [command, Core.jobFor, Core.effectsFor, Job.write, if_neg hlong]
    rfl
  | erase | access => cases h

/-- Such a request is answered at once, and nothing comes of it. -/
theorem handle_of_long (h : r.isLong = true) :
    c.handle r.command token = .ok (c, .reply (.ack token .invalidTransferLength)) := by
  have hjob : c.jobFor r.command token = .error .invalidTransferLength := jobFor_of_long h
  cases r with
  | erase | access => cases h
  | read | write =>
    simp only [command] at hjob ⊢
    simp only [Core.handle, hjob]

/-- The job for any other request. -/
def job (c : Core) (token : UInt32) : MemoryRequest → Job
  | .read addr len =>
    { Job.idle .control token with
      transfer := some .read, addr, length := len, listener := some .host }
  | .write addr data =>
    { Job.idle .control token with
      transfer := some .write, addr, length := UInt32.ofNat data.length
      data := Job.overlay (Vector.replicate 256 0) data
      exitXip := (c.config.map.findOf? .flash addr (UInt32.ofNat data.length)).isSome
      guarded := !c.disk.isFenced, listener := some .host }
  | .erase addr len =>
    { Job.idle .control token with
      erase := some ⟨addr, len⟩, exitXip := true, guarded := !c.disk.isFenced
      listener := some .host }
  | .access mode => { Job.idle .control token with access := some mode, listener := some .host }

theorem jobFor_of_short (h : r.isLong = false) :
    c.jobFor r.command token = .ok (r.job c token) := by
  cases r with
  | read addr len =>
    have hshort : len ≤ 256 := UInt32.le_iff_toNat_le.mpr (Nat.not_lt.mp (of_decide_eq_false h))
    simp only [command, Core.jobFor, Core.effectsFor, Job.read, if_pos hshort]
    rfl
  | write addr data =>
    have hshort : data.length ≤ 256 := Nat.not_lt.mp (of_decide_eq_false h)
    simp only [command, Core.jobFor, Core.effectsFor, Job.write, if_pos hshort, Except.map,
      Core.prepareMutation, job, Job.idle, Bool.false_or]
  | erase addr len =>
    simp only [command, Core.jobFor, Core.effectsFor, Except.map, Core.prepareMutation,
      Job.eraseFlash, job, Job.idle, Bool.true_or, Bool.false_or]
  | access mode => rfl

/-! ### The plan of the job -/

end MemoryRequest

namespace Job

variable {job : Job} {lastWriter : Option Channel}

/-- A page starts with the bytes that were laid over it. -/
theorem take_overlay (old : Page) {bytes : Bytes} (h : bytes.length ≤ 256) :
    (overlay old bytes).toList.take bytes.length = bytes := by
  unfold overlay
  rw [Vector.toList_mk, List.take_of_length_le h, List.take_left']
  rfl

/-- Nothing from the control channel is refused as long as the disk was not the last to
    write. -/
theorem isRefused_of_control (hsource : job.source = .control)
    (hwriter : lastWriter ≠ some .disk) : job.isRefused lastWriter = false := by
  unfold isRefused
  rw [hsource]
  cases lastWriter with
  | none => simp
  | some writer =>
    cases writer with
    | disk => exact absurd rfl hwriter
    | control => simp

/-- A job that is not refused moves its bytes if all its ranges are fit. -/
theorem plan_of_fit {map : AddressMap} {moves : List Call}
    (hopen : job.isRefused lastWriter = false) (hchecked : job.checkedMoves map = .ok moves) :
    job.plan map false lastWriter =
      { status := .ok, calls := job.openingCalls ++ moves, access := job.access
        lastWriter := if job.isMutation then some job.source else lastWriter } := by
  simp only [plan, hopen, hchecked, Bool.false_eq_true, if_false]

/-- A job that is not refused moves no byte if one of its ranges is unfit. -/
theorem plan_of_unfit {map : AddressMap} {status : Status}
    (hopen : job.isRefused lastWriter = false) (hchecked : job.checkedMoves map = .error status) :
    job.plan map false lastWriter =
      { status, calls := job.openingCalls, access := job.access
        lastWriter := if job.isMutation then some job.source else lastWriter } := by
  simp only [plan, hopen, hchecked, Bool.false_eq_true, if_false]

/-- A job that only erases is checked for what it erases. -/
theorem checkedMoves_of_no_transfer (map : AddressMap) {range : EraseRange}
    (herase : job.erase = some range) (htransfer : job.transfer = none) :
    job.checkedMoves map = (checkErase map job.exitXip range).map
      fun checked => [.updateFlash ⟨some checked, none⟩] := by
  have htarget : job.target map = .ok .nowhere := by simp only [target, htransfer]
  unfold checkedMoves
  rw [herase, htarget]
  cases hcheck : checkErase map job.exitXip range with
  | error status =>
    simp only [Option.mapM_some, hcheck]
    rfl
  | ok checked =>
    simp only [Option.mapM_some, hcheck]
    rfl

/-- A job that erases nothing is only checked for where its bytes go. -/
theorem checkedMoves_of_no_erase (map : AddressMap) (h : job.erase = none) :
    job.checkedMoves map = (job.target map).map (job.moves none) := by
  unfold checkedMoves
  rw [h]
  cases job.target map <;> rfl

end Job

namespace MemoryRequest

variable {c : Core} {token : UInt32} {r : MemoryRequest} {lastWriter : Option Channel}

theorem toNat_length {data : Bytes} (h : data.length ≤ 256) :
    (UInt32.ofNat data.length).toNat = data.length :=
  UInt32.toNat_ofNat_of_lt' (Nat.lt_of_le_of_lt h (by decide))

/-- The job for bytes has these bytes. -/
theorem payload_job {addr : UInt32} {data : Bytes} (hroom : data.length ≤ 256) :
    (MemoryRequest.job c token (.write addr data)).payload = data := by
  show (Job.overlay (Vector.replicate 256 0) data).toList.take
    (UInt32.ofNat data.length).toNat = data
  rw [toNat_length hroom, Job.take_overlay _ hroom]

/-- The job for bytes may touch flash just when they belong there, so that nothing but the
    ranges counts. -/
theorem target_job {addr : UInt32} {data : Bytes} (hroom : data.length ≤ 256) :
    (MemoryRequest.job c token (.write addr data)).target c.config.map =
      if c.config.map.HasIn .ram addr data.length then .ok .ram
      else if c.config.map.HasIn .flash addr data.length then
        if addr.toNat % 256 = 0 ∧ data.length % 256 = 0 then .ok .flash
        else .error .badAlignment
      else .error .invalidAddress := by
  have hlength := toNat_length hroom
  have hroom' : (MemoryRequest.job c token (.write addr data)).length.toNat ≤ 256 := by
    show (UInt32.ofNat data.length).toNat ≤ 256
    rw [hlength]
    exact hroom
  have hxip : (MemoryRequest.job c token (.write addr data)).exitXip = true
      ↔ c.config.map.HasIn .flash addr data.length := by
    rw [← hlength]
    exact AddressMap.isSome_findOf?
  rw [Job.target_of_write rfl hroom' c.config.map]
  show (if c.config.map.HasIn .ram addr (UInt32.ofNat data.length).toNat then _
    else if _ ∧ c.config.map.HasIn .flash addr (UInt32.ofNat data.length).toNat then
      if addr.toNat % 256 = 0 ∧ (UInt32.ofNat data.length).toNat % 256 = 0 then _ else _
    else _) = _
  simp only [hlength, hxip, and_self]

/-- What is checked when the job for a request is carried out comes to the same as what a
    request is checked for. -/
theorem checkedMoves_job (c : Core) (token : UInt32) (h : r.isLong = false) :
    (r.job c token).checkedMoves c.config.map =
      if r.status c.config.map = .ok then .ok (r.moves c.config.map)
      else .error (r.status c.config.map) := by
  cases r with
  | access mode => rfl
  | read addr len =>
    have hroom : len.toNat ≤ 256 := Nat.not_lt.mp (of_decide_eq_false h)
    have htarget : (MemoryRequest.job c token (.read addr len)).target c.config.map =
        if c.config.map.Has addr len.toNat then .ok .page else .error .invalidAddress :=
      Job.target_of_read rfl hroom c.config.map
    rw [Job.checkedMoves_of_no_erase _ rfl, htarget]
    by_cases hhas : c.config.map.Has addr len.toNat
    · simp only [status, if_pos hhas]
      rfl
    · simp only [status, if_neg hhas]
      rfl
  | write addr data =>
    have hroom : data.length ≤ 256 := Nat.not_lt.mp (of_decide_eq_false h)
    have hpayload : (MemoryRequest.job c token (.write addr data)).payload = data :=
      payload_job hroom
    rw [Job.checkedMoves_of_no_erase _ rfl, target_job hroom]
    by_cases hram : c.config.map.HasIn .ram addr data.length
    · have hmoves : (MemoryRequest.job c token (.write addr data)).moves none .ram
          = [.writeRam addr data] := congrArg (fun bytes => [Call.writeRam addr bytes]) hpayload
      simp only [status, moves, if_pos hram, Except.map, hmoves, if_true]
    · have hmoves : (MemoryRequest.job c token (.write addr data)).moves none .flash
          = [.updateFlash ⟨none, some (addr, data)⟩] :=
        congrArg (fun bytes => [Call.updateFlash ⟨none, some (addr, bytes)⟩]) hpayload
      simp only [status, moves, if_neg hram]
      by_cases hflash : c.config.map.HasIn .flash addr data.length
      · simp only [if_pos hflash]
        by_cases haligned : addr.toNat % 256 = 0 ∧ data.length % 256 = 0
        · simp only [if_pos haligned, Except.map, hmoves, if_true]
        · simp only [if_neg haligned]
          rfl
      · simp only [if_neg hflash]
        rfl
  | erase addr len =>
    have hcheck := Job.checkErase_eq c.config.map true ⟨addr, len⟩
    simp only [true_and] at hcheck
    rw [Job.checkedMoves_of_no_transfer _ rfl rfl, show (MemoryRequest.job c token
      (.erase addr len)).exitXip = true from rfl, hcheck]
    by_cases hflash : c.config.map.HasIn .flash addr len.toNat
    · by_cases haligned : 0 < len.toNat ∧ addr.toNat % 4096 = 0 ∧ len.toNat % 4096 = 0
      · simp only [status, moves, not_true, if_pos haligned, hflash, if_false, if_true]
        rfl
      · simp only [status, not_true, if_neg haligned, hflash, if_false, if_true]
        rfl
    · simp only [status, hflash, not_false_eq_true, if_true, if_false]
      rfl

/-- Once it was carried out, the job is answered as the request is. -/
theorem response_job {σ : Type} [Machine σ] (c : Core) (token : UInt32) (h : r.isLong = false)
    {p : Job.Plan} {status : Status} (hstatus : p.status = status) (after : σ) :
    ({ (r.job c token).carriedOut p after with result := some status } : Job).response
      = r.response status token (Machine.load after) := by
  cases r with
  | write | erase | access =>
    -- These jobs read nothing.
    simp only [Job.carriedOut, Job.Plan.reads, job, Job.idle, Option.some.injEq, reduceCtorEq,
      decide_false, Bool.and_false, Bool.false_eq_true, if_false]
    rfl
  | read addr len =>
    have hroom : len.toNat ≤ 256 := Nat.not_lt.mp (of_decide_eq_false h)
    have hloaded : (Machine.load after addr len).length = len.toNat :=
      Machine.length_load after addr len
    by_cases hok : status = .ok
    · have hreads : p.reads (MemoryRequest.job c token (.read addr len)) = true := by
        simp only [Job.Plan.reads, hstatus, hok]
        rfl
      have hpage : (Job.overlay (Vector.replicate 256 0) (Machine.load after addr len)).toList.take
          len.toNat = Machine.load after addr len := by
        rw [← hloaded]
        exact Job.take_overlay _ (by rw [hloaded]; exact hroom)
      simp only [Job.carriedOut, hreads, if_true, response, hok]
      show Response.readBack token .ok ((Job.overlay (Vector.replicate 256 0)
        (Machine.load after addr len)).toList.take len.toNat) = _
      rw [hpage, Response.readBack, List.take_of_length_le (by rw [hloaded]; exact hroom)]
    · have hreads : p.reads (MemoryRequest.job c token (.read addr len)) = false := by
        simp only [Job.Plan.reads, hstatus, hok, decide_false, Bool.false_and]
      simp only [Job.carriedOut, hreads, Bool.false_eq_true, if_false, response, hok]
      show Response.readBack token status ((Vector.replicate 256 0).toList.take len.toNat) = _
      rw [Vector.toList_replicate, List.take_replicate, Nat.min_eq_left hroom, Response.readBack,
        List.take_of_length_le]
      rw [List.length_replicate]
      exact hroom

/-- The plan of the job for a request. -/
theorem plan_job (c : Core) (token : UInt32) (h : r.isLong = false)
    (hwriter : lastWriter ≠ some .disk) :
    (r.job c token).plan c.config.map false lastWriter =
      { status := r.status c.config.map, calls := r.calls c.config.map, access := r.mode?
        lastWriter := if (r.job c token).isMutation then some .control else lastWriter } := by
  have hsource : (r.job c token).source = .control := by cases r <;> rfl
  have haccess : (r.job c token).access = r.mode? := by cases r <;> rfl
  have hopening : (r.job c token).openingCalls
      = if r = .access .exclusiveAndEject then [.eject] else [] := by
    cases r with
    | access mode => cases mode <;> rfl
    | _ => rfl
  have hopen := Job.isRefused_of_control hsource hwriter
  have hchecked := checkedMoves_job c token h
  unfold calls
  by_cases hok : r.status c.config.map = .ok
  · rw [if_pos hok] at hchecked
    rw [Job.plan_of_fit hopen hchecked, hopening, haccess, hsource, if_pos hok, hok]
  · rw [if_neg hok] at hchecked
    rw [Job.plan_of_unfit hopen hchecked, hopening, haccess, hsource, if_neg hok, List.append_nil]

end MemoryRequest

/-! ### Carrying a request out -/

namespace Device

variable {σ : Type} [Machine σ] {d : Device σ} {command : Command} {token : UInt32} {job : Job}
  {r : MemoryRequest}

theorem notify_host (d : Device σ) (h : job.listener = some .host) :
    d.notify job = .ok (d.report job) := by simp only [notify, h]

/-- It carries the job out and tells the host. -/
theorem Settled.finish_control (h : d.Settled) (hjob : d.core.jobFor command token = .ok job) :
    ({ d with core := d.core.withControlJob job } : Device σ).takeJob.carryOut.finish
      = .ok ((d.execute job).1.report (d.doneJob job)) := by
  have hlistener : (d.doneJob job).listener = some .host :=
    (Watched.listener_execute d job).trans (Core.jobFor_eq_ok hjob).1
  have hopen : (d.core.slot .control).isFenced = false := by
    show d.core.control.isFenced = false
    rw [h.control]
    rfl
  rw [h.takeJob_control,
    carryOut_of_open (d := { d with phase := .holding .control job }) rfl hopen]
  obtain ⟨core, phase, lastWriter, machine⟩ := d
  obtain rfl : phase = .idle := h.phase
  exact notify_host _ hlistener

theorem Settled.poll_control (h : d.Settled) (hjob : d.core.jobFor command token = .ok job) :
    ({ d with core := d.core.withControlJob job } : Device σ).poll
      = .ok ((d.execute job).1.report (d.doneJob job), true) := by
  have hbusy : ({ d with core := d.core.withControlJob job } : Device σ).takeJob.phase ≠ .idle := by
    rw [h.takeJob_control]
    exact Phase.noConfusion
  rw [poll_of_busy hbusy]
  exact congrArg (Except.map _) (h.finish_control hjob)

/-- Nothing is going on, no reboot is due, and the disk was not the last to write. -/
structure HostOnly (d : Device σ) : Prop extends d.Settled where
  awake : d.core.rebooting = false
  writer : d.lastWriter ≠ some .disk

/-- The job for a request does to any machine what the request asks for, and is answered as
    the request is. -/
theorem HostOnly.execute_job (h : d.HostOnly) (hshort : r.isLong = false) (token : UInt32) :
    (d.execute (r.job d.core token)).1.HostOnly
      ∧ (d.execute (r.job d.core token)).1.core.config = d.core.config
      ∧ (d.execute (r.job d.core token)).1.machine
        = Machine.performAll d.machine (r.calls d.core.config.map)
      ∧ (d.doneJob (r.job d.core token)).response
        = r.response (r.status d.core.config.map) token
          (Machine.load (Machine.performAll d.machine (r.calls d.core.config.map))) := by
  let writer := if (r.job d.core token).isMutation then some .control else d.lastWriter
  have hplan : (r.job d.core token).plan d.core.config.map d.core.rebooting d.lastWriter
      = ⟨r.status d.core.config.map, r.calls d.core.config.map, r.mode?, writer⟩ := by
    rw [h.awake]
    exact MemoryRequest.plan_job d.core token hshort h.writer
  have hwriter : writer ≠ some .disk := by
    simp only [writer]
    split
    · exact nofun
    · exact h.writer
  refine ⟨⟨⟨h.phase, ?_, h.control⟩, h.awake, ?_⟩, rfl, ?_, ?_⟩
  · exact (Watched.disk_execute d _).trans h.disk
  · simp only [execute, hplan]
    exact hwriter
  · simp only [execute, hplan]
  · simp only [doneJob, execute, hplan]
    exact MemoryRequest.response_job d.core token hshort rfl _

end Device

end Reflash
