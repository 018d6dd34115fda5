import Reflash.Proofs.CheckOrder
/-! # Who wrote last

  The worker remembers one thing from job to job: which party mutated memory last. A guarded
  mutation is refused if that was the other one. What is remembered changes in the middle of
  the checks, after the guard and before the addresses: a mutation that the guard lets
  through counts even if its addresses are unfit and no byte of it moves.

  A `Logbook` follows a worker over any number of jobs and puts down what became of each.
  `Logbook.Faithful` says that the one thing that the worker remembers is what the whole
  history comes to. Jobs, and the device around them, may be anything at each turn.
-/

namespace Reflash

/-! ### The guard among the other checks -/

namespace Job

variable {job : Job} {map : AddressMap} {rebooting : Bool} {lastWriter : Option Channel}

/-- No range of a job is found unfit for an interleaved write. -/
theorem Check.status_of_mem_ofRanges :
    ∀ c ∈ Check.ofRanges, c.status ≠ .interleavedWrite := by
  decide

/-- A job is refused for an interleaved write if the guard has something against it and no
    reboot is due. -/
theorem status_plan_eq_interleavedWrite :
    (job.plan map rebooting lastWriter).status = .interleavedWrite
      ↔ ¬ job.Fails map rebooting lastWriter .reboot
        ∧ job.Fails map rebooting lastWriter .interleave := by
  rw [plan_eq]
  simp only [firstFailed, Check.inOrder, elim_find?_cons, decide_eq_true_eq]
  by_cases hdue : job.Fails map rebooting lastWriter .reboot
  · simp [hdue, Check.status]
  · by_cases hrefused : job.Fails map rebooting lastWriter .interleave
    · simp [hdue, hrefused, Check.status]
    · -- The checks of the ranges are left, and none of them is the guard.
      cases hfailed : Check.ofRanges.find? fun c => job.Fails map rebooting lastWriter c with
      | none => simp [hdue, hrefused]
      | some c =>
        have hstatus := Check.status_of_mem_ofRanges c (List.mem_of_find?_eq_some hfailed)
        simp [hdue, hrefused, hstatus]

/-- A mutation is what erases or writes. -/
theorem isMutation_iff : job.isMutation = true ↔ job.erase ≠ none ∨ job.transfer = some .write := by
  rw [isMutation, Bool.or_eq_true, decide_eq_true_eq, Option.isSome_iff_ne_none]

/-- A mutation is remembered unless it is refused or a reboot is due, however it ends. -/
theorem lastWriter_plan :
    (job.plan map rebooting lastWriter).lastWriter =
      if (job.erase ≠ none ∨ job.transfer = some .write) ∧ rebooting = false
          ∧ (job.plan map rebooting lastWriter).status ≠ .interleavedWrite
        then some job.source else lastWriter := by
  have hpasses : job.isMutation = true ∧ ¬ job.Fails map rebooting lastWriter .reboot
        ∧ ¬ job.Fails map rebooting lastWriter .interleave
      ↔ (job.erase ≠ none ∨ job.transfer = some .write) ∧ rebooting = false
        ∧ (job.plan map rebooting lastWriter).status ≠ .interleavedWrite := by
    have hreboot : job.Fails map rebooting lastWriter .reboot ↔ rebooting = true := Iff.rfl
    rw [← isMutation_iff, ne_eq, status_plan_eq_interleavedWrite, hreboot, Bool.not_eq_true]
    tauto
  rw [← if_congr hpasses rfl rfl, plan_eq]

end Job

/-! ### The logbook -/

/-- A job for the worker, and the device as it is at that time. -/
structure Turn (σ : Type) where
  device : Device σ
  job : Job

/-- What became of a job. -/
structure Attempt where
  job : Job
  /-- A reboot was due. -/
  rebooting : Bool
  status : Status

/-- The job was to erase or to write, no reboot was due, and the guard did not refuse it. -/
def Attempt.Passed (a : Attempt) : Prop :=
  (a.job.erase ≠ none ∨ a.job.transfer = some .write)
    ∧ a.rebooting = false ∧ a.status ≠ .interleavedWrite

instance (a : Attempt) : Decidable a.Passed := inferInstanceAs (Decidable (_ ∧ _ ∧ _))

/-- What a worker remembers, and what became of all its jobs. -/
structure Logbook where
  /-- The party that mutated memory last, as the worker remembers it. -/
  lastWriter : Option Channel
  /-- The jobs so far, the latest first. -/
  past : List Attempt

namespace Logbook

variable {σ : Type} [Machine σ]

/-- The logbook of a worker that has done nothing. -/
def empty : Logbook := ⟨none, []⟩

/-- The worker of the logbook carries out the job of a turn. -/
def execute (b : Logbook) (t : Turn σ) : Device σ × Job × Status :=
  Device.execute { t.device with lastWriter := b.lastWriter } t.job

/-- What becomes of the job of a turn. -/
def attempt (b : Logbook) (t : Turn σ) : Attempt :=
  ⟨t.job, t.device.core.rebooting, (b.execute t).2.2⟩

/-- The logbook after one more job. -/
def note (b : Logbook) (t : Turn σ) : Logbook :=
  ⟨(b.execute t).1.lastWriter, b.attempt t :: b.past⟩

/-- The logbook of a worker that has done some jobs. -/
def after (turns : List (Turn σ)) : Logbook := turns.foldl note empty

/-- Who made the latest mutation that the guard let through. -/
def latestWriter (b : Logbook) : Option Channel :=
  (b.past.find? fun a => a.Passed).map fun a => a.job.source

/-- The worker remembers what the history comes to. -/
def Faithful (b : Logbook) : Prop := b.lastWriter = b.latestWriter

variable {b : Logbook} (t : Turn σ)

/-- What a worker remembers after a job. -/
theorem lastWriter_execute : (b.execute t).1.lastWriter =
    if (b.attempt t).Passed then some t.job.source else b.lastWriter :=
  Job.lastWriter_plan

/-- When a job is refused by the guard. -/
theorem status_execute_eq_interleavedWrite :
    (b.execute t).2.2 = .interleavedWrite
      ↔ t.device.core.rebooting = false
        ∧ (t.job.erase ≠ none ∨ t.job.transfer = some .write) ∧ t.job.guarded = true
        ∧ ∃ writer ∈ b.lastWriter, writer ≠ t.job.source := by
  rw [← Bool.not_eq_true, ← Job.isMutation_iff]
  exact Job.status_plan_eq_interleavedWrite

theorem latestWriter_note : (b.note t).latestWriter =
    if (b.attempt t).Passed then some t.job.source else b.latestWriter := by
  by_cases hpassed : (b.attempt t).Passed
  · rw [if_pos hpassed]
    simp only [latestWriter, note, List.find?_cons, hpassed, decide_true, Option.map_some]
    rfl
  · rw [if_neg hpassed]
    simp only [latestWriter, note, List.find?_cons, hpassed, decide_false]

/-- One more job leaves a logbook faithful. -/
theorem Faithful.note (h : b.Faithful) : (b.note t).Faithful := by
  have hremembered : (b.note t).lastWriter =
      if (b.attempt t).Passed then some t.job.source else b.lastWriter := lastWriter_execute t
  rw [Faithful, hremembered, latestWriter_note, h]

/-- The logbook of every worker is faithful. -/
theorem faithful_after (turns : List (Turn σ)) : (after turns).Faithful := by
  induction turns using List.reverseRecOn with
  | nil => rfl
  | append_singleton turns t ih =>
    rw [after, List.foldl_concat]
    exact ih.note t

/-- The guard follows the history of a worker, however long it is and whatever the jobs and
    the device are at each turn. What is remembered is the source of the latest job that was
    to erase or to write, for which no reboot was due and which was not refused. A guarded
    job that is to erase or to write is refused exactly if no reboot is due and that source
    is the other party. And nothing changes what is remembered but such a job that is let
    through, which does so even if its addresses are unfit. -/
theorem guard_follows_history (turns : List (Turn σ)) (t : Turn σ) :
    let b := after turns
    b.lastWriter = b.latestWriter
      ∧ ((b.execute t).2.2 = .interleavedWrite ↔ t.device.core.rebooting = false
        ∧ (t.job.erase ≠ none ∨ t.job.transfer = some .write) ∧ t.job.guarded = true
        ∧ ∃ writer ∈ b.latestWriter, writer ≠ t.job.source)
      ∧ (b.execute t).1.lastWriter =
        if (b.attempt t).Passed then some t.job.source else b.lastWriter := by
  intro b
  have hfaithful : b.lastWriter = b.latestWriter := faithful_after turns
  refine ⟨hfaithful, ?_, lastWriter_execute t⟩
  rw [← hfaithful]
  exact status_execute_eq_interleavedWrite t

/-- The host erases two sectors, under guard. -/
def hostErase : Job := { Job.eraseFlash .control 0 0xFFFFE000 0x2000 with guarded := true }

/-- The disk writes a page where there is nothing, the host reads a byte of RAM, and then it
    is to erase. -/
def refusals : List (Turn (Logged Recorder)) :=
  [⟨topDevice, { topJob with erase := none, addr := 0 }⟩,
    ⟨topDevice,
      { Job.idle .control 1 with transfer := some .read, addr := 0xFFFFF000, length := 1 }⟩,
    ⟨topDevice, hostErase⟩]

/-- The page that lies nowhere stands in the way of the host, neither what the host reads nor
    its refused attempt clears the way, and the disk itself may go on. -/
theorem guard_follows_history_refusals :
    (after refusals).past.map Attempt.status = [.interleavedWrite, .ok, .invalidAddress]
      ∧ (after refusals).lastWriter = some .disk
      ∧ ((after refusals).execute ⟨topDevice, hostErase⟩).2.2 = .interleavedWrite
      ∧ ((after refusals).execute ⟨topDevice, { hostErase with source := .disk }⟩).2.2
        ≠ .interleavedWrite := by
  have hlatest : (after refusals).latestWriter = some .disk := by decide +kernel
  obtain ⟨hremembered, hhost, -⟩ := guard_follows_history refusals ⟨topDevice, hostErase⟩
  obtain ⟨-, hdisk, -⟩ :=
    guard_follows_history refusals ⟨topDevice, { hostErase with source := .disk }⟩
  rw [hlatest] at hremembered hhost hdisk
  refine ⟨by decide +kernel, hremembered, ?_, fun hrefused => ?_⟩
  · exact hhost.mpr ⟨rfl, .inl (by decide), rfl, .disk, rfl, by decide⟩
  · obtain ⟨-, -, -, writer, hwriter, hother⟩ := hdisk.mp hrefused
    exact hother (Option.some.inj hwriter).symm

end Logbook

end Reflash
