import Reflash.Proofs.HostMutation
/-! # What the producers leave behind

  Sectors, commands and resets come in at any time. All that they can do to the core is
  listed in `Core.Takes`, and what they leave for the worker in `Job.LeftIn`: a job in
  the slot of the disk writes a page for an upload, and a job in the slot of the control
  channel is one for a command. A job that changes who may write does nothing else.
-/

namespace Reflash

/-! ### Jobs -/

namespace Job

/-- The job that puts the disk in another mode. -/
def forAccess (token : UInt32) (mode : AccessMode) : Job :=
  { changeAccess .control token mode with listener := some .host }

/-- A job is for a command. -/
def OfCommand (job : Job) : Prop :=
  ∃ (c : Core) (command : Command) (token : UInt32), c.jobFor command token = .ok job

/-- A job writes a page for an upload. -/
structure OfUpload (job : Job) : Prop extends WritesPage job where
  listener : job.listener = some .upload

/-- A job is one of those that are left in a slot. -/
def LeftIn (job : Job) : Channel → Prop
  | .disk => job.OfUpload
  | .control => job.OfCommand

variable {job : Job} {channel : Channel} {mode : AccessMode}

theorem OfCommand.listener (h : job.OfCommand) : job.listener = some .host := by
  obtain ⟨c, command, token, hjob⟩ := h
  exact (Core.jobFor_eq_ok hjob).1

theorem OfCommand.source (h : job.OfCommand) : job.source = .control := by
  obtain ⟨c, command, token, hjob⟩ := h
  exact (Core.jobFor_eq_ok hjob).2.1

/-- A job that changes the mode does nothing else. -/
theorem OfCommand.eq_forAccess (h : job.OfCommand) (haccess : job.access = some mode) :
    ∃ token, job = forAccess token mode := by
  obtain ⟨c, command, token, hjob⟩ := h
  rcases Core.jobFor_cases hjob with ⟨mode', rfl, hmode, -⟩ | ⟨hnone, -⟩ | ⟨hnone, -⟩
  · cases hjob
    cases haccess
    exact ⟨token, rfl⟩
  · rw [hnone] at haccess
    cases haccess
  · rw [hnone] at haccess
    cases haccess

/-- A job comes from the party that left it. -/
theorem LeftIn.source (h : job.LeftIn channel) : job.source = channel := by
  cases channel with
  | disk => exact WritesPage.source h.toWritesPage
  | control => exact OfCommand.source h

/-- Only a job of the control channel changes the mode. -/
theorem LeftIn.eq_forAccess (h : job.LeftIn channel) (haccess : job.access = some mode) :
    channel = .control ∧ ∃ token, job = forAccess token mode := by
  cases channel with
  | disk =>
    rw [WritesPage.access h.toWritesPage] at haccess
    cases haccess
  | control => exact ⟨rfl, OfCommand.eq_forAccess h haccess⟩

end Job

/-! ### What comes in -/

/-- What sectors, commands and resets can do to a core. -/
inductive Core.Takes (c : Core) : Core → Prop where
  | nothing : Takes c c
  | block {sector : Sector} {token : UInt32} {block : Block} {v : Upload} {job : Option Job} :
      Block.ofSectorFor? sector c.config.familyId = .ok block →
      Upload.Accepts c.upload block token c.config c.disk.isFenced v job →
      Takes c (c.afterBlock v job)
  | resetDisk : Takes c c.resetDisk
  | latch : Takes c c.latchReboot
  | command {command : Command} {token : UInt32} {job : Job} : c.jobFor command token = .ok job →
      Takes c (c.withControlJob job)

namespace Core

variable {c after : Core} {token : UInt32}

theorem takes_of_writeSector {sector : Sector} {queued : Bool}
    (h : c.writeSector token sector = .ok (after, queued)) :
    c.Takes after ∧ after.rebooting = c.rebooting := by
  rcases c.writeSector_cases token sector with
    ⟨e, -, hwrite, -⟩ | ⟨block, v, job, hblock, hcases, hwrite, -⟩
  · rw [h] at hwrite
    cases hwrite
    exact ⟨.nothing, rfl⟩
  · rw [h] at hwrite
    cases hwrite
    exact ⟨.block hblock hcases, rfl⟩

/-- Only the command to reboot makes a reboot due. -/
theorem takes_of_handle {command : Command} {outcome : Outcome}
    (h : c.handle command token = .ok (after, outcome)) :
    c.Takes after
      ∧ ((∀ request, command ≠ .reboot request) → after.rebooting = c.rebooting) := by
  cases hjob : c.jobFor command token with
  | ok job =>
    rw [handle_of_jobFor hjob] at h
    cases h
    exact ⟨.command hjob, fun _ => rfl⟩
  | error status =>
    cases command with
    | writeSector lba data =>
      by_cases hsize : data.toArray.size = 512
      · simp only [handle, dif_pos hsize] at h
        cases hwrite : c.writeSector token ⟨data.toArray, hsize⟩ with
        | error fault =>
          rw [hwrite] at h
          cases h
        | ok written =>
          rw [hwrite] at h
          cases h
          obtain ⟨htakes, hdue⟩ := takes_of_writeSector hwrite
          exact ⟨htakes, fun _ => hdue⟩
      · simp only [handle, dif_neg hsize] at h
        cases h
        exact ⟨.nothing, fun _ => rfl⟩
    | reboot request =>
      cases h
      exact ⟨.latch, fun hother => absurd rfl (hother request)⟩
    | getStatus =>
      cases h
      exact ⟨.nothing, fun _ => rfl⟩
    | _ =>
      simp only [handle, hjob] at h
      cases h
      exact ⟨.nothing, fun _ => rfl⟩

namespace Takes

variable {after : Core} (h : c.Takes after)

include h

theorem config : after.config = c.config := by
  cases h <;> rfl

/-- Nothing that comes in changes who may write. -/
theorem fence : after.disk.fence = c.disk.fence ∧ after.control.fence = c.control.fence := by
  cases h <;> exact ⟨rfl, rfl⟩

theorem isFenced : after.disk.isFenced = c.disk.isFenced := congrArg Option.isSome h.fence.1

theorem sound (hs : c.upload.Sound) : after.upload.Sound := by
  cases h with
  | block _ hcases => exact hcases.sound hs
  | resetDisk => exact Upload.sound_reset _
  | _ => exact hs

/-- Nothing that comes in makes a block valid. -/
theorem valid {i : UInt32} (hv : after.upload.isBlockValid i = true) :
    c.upload.isBlockValid i = true := by
  cases h with
  | block _ hcases => exact hcases.valid i hv
  | _ => exact hv

/-- A job in a slot was there before, or belongs there. -/
theorem waiting {channel : Channel} {job : Job} (hjob : (after.slot channel).job = some job) :
    (c.slot channel).job = some job ∨ job.LeftIn channel := by
  cases h with
  | @block _ _ block _ left hblock hcases =>
    cases channel with
    | control => exact .inl hjob
    | disk =>
      cases left with
      | none => exact .inl hjob
      | some page =>
        cases hjob
        exact .inr ⟨hcases.writesPage (Block.length_payload hblock), rfl⟩
  | command hfor =>
    cases channel with
    | disk => exact .inl hjob
    | control =>
      cases hjob
      exact .inr ⟨_, _, _, hfor⟩
  | _ => exact .inl (by cases channel <;> exact hjob)

end Takes

end Core

end Reflash
