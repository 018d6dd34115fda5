import Reflash.Proofs.DiskSide
import Reflash.Proofs.OneCommand
/-! # Runs in which an image comes in

  While the sectors of an image for flash come in, the host may also ask questions, read
  memory and change who may write; `Command.GoesWith` says what it may send. Whatever
  happens then keeps the image on its course (`onCourse_step`), and so does a whole run,
  as long as the worker keeps up: if the job that it has bore the token of the next
  command, what comes of the job could be credited to another page. As many commands must
  come in for that while the worker has one job as there are words (`keepsUp_of_few`).
-/

namespace Reflash

/-! ### What the host may send -/

/-- A command that may come in while the sectors of an image are delivered: a question, a
    change of who may write, or a sector that is one of the image or holds no block. -/
inductive Command.GoesWith (sectors : List Sector) : Command → Prop where
  | getStatus : GoesWith sectors .getStatus
  | exclusiveAccess (mode : AccessMode) : GoesWith sectors (.exclusiveAccess mode)
  | read (addr len : UInt32) : GoesWith sectors (.read addr len)
  | writeSector (lba : UInt32) {data : Bytes} :
      (∀ sector, Sector.ofBytes? data = some sector → sector ∈ sectors
        ∨ ∃ e, Block.ofSectorFor? sector Header.rp2040Family = .error e) →
      GoesWith sectors (.writeSector lba data)

theorem Command.goesWith_forSector {sectors : List Sector} {sector : Sector} (lba : Nat)
    (h : sector ∈ sectors) : (Command.forSector lba sector).GoesWith sectors := by
  refine .writeSector _ fun other hother => .inl ?_
  rw [Sector.ofBytes?_toList] at hother
  cases hother
  exact h

theorem Command.GoesWith.ne_reboot {sectors : List Sector} {command : Command}
    (h : command.GoesWith sectors) : ∀ request, command ≠ .reboot request := by
  rintro request rfl
  cases h

/-- No other command reboots the chip at once. -/
theorem Core.ne_reboot_of_handle {c core : Core} {command : Command} {token : UInt32}
    {outcome : Outcome} (h : c.handle command token = .ok (core, outcome))
    (hother : ∀ request, command ≠ .reboot request) : ∀ request, outcome ≠ .reboot request := by
  rintro request rfl
  cases hjob : c.jobFor command token with
  | ok job =>
    rw [handle_of_jobFor hjob] at h
    cases h
  | error status =>
    cases command with
    | reboot request => exact hother request rfl
    | getStatus => cases h
    | writeSector lba data =>
      by_cases hsize : data.toArray.size = 512
      · simp only [handle, dif_pos hsize] at h
        cases hwrite : c.writeSector token ⟨data.toArray, hsize⟩ with
        | error fault =>
          rw [hwrite] at h
          cases h
        | ok written =>
          obtain ⟨after, queued⟩ := written
          rw [hwrite] at h
          cases queued <;> cases h
      · simp only [handle, dif_neg hsize] at h
        cases h
    | _ =>
      simp only [handle, hjob] at h
      cases h

/-- A reboot that is due stays so. -/
theorem Device.Step.rebooting {σ : Type} [Machine σ] {d d' : Device σ} {es : Journal}
    (h : d.Step es d') (hdue : d.core.rebooting = true) : d'.core.rebooting = true := by
  cases h with
  | latch => rfl
  | @take origin => cases origin <;> exact hdue
  | credited => exact Bool.or_eq_true_iff.mpr (.inl hdue)
  | _ => exact hdue

namespace Loader

open Rp2040 (Chip flashRegion timerOf)

section image

variable {img : PagedImage} {capacity token : UInt32} {d : Device (Board Chip)}
  {command : Command} {core : Core} {outcome : Core.Outcome}

/-- A job that reads memory or changes who may write is inert. -/
theorem inert_of_goesWith {sectors : List Sector} {c : Core} {job : Job}
    (hgoes : command.GoesWith sectors) (hjob : c.jobFor command token = .ok job) : job.Inert := by
  refine ⟨(Core.jobFor_eq_ok hjob).1, ?_⟩
  cases hgoes with
  | getStatus => cases hjob
  | exclusiveAccess mode =>
    cases hjob
    rfl
  | read addr len =>
    simp only [Core.jobFor, Core.effectsFor, Job.read] at hjob
    split at hjob
    · cases hjob
      rfl
    · cases hjob
  | writeSector => cases hjob

/-- Whatever comes in keeps the image on its course. -/
theorem OnCourse.handle (h : OnCourse img capacity d)
    (hlies : ∀ i < img.numBlocks, img.Lies capacity false map i)
    (hgoes : command.GoesWith (img.sectors config.familyId))
    (hhandle : d.core.handle command token = .ok (core, outcome))
    (hfresh : ∀ job, d.phase.job? = some job → job.token ≠ token) :
    OnCourse img capacity { d with core } := by
  cases hjob : d.core.jobFor command token with
  | ok job =>
    rw [Core.handle_of_jobFor hjob] at hhandle
    cases hhandle
    exact h.command (inert_of_goesWith hgoes hjob)
  | error status =>
    cases hgoes with
    | getStatus =>
      cases hhandle
      exact h
    | exclusiveAccess mode => cases hjob
    | read addr len =>
      simp only [Core.handle, hjob] at hhandle
      cases hhandle
      exact h
    | @writeSector lba data hsector =>
      by_cases hsize : data.toArray.size = 512
      · simp only [Core.handle, dif_pos hsize] at hhandle
        have hmember := hsector ⟨data.toArray, hsize⟩ (dif_pos hsize)
        rcases d.core.writeSector_cases token ⟨data.toArray, hsize⟩ with
          ⟨e, -, hwrite, -⟩ | ⟨block, v, left, hblock, haccepts, hwrite, -⟩
        · rw [hwrite] at hhandle
          cases hhandle
          exact h
        · rw [hwrite] at hhandle
          cases hhandle
          rw [h.configured] at hblock
          rcases hmember with hpage | ⟨e, hnone⟩
          · obtain ⟨i, hi, hsame⟩ := PagedImage.mem_sectors.mp hpage
            rw [hsame, img.ofSectorFor?_sector] at hblock
            cases hblock
            rw [← h.configured] at haccepts
            exact h.page hlies hi haccepts hfresh
          · rw [show Block.ofSectorFor? _ config.familyId = _ from hnone] at hblock
            cases hblock
      · simp only [Core.handle, dif_neg hsize] at hhandle
        cases hhandle
        exact h

end image

/-! ### Runs -/

namespace Attended

variable {w v : Attended Chip} {a : Action} {actions : List Action}

/-- The worker keeps up: whatever happens next, the job that it has does not bear the token
    of the next command. Tokens go round, so for this to fail as many commands must come in
    while the worker has one job as there are words. -/
def KeepsUp (w : Attended Chip) (actions : List Action) : Prop :=
  ∀ earlier later v, actions = earlier ++ later → w.run earlier = .ok v →
    ∀ job, v.service.device.phase.job? = some job → job.token ≠ v.service.nextToken

/-- What an action does to the device, as far as it matters here. -/
inductive Advances (w v : Attended Chip) : Prop where
  | quiet : v.service.device.core = w.service.device.core →
      v.service.device.phase = w.service.device.phase →
      v.service.chip.memory = w.service.chip.memory → Advances w v
  /-- A command comes in, which is put down in the log. -/
  | command {command : Command} {outcome : Core.Outcome} :
      w.service.device.core.handle command w.service.nextToken
        = .ok (v.service.device.core, outcome) →
      .asked w.service.nextToken command ∈ v.log →
      v.service.device.phase = w.service.device.phase →
      ((∀ request, outcome ≠ .reboot request) →
        v.service.chip.memory = w.service.chip.memory) → Advances w v
  | take : v.service.device = w.service.device.takeJob → Advances w v
  | carryOut : v.service.device = w.service.device.carryOut → Advances w v
  | finish : w.service.device.finish = .ok v.service.device → Advances w v

/-- What is malformed is put on record, which is not in memory. -/
theorem memory_receive (s : Service Chip) : s.receive.1.chip.memory = s.chip.memory := by
  show ((Hardware.warn · .malformedFrame)^[_] s.chip).memory = _
  generalize (s.receiver.receive s.endpoint.packets).malformed = n
  induction n with
  | zero => rfl
  | succ n ih =>
    rw [Function.iterate_succ_apply']
    exact ih

/-- The interrupt looks for a command, sends an answer, or comes to its end. -/
theorem attend_advances (h : w.attend = .ok v) : w.log <:+ v.log ∧ w.Advances v := by
  cases hduty : w.duty with
  | away =>
    simp only [attend, hduty] at h
    cases h
    exact ⟨List.suffix_refl _, .quiet rfl rfl rfl⟩
  | sending =>
    cases hwaiting : w.service.device.machine.completions with
    | nil =>
      simp only [attend, hduty, hwaiting] at h
      cases h
      exact ⟨List.suffix_refl _, .quiet rfl rfl rfl⟩
    | cons response rest =>
      simp only [attend, hduty, hwaiting] at h
      cases h
      exact ⟨List.suffix_cons _ _, .quiet rfl rfl rfl⟩
  | receiving =>
    have hmemory : w.service.receive.1.chip.memory = w.service.chip.memory :=
      memory_receive w.service
    have hdevice : w.service.receive.1.device.core = w.service.device.core
        ∧ w.service.receive.1.device.phase = w.service.device.phase
        ∧ w.service.receive.1.nextToken = w.service.nextToken := ⟨rfl, rfl, rfl⟩
    rcases hreceive : w.service.receive with ⟨s, command⟩
    rw [hreceive] at hmemory hdevice
    obtain ⟨hcore, hphase, htoken⟩ := hdevice
    cases command with
    | none =>
      simp only [attend, hduty, hreceive] at h
      cases h
      exact ⟨List.suffix_refl _, .quiet hcore hphase hmemory⟩
    | some command =>
      obtain ⟨core, outcome, hhandle, -⟩ := s.device.core.handle_handles command s.nextToken
      simp only [attend, hduty, hreceive, Service.serve_of_handle hhandle] at h
      cases h
      have hafter : (s.served core outcome).device.core = core
          ∧ (s.served core outcome).device.phase = s.device.phase := by
        cases outcome <;> exact ⟨rfl, rfl⟩
      have hserved : w.service.device.core.handle command w.service.nextToken
          = .ok ((s.served core outcome).device.core, outcome) := by
        rw [hafter.1, ← htoken, ← hcore]
        exact hhandle
      have hasked : .asked w.service.nextToken command ∈ s.exchanges command := by
        rw [← htoken]
        unfold Service.exchanges
        rw [hhandle]
        exact List.mem_append_right _ List.mem_cons_self
      refine ⟨List.suffix_append _ _, .command hserved (List.mem_append_left _ hasked)
        (hafter.2.trans hphase) fun hquiet => ?_⟩
      cases outcome with
      | reboot request => exact absurd rfl (hquiet request)
      | reply response => exact hmemory
      | pending => exact hmemory

/-- Whatever happens does one of these things, and the log only grows. -/
theorem step_advances (h : w.step a = .ok v) : w.log <:+ v.log ∧ w.Advances v := by
  have hwork : ∀ {f : Device (Board Chip) → Except Fault (Device (Board Chip))},
      w.work f = .ok v → (∀ d, f w.service.device = .ok d → w.Advances (w.withDevice d)) →
      w.log <:+ v.log ∧ w.Advances v := by
    intro f hdone hf
    unfold work at hdone
    split at hdone
    · cases hd : f w.service.device with
      | error fault =>
        rw [hd] at hdone
        cases hdone
      | ok d =>
        rw [hd] at hdone
        cases hdone
        exact ⟨List.suffix_refl _, hf d hd⟩
    · cases hdone
      exact ⟨List.suffix_refl _, .quiet rfl rfl rfl⟩
  cases a with
  | arrive packets =>
    cases h
    exact ⟨List.suffix_refl _, .quiet rfl rfl rfl⟩
  | interrupt =>
    simp only [step] at h
    split at h <;> cases h <;> exact ⟨List.suffix_refl _, .quiet rfl rfl rfl⟩
  | attend => exact attend_advances h
  | take =>
    refine hwork (f := fun d => .ok d.takeJob) h fun d hd => ?_
    cases hd
    exact .take rfl
  | carryOut =>
    refine hwork (f := fun d => .ok d.carryOut) h fun d hd => ?_
    cases hd
    exact .carryOut rfl
  | finish => exact hwork h fun d hd => .finish hd

theorem run_cons_eq_ok {w : Attended Chip} (h : w.run (a :: actions) = .ok v) :
    ∃ u, w.step a = .ok u ∧ u.run actions = .ok v := by
  cases hstep : w.step a with
  | error fault =>
    simp only [run, List.foldlM_cons, hstep] at h
    cases h
  | ok u => exact ⟨u, rfl, (run_cons actions hstep).symm.trans h⟩

/-- The log of a run only grows. -/
theorem log_run {actions : List Action} {w : Attended Chip} (h : w.run actions = .ok v) :
    w.log <:+ v.log := by
  induction actions generalizing w with
  | nil =>
    cases h
    exact List.suffix_refl _
  | cons a actions ih =>
    obtain ⟨u, hstep, hrun⟩ := run_cons_eq_ok h
    exact (step_advances hstep).1.trans (ih hrun)

section image

variable {img : PagedImage} {capacity : UInt32}
  (hlies : ∀ i < img.numBlocks, img.Lies capacity false map i)
  (himage : ∀ i < img.numBlocks, ∀ a, img.InPage i a → IsImageAddr a)

include hlies himage

/-- Whatever happens keeps the image on its course. -/
theorem onCourse_step (h : OnCourse img capacity w.service.device) (hstep : w.step a = .ok v)
    (hgoes : ∀ token command, .asked token command ∈ v.log →
      command.GoesWith (img.sectors config.familyId))
    (hfresh : ∀ job, w.service.device.phase.job? = some job → job.token ≠ w.service.nextToken) :
    OnCourse img capacity v.service.device
      ∧ (w.service.device.core.rebooting = true → v.service.device.core.rebooting = true) := by
  obtain ⟨-, hadvances⟩ := step_advances hstep
  cases hadvances with
  | quiet hcore hphase hmemory =>
    exact ⟨h.of_same hcore hphase hmemory, fun hdue => hcore ▸ hdue⟩
  | command hhandle hasked hphase hmemory =>
    have hcommand := hgoes _ _ hasked
    have hother := hcommand.ne_reboot
    have hhandled := h.handle hlies hcommand hhandle hfresh
    refine ⟨hhandled.of_same rfl hphase (hmemory (Core.ne_reboot_of_handle hhandle hother)), ?_⟩
    rw [(Core.takes_of_handle hhandle).2 hother]
    exact id
  | take hdevice =>
    rw [hdevice]
    exact ⟨h.takeJob hlies, w.service.device.take_step.rebooting⟩
  | carryOut hdevice =>
    rw [hdevice]
    exact ⟨h.carryOut hlies himage, w.service.device.carryOut_step.rebooting⟩
  | finish hfinish =>
    obtain ⟨d, hd, hdevice⟩ := w.service.device.finish_step h.delivering.steady.sound
    rw [hfinish] at hd
    cases hd
    exact ⟨h.finish hlies himage hfinish, hdevice.rebooting⟩

theorem onCourse_run {w : Attended Chip} (h : OnCourse img capacity w.service.device)
    (hrun : w.run actions = .ok v)
    (hgoes : ∀ token command, .asked token command ∈ v.log →
      command.GoesWith (img.sectors config.familyId)) (hpace : w.KeepsUp actions) :
    OnCourse img capacity v.service.device
      ∧ (w.service.device.core.rebooting = true → v.service.device.core.rebooting = true) := by
  induction actions generalizing w with
  | nil =>
    cases hrun
    exact ⟨h, id⟩
  | cons a actions ih =>
    obtain ⟨u, hstep, hrest⟩ := run_cons_eq_ok hrun
    have hearlier : ∀ token command, .asked token command ∈ u.log →
        command.GoesWith (img.sectors config.familyId) :=
      fun token command hasked => hgoes token command ((log_run hrest).subset hasked)
    obtain ⟨hu, hdue⟩ :=
      onCourse_step hlies himage h hstep hearlier (hpace [] (a :: actions) w rfl rfl)
    obtain ⟨hv, hdue'⟩ := ih hu hrest fun earlier later x hsplit hx =>
      hpace (a :: earlier) later x (congrArg (a :: ·) hsplit) ((run_cons earlier hstep).trans hx)
    exact ⟨hv, hdue' ∘ hdue⟩

end image

/-- With fewer commands than there are words the worker keeps up. -/
theorem keepsUp_of_few {c : Chip} {ramBlocks flashBlocks erasedSectors : IndexSet}
    (hrun : (fresh c (.onSets ramBlocks flashBlocks erasedSectors)).run actions = .ok v)
    (hfew : v.view.asked.length + 1 < UInt32.size) :
    (fresh c (.onSets ramBlocks flashBlocks erasedSectors)).KeepsUp actions := by
  intro earlier later u hsplit hu job hjob htoken
  obtain ⟨u', hu', -, hbooks⟩ := run_accounted (ready_fresh c ramBlocks flashBlocks erasedSectors)
    (View.accounted_fresh c _) earlier
  rw [hu] at hu'
  cases hu'
  -- The job's token is one of those that were counted so far.
  have howed : job.token ∈ u.view.owed := by
    refine hbooks.census.mem_iff.mp (List.mem_flatMap.mpr ⟨.inFlight, Place.mem_all _, ?_⟩)
    show job.token ∈ (u.view.working.map Job.token).toList
    rw [show u.view.working = some job from hjob]
    exact List.mem_cons_self
  obtain ⟨command, -, hasked⟩ := View.mem_owed.mp howed
  have hnumber := List.mem_map_of_mem (f := Prod.fst) hasked
  rw [hbooks.numbered, List.mem_reverse, List.mem_map] at hnumber
  obtain ⟨i, hi, hnumber⟩ := hnumber
  have hgrows : u.view.asked.length ≤ v.view.asked.length := by
    rw [hsplit, run_append hu] at hrun
    exact ((log_run hrun).filterMap Exchange.asked?).length_le
  have hsame := congrArg UInt32.toNat (hnumber.trans (htoken.trans hbooks.next))
  rw [List.mem_range] at hi
  rw [UInt32.toNat_ofNat_of_lt' (by omega), UInt32.toNat_ofNat_of_lt' (by omega)] at hsame
  omega

end Attended

end Loader

end Reflash
