import Mathlib.Logic.Relation
import Reflash.Proofs.Attended
import Reflash.Proofs.Producers
/-! # What a run does to the chip

  Whatever comes in and whenever the interrupt comes, the loader acts on its chip in four
  ways: it puts something on record, it arms a reset, the worker asks for one, or the
  worker makes the calls of a job's plan. `ChipStep` lists them, and `Attended.run_chip`
  says that no run is a fault and that each is a sequence of these on the chip. What a run
  can do to memory and in which order follows from what one of them can do.
-/

namespace Reflash

theorem Device.machine_takeJob {σ : Type} (d : Device σ) : d.takeJob.machine = d.machine := by
  rcases d.takeJob_cases with hsame | ⟨_, _, -, -, -, htake⟩
  · rw [hsame]
  · rw [htake]

namespace Loader

variable {σ : Type} [Hardware σ] {map : AddressMap}

/-- What the loader can do to its chip at a time. -/
inductive ChipStep (map : AddressMap) (c : σ) : σ → Prop
  | noted (note : Note) : ChipStep map c (Hardware.warn c note)
  | armed (request : RebootRequest) : ChipStep map c (Hardware.armReset c request)
  | rebooted (request : RebootRequest) : ChipStep map c (Machine.perform c (.reboot request))
  | carriedOut (job : Job) (rebooting : Bool) (lastWriter : Option Channel) :
      ChipStep map c (Machine.performAll c (job.plan map rebooting lastWriter).calls)

/-- What the loader can do to its chip in the course of time. -/
abbrev ChipRun (map : AddressMap) : σ → σ → Prop := Relation.ReflTransGen (ChipStep map)

/-! ### The worker -/

/-- An answer goes to the queue, or it is put on record that it was lost. -/
theorem chipRun_complete (b : Board σ) (response : Response) :
    ChipRun map b.chip (Machine.perform b (.complete response)).chip := by
  show ChipRun map b.chip (b.complete response).chip
  unfold Board.complete
  split
  · exact .refl
  · exact .single (.noted _)

theorem chipRun_carryOut (d : Device (Board σ)) :
    ChipRun d.core.config.map d.machine.chip d.carryOut.machine.chip := by
  cases hphase : d.phase with
  | idle => rw [Device.carryOut_of_idle hphase]
  | done job => rw [Device.carryOut_of_done hphase]
  | holding origin job =>
    cases hfence : (d.core.slot origin).isFenced with
    | true => rw [Device.carryOut_of_fenced hphase hfence]
    | false =>
      rw [Device.carryOut_of_open hphase hfence]
      have hquiet : ∀ call ∈ (job.plan d.core.config.map d.core.rebooting d.lastWriter).calls,
          call.isComplete = false := fun call hcall => (Job.mem_plan_calls hcall).2
      show ChipRun _ d.machine.chip (Machine.performAll d.machine _).chip
      rw [Board.performAll_quiet hquiet]
      exact .single (.carriedOut job _ _)

/-- Who waits for a job may be told, and the upload may ask for a reboot. -/
theorem chipRun_finish {d d' : Device (Board σ)} (h : d.finish = .ok d') :
    ChipRun map d.machine.chip d'.machine.chip := by
  cases hphase : d.phase with
  | idle =>
    rw [Device.finish_of_idle hphase] at h
    cases h
    exact .refl
  | holding =>
    rw [Device.finish_of_holding hphase] at h
    cases h
    exact .refl
  | done job =>
    cases hlistener : job.listener with
    | none =>
      rw [Device.finish_of_unheard hphase hlistener] at h
      cases h
      exact .refl
    | some listener =>
      cases listener with
      | host =>
        rw [Device.finish_of_host hphase hlistener] at h
        cases h
        exact chipRun_complete d.machine _
      | upload =>
        cases hcredit : d.core.upload.credit job d.core.config with
        | error fault =>
          simp only [Device.finish, hphase, Device.notify, hlistener, hcredit] at h
          cases h
        | ok credited =>
          obtain ⟨v, request⟩ := credited
          rw [Device.finish_of_credit hphase hlistener hcredit] at h
          cases h
          cases request with
          | none => exact chipRun_complete d.machine _
          | some request =>
            exact .trans (.single (.rebooted request))
              (chipRun_complete (Machine.perform d.machine (.reboot request)) _)

/-! ### The interrupt -/

namespace Service

variable (s : Service σ)

/-- What is malformed is put on record. -/
theorem chipRun_receive : ChipRun map s.chip s.receive.1.chip := by
  show ChipRun map s.chip ((Hardware.warn · .malformedFrame)^[_] s.chip)
  generalize (s.receiver.receive s.endpoint.packets).malformed = n
  induction n with
  | zero => exact .refl
  | succ n ih =>
    rw [Function.iterate_succ_apply']
    exact ih.tail (.noted _)

/-- A command for a reboot arms a reset, and no other one touches the chip. -/
theorem chipRun_served (core : Core) (outcome : Core.Outcome) :
    ChipRun map s.chip (s.served core outcome).chip := by
  cases outcome with
  | reply response => exact .refl
  | pending => exact .refl
  | reboot request => exact .single (.armed request)

end Service

/-! ### Runs -/

namespace Attended

variable {w : Attended σ}

/-- The books of the upload are in order, and the device is configured so. -/
structure Runs (config : Config) (w : Attended σ) : Prop where
  sound : w.service.device.core.upload.Sound
  config : w.service.device.core.config = config

variable {config : Config}

theorem attend_chip (h : w.Runs config) :
    ∃ v, w.attend = .ok v ∧ v.Runs config ∧ ChipRun config.map w.service.chip v.service.chip := by
  cases hduty : w.duty with
  | away => exact ⟨w, by simp only [attend, hduty], h, .refl⟩
  | sending =>
    cases hwaiting : w.service.device.machine.completions with
    | nil =>
      exact ⟨{ w with duty := .away }, by simp only [attend, hduty, hwaiting],
        ⟨h.sound, h.config⟩, .refl⟩
    | cons response rest =>
      let v : Attended σ := { w with
        service := (w.service.withCompletions rest).send response
        log := .answered response :: w.log }
      exact ⟨v, by simp only [attend, hduty, hwaiting, v], ⟨h.sound, h.config⟩, .refl⟩
  | receiving =>
    have hchip : ChipRun config.map w.service.chip w.service.receive.1.chip :=
      w.service.chipRun_receive
    have hcore : w.service.receive.1.device.core = w.service.device.core := rfl
    rcases hreceive : w.service.receive with ⟨s, command⟩
    rw [hreceive] at hchip hcore
    have hs : s.device.core.upload.Sound := hcore ▸ h.sound
    cases command with
    | none =>
      exact ⟨{ w with service := s, duty := .sending }, by simp only [attend, hduty, hreceive],
        ⟨hs, (congrArg Core.config hcore).trans h.config⟩, hchip⟩
    | some command =>
      obtain ⟨core, outcome, hhandle, -⟩ := s.device.core.handle_handles command s.nextToken
      have htakes := (Core.takes_of_handle hhandle).1
      have hafter : (s.served core outcome).device.core = core := by cases outcome <;> rfl
      refine ⟨{ w with service := s.served core outcome, log := s.exchanges command ++ w.log },
        ?_, ⟨?_, ?_⟩, hchip.trans (s.chipRun_served core outcome)⟩
      · simp only [attend, hduty, hreceive, Service.serve_of_handle hhandle]
        rfl
      · rw [hafter]
        exact htakes.sound hs
      · rw [hafter, htakes.config]
        exact (congrArg Core.config hcore).trans h.config

/-- The worker does nothing while the interrupt is running. -/
theorem work_chip {f : Device (Board σ) → Except Fault (Device (Board σ))} {es : Journal}
    {d : Device (Board σ)} (h : w.Runs config) (hf : f w.service.device = .ok d)
    (hstep : w.service.device.Step es d)
    (hchip : ChipRun config.map w.service.chip d.machine.chip) :
    ∃ v, w.work f = .ok v ∧ v.Runs config ∧ ChipRun config.map w.service.chip v.service.chip := by
  unfold work
  split
  · rw [hf]
    exact ⟨_, rfl, ⟨hstep.sound h.sound, hstep.config.trans h.config⟩, hchip⟩
  · exact ⟨w, rfl, h, .refl⟩

/-- No action is a fault, and this is all that one does to the chip. -/
theorem step_chip (h : w.Runs config) (a : Action) :
    ∃ v, w.step a = .ok v ∧ v.Runs config ∧ ChipRun config.map w.service.chip v.service.chip := by
  cases a with
  | arrive packets => exact ⟨_, rfl, ⟨h.sound, h.config⟩, .refl⟩
  | interrupt =>
    by_cases haway : w.duty = .away
    · exact ⟨_, if_pos haway, ⟨h.sound, h.config⟩, .refl⟩
    · exact ⟨w, if_neg haway, h, .refl⟩
  | attend => exact attend_chip h
  | take =>
    refine work_chip (f := fun d => .ok d.takeJob) h rfl w.service.device.take_step ?_
    rw [Device.machine_takeJob]
    exact .refl
  | carryOut =>
    refine work_chip (f := fun d => .ok d.carryOut) h rfl w.service.device.carryOut_step ?_
    rw [← h.config]
    exact chipRun_carryOut w.service.device
  | finish =>
    obtain ⟨d, hfinish, hstep⟩ := w.service.device.finish_step h.sound
    exact work_chip h hfinish hstep (chipRun_finish hfinish)

/-- No run is a fault, whatever comes in and whenever the interrupt comes, and what it does
    to the chip is made up of these steps. -/
theorem run_chip (h : w.Runs config) (actions : List Action) :
    ∃ v, w.run actions = .ok v ∧ v.Runs config
      ∧ ChipRun config.map w.service.chip v.service.chip := by
  induction actions generalizing w with
  | nil => exact ⟨w, rfl, h, .refl⟩
  | cons a actions ih =>
    obtain ⟨v, hstep, hv, hchip⟩ := step_chip h a
    obtain ⟨v', hrun, hv', hchip'⟩ := ih hv
    exact ⟨v', (run_cons actions hstep).trans hrun, hv', hchip.trans hchip'⟩

end Attended

end Loader

end Reflash
