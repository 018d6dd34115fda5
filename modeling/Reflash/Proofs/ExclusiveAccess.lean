import Reflash.Proofs.Producers
/-! # The disk is fenced off, and given back

  The host may take the disk's place and later give it back. While it has it, a job of
  the disk does nothing, no matter when it was left: the block of a sector is turned
  away, a job that waits or that the worker holds is kept out, and one that the worker
  is done with did not end well. For the last of these the order of things matters. The
  mode changes only when the worker carries out a job of the host, and then it is not in
  the middle of one of the disk. `Guarded` is the invariant.

  The host can always give the disk back, because its own slot is never fenced off. A
  reboot that is due would stand in the way, but no image gets complete while the disk
  is fenced off: when a reboot is due that the host did not ask for, the disk is open.
-/

namespace Reflash

namespace Device

/-! ### Whose jobs there are -/

/-- What is known of the jobs of a device: where they come from, and that one of the disk
    is not told of as done well while the disk is fenced off. -/
structure Guarded {σ : Type} (d : Device σ) : Prop where
  sound : d.core.upload.Sound
  control : d.core.control.fence = none
  waiting : ∀ channel job, (d.core.slot channel).job = some job → job.LeftIn channel
  held : ∀ origin job, d.phase = .holding origin job → job.LeftIn origin
  credited : ∀ job, d.phase = .done job → job.listener = some .upload → job.source = .disk
  late : ∀ job, d.phase = .done job → job.source = .disk → d.core.disk.isFenced = true →
    job.result ≠ some .ok

variable {σ : Type} {d : Device σ}

/-- What comes in keeps the jobs in order. -/
theorem Guarded.takes (hd : d.Guarded) {core : Core} (h : d.core.Takes core) :
    Guarded { d with core } where
  sound := h.sound hd.sound
  control := h.fence.2.trans hd.control
  waiting := fun channel job hjob => (h.waiting hjob).elim (hd.waiting channel job) id
  held := hd.held
  credited := hd.credited
  late := fun job hphase hsource hfenced =>
    hd.late job hphase hsource (h.isFenced.symm.trans hfenced)

theorem Guarded.takeJob (hd : d.Guarded) : d.takeJob.Guarded := by
  rcases d.takeJob_cases with hsame | ⟨origin, job, hphase, hjob, -, htake⟩
  · rw [hsame]
    exact hd
  · rw [htake]
    refine ⟨?_, ?_, fun channel waiting hwaiting => ?_, ?_,
      fun _ hdone => Phase.noConfusion hdone, fun _ hdone => Phase.noConfusion hdone⟩
    · cases origin <;> exact hd.sound
    · cases origin <;> exact hd.control
    · -- The slot that the job was in is empty, and the other one is as it was.
      cases origin <;> cases channel
      · cases hwaiting
      · exact hd.waiting .control waiting hwaiting
      · exact hd.waiting .disk waiting hwaiting
      · cases hwaiting
    · intro from' held hheld
      cases hheld
      exact hd.waiting origin job hjob

variable [Machine σ]

/-- A job that changes the mode ends well unless a reboot is due, and does nothing else. -/
theorem plan_forAccess (token : UInt32) (mode : AccessMode) (map : AddressMap)
    (lastWriter : Option Channel) :
    (Job.forAccess token mode).plan map false lastWriter =
      { status := .ok, calls := if mode = .exclusiveAndEject then [.eject] else []
        access := some mode, lastWriter } := by
  cases mode <;> rfl

theorem execute_forAccess (token : UInt32) (mode : AccessMode) (hdue : d.core.rebooting = false) :
    d.doneJob (.forAccess token mode) = { Job.forAccess token mode with result := some .ok }
      ∧ (d.execute (.forAccess token mode)).1.core.disk = d.core.disk.setMode mode := by
  simp only [doneJob, execute, hdue, plan_forAccess, and_true]
  rfl

/-- The mode that a job puts the disk in is the one that it is for. -/
theorem access_plan {job : Job} {map : AddressMap} {rebooting : Bool}
    {lastWriter : Option Channel} {mode : AccessMode}
    (h : (job.plan map rebooting lastWriter).access = some mode) :
    rebooting = false ∧ job.access = some mode := by
  cases rebooting with
  | true => cases h
  | false =>
    refine ⟨rfl, h ▸ ?_⟩
    simp only [Job.plan, Bool.false_eq_true, if_false]
    split
    · rfl
    · cases job.checkedMoves map <;> rfl

/-- Carrying out a job puts the disk in the mode that the job is for, and leaves it as it
    was if there is none. -/
theorem disk_carryOut (hd : d.Guarded) :
    d.carryOut.core.disk = d.core.disk
    ∨ ∃ token mode, d.phase = .holding .control (.forAccess token mode)
        ∧ d.core.rebooting = false
        ∧ d.carryOut.phase = .done { Job.forAccess token mode with result := some .ok }
        ∧ d.carryOut.core.disk = d.core.disk.setMode mode := by
  cases hphase : d.phase with
  | idle =>
    rw [carryOut_of_idle hphase]
    exact .inl rfl
  | done job =>
    rw [carryOut_of_done hphase]
    exact .inl rfl
  | holding origin job =>
    cases hfence : (d.core.slot origin).isFenced with
    | true =>
      rw [carryOut_of_fenced hphase hfence]
      exact .inl rfl
    | false =>
      rw [carryOut_of_open hphase hfence]
      cases haccess : (job.plan d.core.config.map d.core.rebooting d.lastWriter).access with
      | none =>
        refine .inl ?_
        simp only [execute, haccess]
      | some mode =>
        obtain ⟨hdue, hmode⟩ := access_plan haccess
        obtain ⟨rfl, token, rfl⟩ := (hd.held origin job hphase).eq_forAccess hmode
        obtain ⟨hdone, hdisk⟩ := execute_forAccess token mode hdue
        exact .inr ⟨token, mode, rfl, hdue, congrArg Phase.done hdone, hdisk⟩

/-- Carrying out a job leaves alone the jobs that wait. -/
theorem job_carryOut (d : Device σ) (channel : Channel) :
    (d.carryOut.core.slot channel).job = (d.core.slot channel).job := by
  cases hphase : d.phase with
  | idle => rw [carryOut_of_idle hphase]
  | done job => rw [carryOut_of_done hphase]
  | holding origin job =>
    cases hfence : (d.core.slot origin).isFenced with
    | true => rw [carryOut_of_fenced hphase hfence]
    | false =>
      rw [carryOut_of_open hphase hfence]
      cases channel with
      | disk => exact Watched.disk_execute d job
      | control => rfl

theorem Guarded.carryOut (hd : d.Guarded) : d.carryOut.Guarded := by
  cases hphase : d.phase with
  | idle =>
    rw [carryOut_of_idle hphase]
    exact hd
  | done job =>
    rw [carryOut_of_done hphase]
    exact hd
  | holding origin job =>
    have hjob := hd.held origin job hphase
    cases hfence : (d.core.slot origin).isFenced with
    | true =>
      rw [carryOut_of_fenced hphase hfence]
      refine ⟨hd.sound, hd.control, hd.waiting, fun _ _ hheld => Phase.noConfusion hheld,
        fun done hdone hlistener => ?_, fun done hdone _ _ hok => ?_⟩
      · cases hdone
        cases origin with
        | disk => exact hjob.source
        | control =>
          -- The slot of the control channel is never fenced off.
          rw [show (d.core.slot .control).isFenced = d.core.control.fence.isSome from rfl,
            hd.control] at hfence
          cases hfence
      · cases hdone
        cases hok
    | false =>
      have hcarry := carryOut_of_open hphase hfence
      have hdone : ∀ done, d.carryOut.phase = .done done → done.source = origin := by
        intro done hdone
        rw [hcarry] at hdone
        cases hdone
        exact (source_doneJob d job).trans hjob.source
      refine ⟨?_, ?_, fun channel waiting hwaiting => ?_,
        fun from' held hheld => absurd hheld (d.carryOut_ne_holding from' held),
        fun done hphase' hlistener => ?_, fun done hphase' hsource hfenced => ?_⟩
      · rw [hcarry]
        exact hd.sound
      · rw [hcarry]
        exact hd.control
      · exact hd.waiting channel waiting ((d.job_carryOut channel).symm.trans hwaiting)
      · cases origin with
        | disk => exact hdone done hphase'
        | control =>
          rw [hcarry] at hphase'
          cases hphase'
          have hhost := (Watched.listener_execute d job).trans (Job.OfCommand.listener hjob)
          rw [show (d.doneJob job).listener = (d.execute job).2.1.listener from rfl, hhost]
            at hlistener
          cases hlistener
      · -- A job of the disk was carried out, so the disk is open, and remains so.
        have horigin : origin = .disk := (hdone done hphase').symm.trans hsource
        subst horigin
        rcases disk_carryOut hd with hsame | ⟨token, mode, hother, -⟩
        · rw [hsame] at hfenced
          exact absurd (hfence.symm.trans hfenced) Bool.false_ne_true
        · rw [hphase] at hother
          cases hother

/-- Telling of a job leaves the slots as they are, and no job to tell of. A reboot that
    gets due is one of an image, whose last job ended well. -/
theorem finish_keeps {d' : Device σ} (hs : d.core.upload.Sound) (h : d.finish = .ok d') :
    d'.core.disk = d.core.disk ∧ d'.core.control = d.core.control
      ∧ (d' = d ∧ (∀ job, d.phase ≠ .done job) ∨ d'.phase = .idle)
      ∧ (d'.core.rebooting = true → d.core.rebooting = true
        ∨ ∃ job, d.phase = .done job ∧ job.listener = some .upload ∧ job.result = some .ok) := by
  cases hphase : d.phase with
  | idle =>
    rw [finish_of_idle hphase] at h
    cases h
    exact ⟨rfl, rfl, .inr hphase, .inl⟩
  | holding origin job =>
    rw [finish_of_holding hphase] at h
    cases h
    exact ⟨rfl, rfl, .inl ⟨rfl, fun _ => Phase.noConfusion⟩, .inl⟩
  | done job =>
    cases hlistener : job.listener with
    | none =>
      rw [finish_of_unheard hphase hlistener] at h
      cases h
      exact ⟨rfl, rfl, .inr rfl, .inl⟩
    | some listener =>
      cases listener with
      | host =>
        rw [finish_of_host hphase hlistener] at h
        cases h
        exact ⟨rfl, rfl, .inr rfl, .inl⟩
      | upload =>
        obtain ⟨v, request, hcredit⟩ := Upload.credit_ok hs job d.core.config
        rw [finish_of_credit hphase hlistener hcredit] at h
        cases h
        refine ⟨rfl, rfl, .inr rfl, fun hdue => ?_⟩
        rcases Upload.cases_of_credit hs hcredit with ⟨-, -, rfl⟩ | ⟨hawaits, -⟩
        · exact .inl (by simpa using hdue)
        · simp only [Upload.awaits, Bool.and_eq_true, beq_iff_eq] at hawaits
          exact .inr ⟨job, rfl, hlistener, hawaits.2⟩

theorem Guarded.finish (hd : d.Guarded) {d' : Device σ} (h : d.finish = .ok d') :
    d'.Guarded := by
  obtain ⟨_, hfinish, hstep⟩ := d.finish_step hd.sound
  rw [h] at hfinish
  cases hfinish
  obtain ⟨hdisk, hcontrol, ⟨hsame, -⟩ | hidle, -⟩ := finish_keeps hd.sound h
  · rw [hsame]
    exact hd
  · have hslot : ∀ channel, d'.core.slot channel = d.core.slot channel := by
      intro channel
      cases channel with
      | disk => exact hdisk
      | control => exact hcontrol
    refine ⟨hstep.sound hd.sound, hcontrol ▸ hd.control,
      fun channel job hjob => hd.waiting channel job (hslot channel ▸ hjob), ?_, ?_, ?_⟩ <;>
      simp [hidle]

/-- When a reboot is due, the disk is open. -/
def OpenWhenDue (d : Device σ) : Prop := d.core.rebooting = true → d.core.disk.fence = none

omit [Machine σ] in
theorem OpenWhenDue.takeJob (h : d.OpenWhenDue) : d.takeJob.OpenWhenDue := by
  rcases d.takeJob_cases with hsame | ⟨origin, job, -, -, -, htake⟩
  · rw [hsame]
    exact h
  · rw [htake]
    cases origin <;> exact h

theorem OpenWhenDue.carryOut (h : d.OpenWhenDue) (hd : d.Guarded) : d.carryOut.OpenWhenDue := by
  have hsame : d.carryOut.core.rebooting = d.core.rebooting := by
    cases hphase : d.phase with
    | idle => rw [carryOut_of_idle hphase]
    | done job => rw [carryOut_of_done hphase]
    | holding origin job =>
      cases hfence : (d.core.slot origin).isFenced with
      | true => rw [carryOut_of_fenced hphase hfence]
      | false => rw [carryOut_of_open hphase hfence]; rfl
  intro hdue
  rw [hsame] at hdue
  rcases disk_carryOut hd with hdisk | ⟨_, _, -, hnot, -⟩
  · rw [hdisk]
    exact h hdue
  · rw [hdue] at hnot
    cases hnot

/-- No image gets complete while the disk is fenced off. -/
theorem OpenWhenDue.finish (h : d.OpenWhenDue) (hd : d.Guarded) {d' : Device σ}
    (hfinish : d.finish = .ok d') : d'.OpenWhenDue := by
  obtain ⟨hdisk, -, -, hreboot⟩ := finish_keeps hd.sound hfinish
  intro hdue
  rw [hdisk]
  rcases hreboot hdue with hbefore | ⟨job, hphase, hlistener, hok⟩
  · exact h hbefore
  · have hlate := hd.late job hphase (hd.credited job hphase hlistener)
    cases hfence : d.core.disk.fence with
    | none => rfl
    | some mode => exact absurd hok (hlate (congrArg Option.isSome hfence))

end Device

/-! ### What a move may do -/

namespace Move

/-- Whether a move changes who may write without a job. -/
def setsMode : Move → Bool
  | .setMode _ => true
  | _ => false

/-- Whether the host asks for a reboot. -/
def asksReboot : Move → Bool
  | .command _ (.reboot _) => true
  | _ => false

end Move

namespace Device

/-- What a move does with respect to the fence. While the disk is fenced off, no image
    calls for a reboot, no block becomes valid, and a job of the disk makes no call but
    the one that tells the host. The mode changes only when the worker carries out a job
    of the control channel that is for this, and the job ends well. -/
structure Respects {σ : Type} (d : Device (Logged σ)) (m : Move) (d' : Device (Logged σ)) :
    Prop where
  calls : ∃ new, d'.machine.calls = new ++ d.machine.calls ∧ (d.core.disk.isFenced = true →
    (∀ call ∈ new, call.isReboot = false)
      ∧ ∀ job, d.phase.job? = some job → job.source = .disk →
        ∀ call ∈ new, call.isComplete = true)
  valid : d.core.disk.isFenced = true → ∀ i, d'.core.upload.isBlockValid i = true →
    d.core.upload.isBlockValid i = true
  mode : d'.core.disk.fence ≠ d.core.disk.fence →
    m = .carryOut ∧ ∃ token mode, d.phase = .holding .control (.forAccess token mode)
      ∧ d'.phase = .done { Job.forAccess token mode with result := some .ok }
      ∧ d'.core.disk = d.core.disk.setMode mode

variable {σ : Type} {d : Device (Logged σ)} {m : Move}

/-- A move that makes no call, and after which no block is valid that was not. -/
theorem Respects.of_quiet {d' : Device (Logged σ)} (hmachine : d'.machine = d.machine)
    (hvalid : ∀ i, d'.core.upload.isBlockValid i = true → d.core.upload.isBlockValid i = true)
    (hfence : d'.core.disk.fence = d.core.disk.fence) : d.Respects m d' where
  calls := ⟨[], by rw [hmachine]; rfl, fun _ => ⟨by simp, by simp⟩⟩
  valid := fun _ => hvalid
  mode := fun hchanged => absurd hfence hchanged

theorem respects_takeJob (d : Device (Logged σ)) : d.Respects .take d.takeJob := by
  rcases d.takeJob_cases with hsame | ⟨origin, job, -, -, -, htake⟩
  · rw [hsame]
    exact .of_quiet rfl (fun _ h => h) rfl
  · rw [htake]
    cases origin <;> exact .of_quiet rfl (fun _ h => h) rfl

variable [Machine σ]

theorem Guarded.respects_carryOut (hd : d.Guarded) : d.Respects .carryOut d.carryOut := by
  have hmode : d.carryOut.core.disk.fence ≠ d.core.disk.fence → Move.carryOut = .carryOut
      ∧ ∃ token mode, d.phase = .holding .control (.forAccess token mode)
        ∧ d.carryOut.phase = .done { Job.forAccess token mode with result := some .ok }
        ∧ d.carryOut.core.disk = d.core.disk.setMode mode := by
    intro hchanged
    rcases disk_carryOut hd with hsame | ⟨token, mode, hphase, -, hdone, hdisk⟩
    · exact absurd (congrArg Slot.fence hsame) hchanged
    · exact ⟨rfl, token, mode, hphase, hdone, hdisk⟩
  cases hphase : d.phase with
  | idle =>
    rw [carryOut_of_idle hphase]
    exact .of_quiet rfl (fun _ h => h) rfl
  | done job =>
    rw [carryOut_of_done hphase]
    exact .of_quiet rfl (fun _ h => h) rfl
  | holding origin job =>
    cases hfence : (d.core.slot origin).isFenced with
    | true =>
      rw [carryOut_of_fenced hphase hfence]
      exact .of_quiet rfl (fun _ h => h) rfl
    | false =>
      have hcarry := carryOut_of_open hphase hfence
      refine ⟨⟨(job.plan d.core.config.map d.core.rebooting d.lastWriter).calls.reverse, ?_,
        fun hfenced => ⟨fun call hcall => ?_, fun held hheld hsource => ?_⟩⟩,
        fun _ i hi => ?_, hmode⟩
      · rw [hcarry]
        exact Logged.calls_performAll _ _
      · exact (Job.mem_plan_calls (List.mem_reverse.mp hcall)).1
      · -- The job is carried out while the disk is fenced off, so it is not from the disk.
        rw [hphase] at hheld
        cases hheld
        have horigin := (hd.held origin job hphase).source.symm.trans hsource
        subst horigin
        exact absurd (hfence.symm.trans hfenced) Bool.false_ne_true
      · rw [hcarry] at hi
        exact hi

theorem Guarded.respects_finish (hd : d.Guarded) {d' : Device (Logged σ)}
    (h : d.finish = .ok d') : d.Respects .finish d' := by
  obtain ⟨hdisk, -⟩ := finish_keeps hd.sound h
  obtain ⟨_, hfinish, hstep⟩ := d.finish_step hd.sound
  rw [h] at hfinish
  cases hfinish
  -- A job of an upload is from the disk, and did not end well if the disk is fenced off.
  have hrefused : d.core.disk.isFenced = true → ∀ job, d.phase = .done job →
      job.listener = some .upload → d' = { d with
        phase := .idle
        machine := Machine.perform d.machine (.complete job.response) } := by
    intro hfenced job hphase hlistener
    have hlate := hd.late job hphase (hd.credited job hphase hlistener) hfenced
    have hsame := (finish_of_not_ok hphase hlate).symm.trans h
    rw [hlistener] at hsame
    exact (Except.ok.inj hsame).symm
  have hchanged : d'.core.disk.fence = d.core.disk.fence := congrArg Slot.fence hdisk
  cases hphase : d.phase with
  | idle =>
    rw [finish_of_idle hphase] at h
    cases h
    exact .of_quiet rfl (fun _ hi => hi) rfl
  | holding origin job =>
    rw [finish_of_holding hphase] at h
    cases h
    exact .of_quiet rfl (fun _ hi => hi) rfl
  | done job =>
    cases hlistener : job.listener with
    | none =>
      rw [finish_of_unheard hphase hlistener] at h
      cases h
      exact .of_quiet rfl (fun _ hi => hi) rfl
    | some listener =>
      cases listener with
      | host =>
        rw [finish_of_host hphase hlistener] at h
        cases h
        exact ⟨⟨[.complete job.response], rfl, fun _ =>
            ⟨by simp [Call.isReboot], fun _ _ _ => by simp [Call.isComplete]⟩⟩,
          fun _ _ hi => hi, fun hother => absurd hchanged hother⟩
      | upload =>
        obtain ⟨v, request, hcredit⟩ := Upload.credit_ok hd.sound job d.core.config
        rw [finish_of_credit hphase hlistener hcredit] at h
        have hcalls : ∃ new, d'.machine.calls = new ++ d.machine.calls := by
          cases h
          cases request with
          | none => exact ⟨[.complete job.response], rfl⟩
          | some request => exact ⟨[.complete job.response, .reboot request], rfl⟩
        refine ⟨?_, fun hfenced i hi => ?_, fun hother => absurd hchanged hother⟩
        · cases hfenced : d.core.disk.isFenced with
          | false =>
            obtain ⟨new, hnew⟩ := hcalls
            exact ⟨new, hnew, fun hother => absurd hother Bool.false_ne_true⟩
          | true =>
            rw [hrefused hfenced job hphase hlistener]
            exact ⟨[.complete job.response], rfl, fun _ =>
              ⟨by simp [Call.isReboot], fun _ _ _ => by simp [Call.isComplete]⟩⟩
        · rw [hrefused hfenced job hphase hlistener] at hi
          exact hi

/-- What is known of a device before a move and after it. -/
structure Goes (d : Device (Logged σ)) (m : Move) (d' : Device (Logged σ)) : Prop where
  guarded : d'.Guarded
  respects : d.Respects m d'
  due : m.asksReboot = false → d.OpenWhenDue → d'.OpenWhenDue

omit [Machine σ] in
/-- What comes in makes no call. -/
theorem Guarded.goes_takes (hd : d.Guarded) {core : Core} (h : d.core.Takes core)
    (hdue : m.asksReboot = false → core.rebooting = d.core.rebooting) :
    d.Goes m { d with core } where
  guarded := hd.takes h
  respects := .of_quiet rfl (fun _ hi => h.valid hi) h.fence.1
  due := fun hask hopen hreboot => h.fence.1.trans (hopen ((hdue hask).symm.trans hreboot))

theorem Guarded.move (hd : d.Guarded) (hm : m.setsMode = false) :
    ∃ d', d.move m = .ok d' ∧ d.Goes m d' := by
  cases m with
  | sector token sector =>
    obtain ⟨core, queued, hwrite, -⟩ := d.sector_step token sector
    obtain ⟨htakes, hdue⟩ := Core.takes_of_writeSector hwrite
    refine ⟨{ d with core }, ?_, hd.goes_takes htakes fun _ => hdue⟩
    simp only [Device.move, hwrite]
    rfl
  | command token command =>
    obtain ⟨core, outcome, hhandle, -⟩ := d.command_step token command
    obtain ⟨htakes, hdue⟩ := Core.takes_of_handle hhandle
    refine ⟨{ d with core }, ?_, hd.goes_takes htakes fun hask => hdue ?_⟩
    · simp only [Device.move, hhandle]
      rfl
    · rintro request rfl
      cases hask
  | resetDisk => exact ⟨_, rfl, hd.goes_takes .resetDisk fun _ => rfl⟩
  | setMode mode => cases hm
  | take => exact ⟨_, rfl, hd.takeJob, d.respects_takeJob, fun _ hopen => hopen.takeJob⟩
  | carryOut => exact ⟨_, rfl, hd.carryOut, hd.respects_carryOut, fun _ hopen => hopen.carryOut hd⟩
  | finish =>
    obtain ⟨d', hfinish, -⟩ := d.finish_step hd.sound
    exact ⟨d', hfinish, hd.finish hfinish, hd.respects_finish hfinish,
      fun _ hopen => hopen.finish hd hfinish⟩

omit [Machine σ] in
theorem guarded_fresh (config : Config) (ramBlocks flashBlocks erasedSectors : IndexSet)
    (machine : σ) :
    (Watched.fresh config ramBlocks flashBlocks erasedSectors machine).device.Guarded where
  sound := Upload.sound_onSets ramBlocks flashBlocks erasedSectors
  control := rfl
  waiting := fun channel _ hjob => by cases channel <;> cases hjob
  held := fun _ _ hheld => Phase.noConfusion hheld
  credited := fun _ hdone => Phase.noConfusion hdone
  late := fun _ hdone => Phase.noConfusion hdone

/-! ### Giving the disk back -/

/-- When the job that opens the disk is carried out, the disk is open, even if an image
    got complete in the meantime. -/
theorem Guarded.opens (hd : d.Guarded) (hopen : d.OpenWhenDue) {token : UInt32}
    (hphase : d.phase = .holding .control (.forAccess token .shared)) :
    d.carryOut.core.disk.isFenced = false
      ∧ ∃ status,
        d.carryOut.phase = .done { Job.forAccess token .shared with result := some status }
          ∧ (status = .ok ∨ d.carryOut.core.rebooting = true) := by
  have hfence : (d.core.slot .control).isFenced = false := congrArg Option.isSome hd.control
  cases hdue : d.core.rebooting with
  | true =>
    have hcarry := carryOut_of_rebooting hdue hphase
    rw [hfence] at hcarry
    rw [hcarry]
    exact ⟨congrArg Option.isSome (hopen hdue), _, rfl, .inr hdue⟩
  | false =>
    obtain ⟨hdone, hdisk⟩ := execute_forAccess token .shared hdue
    rw [carryOut_of_open hphase hfence]
    exact ⟨congrArg Slot.isFenced hdisk, .ok, congrArg Phase.done hdone, .inl rfl⟩

/-- How many jobs the worker deals with before the one in the slot of the control
    channel. -/
def ahead {σ : Type} (d : Device σ) : Nat :=
  (if d.phase = .idle then 0 else 1) + d.core.disk.job.toList.length

end Device

namespace Move

/-- The worker deals with one job, if there is one. -/
def round : List Move := [.take, .carryOut, .finish]

/-- The worker deals with several jobs, one after the other. -/
def rounds (n : Nat) : List Move := (List.replicate n round).flatten

end Move

namespace Watched

variable {σ : Type} [Machine σ] {v : Watched (Logged σ)}

theorem step_of_move {σ : Type} [Machine σ] {w : Watched σ} {m : Move} {d : Device σ}
    (h : w.device.move m = .ok d) : w.step m = .ok ⟨d, w.device.entries m ++ w.journal⟩ := by
  simp only [step, h]
  rfl

/-- In a round the worker takes a job, carries it out and tells of it. -/
theorem run_round (hv : v.device.Guarded) :
    ∃ d since, v.run Move.round = .ok ⟨d, since ++ v.journal⟩
      ∧ v.device.takeJob.carryOut.finish = .ok d
      ∧ ∀ job, v.device.takeJob.carryOut.phase = .done job → .told job ∈ since := by
  obtain ⟨d, hfinish, -⟩ := v.device.takeJob.carryOut.finish_step hv.takeJob.carryOut.sound
  let held : Watched (Logged σ) := ⟨v.device.takeJob, v.journal⟩
  let done : Watched (Logged σ) :=
    ⟨held.device.carryOut, held.device.entries .carryOut ++ held.journal⟩
  refine ⟨d, done.device.entries .finish ++ held.device.entries .carryOut, ?_, hfinish,
    fun job hphase => ?_⟩
  · have htake : v.step .take = .ok held := rfl
    have hcarry : held.step .carryOut = .ok done := rfl
    have hlast : done.step .finish = .ok ⟨d, done.device.entries .finish ++ done.journal⟩ := by
      simp only [step, Device.move]
      rw [show done.device.finish = .ok d from hfinish]
      rfl
    rw [Move.round, run_cons _ _ _ _ htake, run_cons _ _ _ _ hcarry, run_cons _ _ _ _ hlast,
      List.append_assoc]
    rfl
  · refine List.mem_append_left _ ?_
    have hdone : done.device.phase = .done job := hphase
    simp only [Device.entries, hdone, List.mem_singleton]

/-- A round leaves the worker with nothing to do. -/
theorem phase_round (hv : v.device.Guarded) {d : Device (Logged σ)}
    (h : v.device.takeJob.carryOut.finish = .ok d) : d.phase = .idle := by
  obtain ⟨-, -, ⟨-, hnot⟩ | hidle, -⟩ := Device.finish_keeps hv.takeJob.carryOut.sound h
  · cases hphase : v.device.takeJob.carryOut.phase with
    | idle =>
      rw [Device.finish_of_idle hphase] at h
      cases h
      exact hphase
    | holding origin job => exact absurd hphase (Device.carryOut_ne_holding _ origin job)
    | done job => exact absurd hphase (hnot job)
  · exact hidle

/-- A round does nothing if there is nothing to do. -/
theorem run_rounds_of_settled {w : Watched σ} (hw : w.device.Settled) (n : Nat) :
    w.run (Move.rounds n) = .ok w := by
  have htake : w.step .take = .ok w := by
    have hsame := Device.takeJob_of_empty hw.disk (congrArg Slot.job hw.control)
    simp only [step, Device.move, hsame]
    rfl
  have hcarry : w.step .carryOut = .ok w := by
    simp only [step, Device.move, Device.entries, Device.carryOut_of_idle hw.phase, hw.phase]
    rfl
  have hfinish : w.step .finish = .ok w := by
    simp only [step, Device.move, Device.entries, Device.finish_of_idle hw.phase, hw.phase]
    rfl
  induction n with
  | zero => rfl
  | succ n ih =>
    have hrounds : Move.rounds (n + 1) = .take :: .carryOut :: .finish :: Move.rounds n := rfl
    rw [hrounds, run_cons _ _ _ _ htake, run_cons _ _ _ _ hcarry, run_cons _ _ _ _ hfinish, ih]

/-- What waits after a round waited when the job of the round was taken. -/
theorem job_round (hv : v.device.Guarded) {d : Device (Logged σ)}
    (h : v.device.takeJob.carryOut.finish = .ok d) (channel : Channel) :
    (d.core.slot channel).job = (v.device.takeJob.core.slot channel).job := by
  obtain ⟨hdisk, hcontrol, -⟩ := Device.finish_keeps hv.takeJob.carryOut.sound h
  refine Eq.trans (congrArg Slot.job ?_) (Device.job_carryOut _ channel)
  cases channel with
  | disk => exact hdisk
  | control => exact hcontrol

/-- With other jobs ahead, a round leaves one of them less. -/
theorem round_of_ahead (hv : v.device.Guarded) {d : Device (Logged σ)}
    (hahead : v.device.ahead ≠ 0) (h : v.device.takeJob.carryOut.finish = .ok d) :
    d.core.control.job = v.device.core.control.job ∧ d.ahead < v.device.ahead := by
  have hjob := job_round hv h
  have hidle := phase_round hv h
  unfold Device.ahead at hahead ⊢
  rw [if_pos hidle]
  by_cases hphase : v.device.phase = .idle
  · rw [if_pos hphase] at hahead ⊢
    cases hdisk : v.device.core.disk.job with
    | none => exact absurd (by rw [hdisk]; rfl) hahead
    | some job =>
      rw [Device.takeJob_of_disk hphase hdisk] at hjob
      refine ⟨hjob .control, ?_⟩
      rw [show d.core.disk.job = none from hjob .disk]
      exact Nat.zero_lt_succ _
  · -- The worker is busy, and takes no other job.
    rw [Device.takeJob_of_busy hphase] at hjob
    refine ⟨hjob .control, ?_⟩
    rw [if_neg hphase, show d.core.disk.job = v.device.core.disk.job from hjob .disk]
    omega

/-- With no other job ahead, the worker carries out the job that opens the disk. -/
theorem round_of_forAccess (hv : v.device.Guarded) (hopen : v.device.OpenWhenDue)
    {token : UInt32} (hwaits : v.device.core.control.job = some (.forAccess token .shared))
    (hahead : v.device.ahead = 0) {d : Device (Logged σ)}
    (h : v.device.takeJob.carryOut.finish = .ok d) :
    d.Settled ∧ d.core.disk.isFenced = false
      ∧ ∃ status, v.device.takeJob.carryOut.phase
          = .done { Job.forAccess token .shared with result := some status }
        ∧ (status = .ok ∨ d.core.rebooting = true) := by
  have hguarded := hv.takeJob.carryOut
  obtain ⟨hdisk, hcontrol, -⟩ := Device.finish_keeps hguarded.sound h
  unfold Device.ahead at hahead
  have hphase : v.device.phase = .idle := by
    by_contra hbusy
    rw [if_neg hbusy] at hahead
    omega
  have hempty : v.device.core.disk.job = none := by
    cases hjob : v.device.core.disk.job with
    | none => rfl
    | some job =>
      rw [hjob, if_pos hphase] at hahead
      cases hahead
  have htake := Device.takeJob_of_control hphase hempty hwaits
  have hjob := job_round hv h
  have hheld : v.device.takeJob.phase = .holding .control (.forAccess token .shared) := by
    rw [htake]
  obtain ⟨hfenced, status, hdone, hended⟩ := hv.takeJob.opens (by rw [htake]; exact hopen) hheld
  refine ⟨⟨phase_round hv h, ?_, ?_⟩, ?_, status, hdone, hended.imp_right fun hdue => ?_⟩
  · rw [show d.core.disk.job = _ from hjob .disk, htake]
    exact hempty
  · have hnone : d.core.control.job = none := by
      rw [show d.core.control.job = _ from hjob .control, htake]
      rfl
    have hfence : d.core.control.fence = none := by
      rw [hcontrol]
      exact hguarded.control
    exact (show (⟨d.core.control.job, d.core.control.fence⟩ : Slot) = _ by rw [hnone, hfence]; rfl)
  · rw [hdisk]
    exact hfenced
  · -- Telling the host does not change whether a reboot is due.
    rw [Device.finish_of_host hdone rfl] at h
    cases h
    exact hdue

/-- Left alone, the worker comes to open the disk. -/
theorem run_rounds_opens {token : UInt32} (n : Nat) {v : Watched (Logged σ)}
    (hv : v.device.Guarded) (hopen : v.device.OpenWhenDue)
    (hwaits : v.device.core.control.job = some (.forAccess token .shared))
    (hahead : v.device.ahead ≤ n) :
    ∃ w since status, v.run (Move.rounds (n + 1)) = .ok w ∧ w.journal = since ++ v.journal
      ∧ .told { Job.forAccess token .shared with result := some status } ∈ since
      ∧ w.device.Settled ∧ w.device.core.disk.isFenced = false
      ∧ (status = .ok ∨ w.device.core.rebooting = true) := by
  induction n generalizing v with
  | zero =>
    obtain ⟨d, since, hrun, hround, htold⟩ := run_round hv
    obtain ⟨hsettled, hfenced, status, hdone, hended⟩ :=
      round_of_forAccess hv hopen hwaits (Nat.le_zero.mp hahead) hround
    exact ⟨_, since, status, hrun, rfl, htold _ hdone, hsettled, hfenced, hended⟩
  | succ n ih =>
    obtain ⟨d, since, hrun, hround, htold⟩ := run_round hv
    have hrounds : Move.rounds (n + 2) = Move.round ++ Move.rounds (n + 1) := rfl
    by_cases hlast : v.device.ahead = 0
    · obtain ⟨hsettled, hfenced, status, hdone, hended⟩ :=
        round_of_forAccess hv hopen hwaits hlast hround
      refine ⟨⟨d, since ++ v.journal⟩, since, status, ?_, rfl, htold _ hdone, hsettled, hfenced,
        hended⟩
      rw [hrounds]
      exact run_trans hrun (run_rounds_of_settled hsettled (n + 1))
    · obtain ⟨hcontrol, hless⟩ := round_of_ahead hv hlast hround
      obtain ⟨w, later, status, hlater, hjournal, hmem, hw⟩ := ih (v := ⟨d, since ++ v.journal⟩)
        (hv.takeJob.carryOut.finish hround)
        (Device.OpenWhenDue.finish (hopen.takeJob.carryOut hv.takeJob) hv.takeJob.carryOut hround)
        (hcontrol.trans hwaits) (Nat.lt_succ_iff.mp (Nat.lt_of_lt_of_le hless hahead))
      refine ⟨w, later ++ since, status, ?_, ?_, List.mem_append_left _ hmem, hw⟩
      · rw [hrounds]
        exact run_trans hrun hlater
      · rw [hjournal, List.append_assoc]

/-- In every run of a new device in which the mode changes by jobs only, the slot of the
    control channel is open. While the disk is fenced off, a job of the disk makes no call
    but the one that tells the host, no block becomes valid and no image calls for a
    reboot, whatever was left before. The mode changes only by a job of the control channel
    for this that ends well. And unless a reboot is due, the host can give the disk back:
    whatever comes in but a command to reboot, the disk is open once the job for this was
    carried out, and left alone the worker gets there. -/
theorem exclusive_access (config : Config) (ramBlocks flashBlocks erasedSectors : IndexSet)
    (machine : σ) (moves : List Move) (hmoves : ∀ m ∈ moves, m.setsMode = false) :
    ∃ w, (fresh config ramBlocks flashBlocks erasedSectors (Logged.new machine)).run moves = .ok w
      ∧ w.device.core.control.isFenced = false
      ∧ (∀ channel job, (w.device.core.slot channel).job = some job → job.source = channel)
      ∧ (∀ origin job, w.device.phase = .holding origin job → job.source = origin)
      ∧ (∀ m, m.setsMode = false →
        ∃ w', w.step m = .ok w' ∧ w.device.Respects m w'.device)
      ∧ (w.device.core.rebooting = false →
        (∀ later, (∀ m ∈ later, m.setsMode = false ∧ m.asksReboot = false) →
          ∃ v, w.run later = .ok v ∧ ∀ token,
            v.device.phase = .holding .control (.forAccess token .shared) →
              v.device.carryOut.core.disk.isFenced = false)
        ∧ ∀ token, ∃ v since status,
          w.run (.command token (.exclusiveAccess .shared) :: Move.rounds 3) = .ok v
            ∧ v.journal = since ++ w.journal
            ∧ .told { Job.forAccess token .shared with result := some status } ∈ since
            ∧ v.device.Settled ∧ v.device.core.disk.isFenced = false
            ∧ (status = .ok ∨ v.device.core.rebooting = true)) := by
  obtain ⟨w, hrun, hw⟩ := run_ok (P := fun w : Watched (Logged σ) => w.device.Guarded) moves
    (Device.guarded_fresh config ramBlocks flashBlocks erasedSectors (Logged.new machine))
    (by
      intro m hm v hv
      obtain ⟨d, hmove, hgoes⟩ := hv.move (hmoves m hm)
      exact ⟨_, step_of_move hmove, hgoes.guarded⟩)
  refine ⟨w, hrun, congrArg Option.isSome hw.control,
    fun channel job h => (hw.waiting channel job h).source,
    fun origin job h => (hw.held origin job h).source, fun m hm => ?_, fun hdue => ⟨?_, ?_⟩⟩
  · obtain ⟨d, hmove, hgoes⟩ := hw.move hm
    exact ⟨_, step_of_move hmove, hgoes.respects⟩
  · intro later hlater
    have hopen : w.device.OpenWhenDue := fun h => absurd (hdue.symm.trans h) Bool.false_ne_true
    obtain ⟨v, hrunLater, hv, hvopen⟩ := run_ok
      (P := fun w : Watched (Logged σ) => w.device.Guarded ∧ w.device.OpenWhenDue) later
      ⟨hw, hopen⟩ (by
        rintro m hm v ⟨hv, hvopen⟩
        obtain ⟨hmode, hask⟩ := hlater m hm
        obtain ⟨d, hmove, hgoes⟩ := hv.move hmode
        exact ⟨_, step_of_move hmove, hgoes.guarded, hgoes.due hask hvopen⟩)
    exact ⟨v, hrunLater, fun token hphase => (hv.opens hvopen hphase).1⟩
  · intro token
    have hstep : w.step (.command token (.exclusiveAccess .shared))
        = .ok ⟨{ w.device with core := w.device.core.withControlJob (.forAccess token .shared) },
            w.journal⟩ := rfl
    have htakes : w.device.core.Takes (w.device.core.withControlJob (.forAccess token .shared)) :=
      .command (show w.device.core.jobFor (.exclusiveAccess .shared) token = _ from rfl)
    rw [run_cons _ _ _ _ hstep]
    refine run_rounds_opens 2 (hw.takes htakes)
      (fun h => absurd (hdue.symm.trans h) Bool.false_ne_true) rfl ?_
    show (if w.device.phase = .idle then 0 else 1) + w.device.core.disk.job.toList.length ≤ 2
    have hlength : w.device.core.disk.job.toList.length ≤ 1 := by
      cases w.device.core.disk.job <;> simp
    split <;> omega

/-- The host takes the disk's place, and a sector comes just before the mode changes. -/
def takingMoves : List Move :=
  [.command 1 (.exclusiveAccess .exclusive), .take, .sector 2 (smallSector 0 1), .carryOut, .finish]

/-- On the small board the disk is fenced off then, and it can be given back. -/
theorem exclusive_access_smallBoard :
    (∀ m ∈ takingMoves, m.setsMode = false)
      ∧ ∃ w : Watched (Logged Recorder),
        (fresh smallConfig (.empty 1) (.empty 1) (.empty 1) (Logged.new ⟨[]⟩)).run takingMoves
            = .ok w
          ∧ w.device.core.disk.isFenced = true
          ∧ (∃ w', w.step .take = .ok w' ∧ w.device.Respects .take w'.device)
          ∧ ∃ v, w.run (.command 3 (.exclusiveAccess .shared) :: Move.rounds 3) = .ok v
            ∧ v.device.core.disk.isFenced = false := by
  have hmoves : ∀ m ∈ takingMoves, m.setsMode = false := by simp [takingMoves, Move.setsMode]
  let board : Watched (Logged Recorder) :=
    fresh smallConfig (.empty 1) (.empty 1) (.empty 1) (Logged.new ⟨[]⟩)
  let held : Watched (Logged Recorder) := { board with device := { board.device with
    phase := .holding .control (.forAccess 1 .exclusive) } }
  -- Whatever becomes of the block, the disk is fenced off when the job of the host is done.
  obtain ⟨w, hw, hfenced, hdue⟩ : ∃ w, board.run takingMoves = .ok w
      ∧ w.device.core.disk.isFenced = true ∧ w.device.core.rebooting = false := by
    obtain ⟨v, job, -, hcases⟩ := held.device.core.upload.accept_accepts (smallBlock 0 1) 2
      smallConfig false
    have htake : board.run [.command 1 (.exclusiveAccess .exclusive), .take] = .ok held := rfl
    have hsector := step_block (w := held) (ofSectorFor?_smallSector 0 1) hcases
    generalize Upload.entries _ _ _ _ _ ++ held.journal = journal at hsector
    let fed : Watched (Logged Recorder) :=
      ⟨{ held.device with core := held.device.core.afterBlock v job }, journal⟩
    have hcarry : ∃ w, fed.run [.carryOut, .finish] = .ok w ∧ w.device.core.disk.isFenced = true
        ∧ w.device.core.rebooting = false := ⟨_, rfl, rfl, rfl⟩
    obtain ⟨w, hw, hfenced, hdue⟩ := hcarry
    have hlater : held.run (.sector 2 (smallSector 0 1) :: [.carryOut, .finish]) = .ok w :=
      (run_cons held fed _ _ hsector).trans hw
    refine ⟨w, ?_, hfenced, hdue⟩
    have hall := run_trans htake hlater
    exact hall
  obtain ⟨_, hsame, -, -, -, hrespects, hback⟩ := exclusive_access smallConfig (.empty 1) (.empty 1)
    (.empty 1) (⟨[]⟩ : Recorder) takingMoves hmoves
  cases hw.symm.trans hsame
  obtain ⟨back, -, -, hopens, -, -, -, hopen, -⟩ := (hback hdue).2 3
  exact ⟨hmoves, w, hw, hfenced, hrespects .take rfl, back, hopens, hopen⟩

end Watched

end Reflash
