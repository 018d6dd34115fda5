import Reflash.Proofs.RebootLatch
import Reflash.Proofs.Session
/-! # The host changes memory while an image is uploaded

  The host may write memory or erase flash between two blocks of an image, and could
  destroy what the blocks before left there. Three things stand in the way. A
  mutation of the host is guarded unless the disk is fenced off, when its job is
  made. A guarded mutation is refused if the disk wrote last, when it is carried
  out. And a block that comes while the disk is fenced off ends the upload.

  Together they leave one way. Once a block is valid, a mutation of the host ends
  well only if the host has taken exclusive access since the last page was written,
  and the image gets complete afterwards only if the host gives access back before
  the next block comes. `Protected` is the invariant: either the disk wrote last and
  is open, or the host has held it since.
-/

namespace Reflash

/-! ### The jobs of commands -/

/-- A command changes the mode, or leaves memory alone, or is a mutation that is
    guarded unless the disk is fenced off. -/
theorem Core.jobFor_cases {c : Core} {command : Command} {token : UInt32} {job : Job}
    (h : c.jobFor command token = .ok job) :
    (∃ mode, command = .exclusiveAccess mode ∧ job.access = some mode ∧ job.isMutation = false)
    ∨ job.access = none ∧ job.isMutation = false
    ∨ job.access = none ∧ job.isMutation = true ∧ job.guarded = !c.disk.isFenced := by
  cases command with
  | exclusiveAccess mode =>
    cases h
    exact .inl ⟨mode, rfl, rfl, rfl⟩
  | exec addr =>
    cases h
    exact .inr (.inl ⟨rfl, rfl⟩)
  | read addr len =>
    simp only [jobFor, effectsFor, Job.read] at h
    split at h
    · cases h
      exact .inr (.inl ⟨rfl, rfl⟩)
    · cases h
  | write addr data =>
    simp only [jobFor, effectsFor, Job.write] at h
    split at h
    · cases h
      exact .inr (.inr ⟨rfl, rfl, Bool.false_or _⟩)
    · cases h
  | flashErase addr len =>
    cases h
    exact .inr (.inr ⟨rfl, rfl, Bool.false_or _⟩)
  | _ => cases h

/-- There is no block in a command that leaves a job for the control channel. -/
theorem Core.block?_of_jobFor {c : Core} {command : Command} {token : UInt32} {job : Job}
    (h : c.jobFor command token = .ok job) (familyId : UInt32) :
    command.block? familyId = none := by
  cases command with
  | writeSector => cases h
  | _ => rfl

namespace Job

variable {job : Job} {map : AddressMap} {rebooting : Bool} {lastWriter : Option Channel}

/-- A refused mutation does not end well, and is not taken for the last one. -/
theorem plan_of_refused (h : job.isRefused lastWriter = true) :
    (job.plan map rebooting lastWriter).status ≠ .ok
      ∧ (job.plan map rebooting lastWriter).lastWriter = lastWriter := by
  cases rebooting with
  | true => exact ⟨nofun, rfl⟩
  | false => simp [plan, h]

/-- A job that is no mutation is not taken for the last one. -/
theorem lastWriter_plan_of_not_mutation (h : job.isMutation = false) :
    (job.plan map rebooting lastWriter).lastWriter = lastWriter := by
  unfold plan
  simp only [h, Bool.false_eq_true, if_false]
  split
  · rfl
  · split
    · rfl
    · cases job.checkedMoves map <;> rfl

/-- A job for a page is a mutation that is never refused, unless a reboot is
    due. -/
theorem WritesPage.lastWriter_plan (hjob : job.WritesPage) (map : AddressMap)
    (lastWriter : Option Channel) : (job.plan map false lastWriter).lastWriter = some .disk := by
  have hrefused : job.isRefused lastWriter = false := by simp [isRefused, hjob.guarded]
  have hmutation : job.isMutation = true := by simp [isMutation, hjob.transfer]
  simp only [plan, hrefused, hmutation, hjob.source, Bool.false_eq_true, if_false, if_true]
  cases job.checkedMoves map <;> rfl

end Job

namespace Device

variable {σ : Type} [Machine σ]

/-- Carrying a job out does not change who it is from and whether it is a
    mutation. -/
theorem source_doneJob (d : Device σ) (job : Job) : (d.doneJob job).source = job.source := by
  simp only [doneJob, execute, Job.carriedOut]
  split <;> rfl

theorem isMutation_doneJob (d : Device σ) (job : Job) :
    (d.doneJob job).isMutation = job.isMutation := by
  simp only [doneJob, execute, Job.carriedOut]
  split <;> rfl

end Device

/-! ### Holding the disk -/

namespace Watched

variable {σ : Type} [Machine σ]

/-- A mutation of the host is carried out and ends well. -/
def Mutates (v v' : Watched σ) : Prop :=
  ∃ job, v'.journal = .told job :: .carriedOut job :: v.journal ∧ job.source = .control
    ∧ job.isMutation = true ∧ job.result = some .ok

/-- A block for the device comes while the disk is fenced off. -/
def BlockWhileFenced (w : Watched σ) (requests : List (UInt32 × Command)) : Prop :=
  ∃ earlier request later v, requests = earlier ++ request :: later ∧ w.serveAll earlier = .ok v
    ∧ v.device.core.disk.isFenced = true
    ∧ (request.2.block? v.device.core.config.familyId).isSome = true

/-- The host took exclusive access. Since then no page was written, and every block
    came while the disk was open again. -/
def HostHeld (w₀ : Watched σ) (requests : List (UInt32 × Command)) : Prop :=
  ∃ earlier token mode between v w since,
    requests = earlier ++ (token, .exclusiveAccess mode) :: between ∧ mode.isExclusive = true
    ∧ w₀.serveAll (earlier ++ [(token, .exclusiveAccess mode)]) = .ok v
    ∧ v.device.core.disk.fence = some mode ∧ v.serveAll between = .ok w
    ∧ w.journal = since ++ v.journal
    ∧ (∀ job, .carriedOut job ∈ since → job.source = .disk → job.result ≠ some .ok)
    ∧ ¬ v.BlockWhileFenced between

/-- If a block is valid, then the disk wrote last and is open, or the host has held
    it since. -/
def Protected (w₀ : Watched σ) (requests : List (UInt32 × Command)) (v : Watched σ) : Prop :=
  v.device.core.upload.numBlocks ≠ 0 → (∃ i, v.device.core.upload.isBlockValid i = true) →
    v.device.lastWriter = some .disk ∧ v.device.core.disk.fence = none ∨ HostHeld w₀ requests

section holding

variable {w₀ v v' : Watched σ} {requests : List (UInt32 × Command)} {request : UInt32 × Command}

theorem not_blockWhileFenced_nil (w : Watched σ) : ¬ w.BlockWhileFenced [] := by
  rintro ⟨earlier, request, later, -, h, -⟩
  simp at h

/-- A block that came while the disk was fenced off came with the last command, or
    before it. -/
theorem BlockWhileFenced.cases (h : v.BlockWhileFenced (requests ++ [request]))
    (hrun : v.serveAll requests = .ok v') :
    v.BlockWhileFenced requests ∨ v'.device.core.disk.isFenced = true
      ∧ (request.2.block? v'.device.core.config.familyId).isSome = true := by
  obtain ⟨earlier, r, later, x, hrequests, hx, hfenced, hblock⟩ := h
  rcases later.eq_nil_or_concat with rfl | ⟨later, last, rfl⟩
  · obtain ⟨rfl, hlast⟩ := List.append_inj' hrequests rfl
    cases hlast
    cases hx.symm.trans hrun
    exact .inr ⟨hfenced, hblock⟩
  · rw [List.concat_eq_append, ← List.cons_append, ← List.append_assoc] at hrequests
    obtain ⟨rfl, -⟩ := List.append_inj' hrequests rfl
    exact .inl ⟨earlier, r, later, x, rfl, hx, hfenced, hblock⟩

theorem HostHeld.now {token : UInt32} {mode : AccessMode} (hmode : mode.isExclusive = true)
    (hrun : w₀.serveAll (requests ++ [(token, .exclusiveAccess mode)]) = .ok v)
    (hfence : v.device.core.disk.fence = some mode) :
    HostHeld w₀ (requests ++ [(token, .exclusiveAccess mode)]) :=
  ⟨requests, token, mode, [], v, v, [], rfl, hmode, hrun, hfence, rfl, rfl, by simp,
    not_blockWhileFenced_nil v⟩

/-- The host goes on holding the disk while no page is written and no block comes to a
    disk that is fenced off. -/
theorem HostHeld.later {d : Device σ} {es : Journal} (h : HostHeld w₀ requests)
    (hrun : w₀.serveAll requests = .ok v) (hserve : v.serve request = .ok ⟨d, es ++ v.journal⟩)
    (hquiet : ∀ job, .carriedOut job ∈ es → job.source = .disk → job.result ≠ some .ok)
    (hopen : (request.2.block? v.device.core.config.familyId).isSome = true →
      v.device.core.disk.isFenced = false) :
    HostHeld w₀ (requests ++ [request]) := by
  obtain ⟨earlier, token, mode, between, x, w, since, rfl, hmode, hx, hfence, hw, hjournal, hsince,
    hblocks⟩ := h
  have hsame : w₀.serveAll (earlier ++ (token, .exclusiveAccess mode) :: between) = .ok w := by
    rw [← List.singleton_append, ← List.append_assoc, serveAll_append hx]
    exact hw
  cases hsame.symm.trans hrun
  refine ⟨earlier, token, mode, between ++ [request], x, _, es ++ since, by simp, hmode, hx, hfence,
    serveAll_snoc hw hserve, by rw [hjournal, List.append_assoc], ?_, ?_⟩
  · intro job hmem
    rcases List.mem_append.mp hmem with hmem | hmem
    · exact hquiet job hmem
    · exact hsince job hmem
  · intro hblock
    rcases hblock.cases hw with hblock | ⟨hfenced, hblock⟩
    · exact hblocks hblock
    · rw [hopen hblock] at hfenced
      cases hfenced

end holding

end Watched

/-! ### What one command does -/

/-- A block that is valid after a block was looked at was valid before, in an upload
    that goes on. -/
theorem Upload.Accepts.active {u v : Upload} {block : Block} {token : UInt32} {config : Config}
    {fenced : Bool} {job : Option Job} {i : UInt32} (h : Accepts u block token config fenced v job)
    (hn : v.numBlocks ≠ 0) (hv : v.isBlockValid i = true) :
    u.numBlocks ≠ 0 ∧ u.isBlockValid i = true ∧ fenced = false := by
  cases h with
  | turnedAway => exact absurd rfl hn
  | dropped hstay =>
    obtain ⟨hsame, hvalid⟩ := valid_of_joined hv
    rw [joined_of_eq hsame] at hn
    exact ⟨hn, hvalid, (Bool.or_eq_false_iff.mp hstay).2⟩
  | taken hstay =>
    obtain ⟨hsame, hvalid⟩ := valid_of_joined hv
    rw [joined_of_eq hsame] at hn
    exact ⟨hn, hvalid, (Bool.or_eq_false_iff.mp hstay).2⟩

/-- Looking at a block makes no upload but by starting one. -/
theorem Upload.Accepts.numBlocks_eq_zero {u v : Upload} {block : Block} {token : UInt32}
    {config : Config} {fenced : Bool} {job : Option Job}
    (h : Accepts u block token config fenced v job) (hn : u.numBlocks = 0)
    (hno : .started ∉ u.entries block config fenced (job.map Job.forUpload)) :
    v.numBlocks = 0 := by
  -- A block that is not turned away announces an image.
  have hstart : turnsAway block config fenced = false → .started ∈ u.entries block config fenced
      (job.map Job.forUpload) := by
    intro hstay
    have hblocks : block.header.numBlocks ≠ 0 := by
      intro hzero
      simp [turnsAway, hzero] at hstay
    simp [entries, hstay, hn, hblocks.symm]
  cases h with
  | turnedAway => rfl
  | dropped hstay => exact absurd (hstart hstay) hno
  | taken hstay => exact absurd (hstart hstay) hno

namespace Device

variable {σ : Type} [Machine σ] {d d' : Device σ} {token : UInt32} {command : Command}
  {es : Journal} {job : Job}

omit [Machine σ] in
/-- A mutation of the host is refused while the disk wrote last and is open. -/
theorem isRefused_of_disk (hjob : d.core.jobFor command token = .ok job)
    (hmutation : job.isMutation = true) (hwriter : d.lastWriter = some .disk)
    (hopen : d.core.disk.fence = none) : job.isRefused d.lastWriter = true := by
  have hsource := (Core.jobFor_eq_ok hjob).2.1
  obtain ⟨-, -, -, hnot⟩ | ⟨-, hnot⟩ | ⟨-, -, hguarded⟩ := Core.jobFor_cases hjob
  · rw [hmutation] at hnot
    cases hnot
  · rw [hmutation] at hnot
    cases hnot
  · simp [Job.isRefused, hmutation, hguarded, Slot.isFenced, hopen, hwriter, hsource]

/-- While the disk wrote last and is open, no command takes its place as the last
    writer, and only exclusive access fences it off. -/
theorem execute_of_disk (hjob : d.core.jobFor command token = .ok job)
    (hwriter : d.lastWriter = some .disk) (hopen : d.core.disk.fence = none) :
    (d.execute job).1.lastWriter = some .disk
      ∧ ((d.execute job).1.core.disk.fence = none
        ∨ ∃ mode, command = .exclusiveAccess mode ∧ mode.isExclusive = true
          ∧ (d.execute job).1.core.disk.fence = some mode) := by
  have hlast : (d.execute job).1.lastWriter
      = (job.plan d.core.config.map d.core.rebooting d.lastWriter).lastWriter := rfl
  have hmode := job.access_plan d.core.config.map d.core.rebooting d.lastWriter
  have hkept : (job.plan d.core.config.map d.core.rebooting d.lastWriter).lastWriter
      = some .disk := by
    cases hmutation : job.isMutation with
    | false => rw [Job.lastWriter_plan_of_not_mutation hmutation, hwriter]
    | true => rw [(Job.plan_of_refused (isRefused_of_disk hjob hmutation hwriter hopen)).2, hwriter]
  refine ⟨hlast.trans hkept, ?_⟩
  simp only [execute, hmode]
  cases d.core.rebooting with
  | true => exact .inl hopen
  | false =>
    obtain ⟨mode, rfl, haccess, -⟩ | ⟨haccess, -⟩ | ⟨haccess, -⟩ := Core.jobFor_cases hjob
    · simp only [haccess, Bool.false_eq_true, if_false, Slot.setMode]
      cases hmode : mode.isExclusive with
      | false => exact .inl rfl
      | true => exact .inr ⟨mode, rfl, hmode, rfl⟩
    · simp only [haccess, Bool.false_eq_true, if_false]
      exact .inl hopen
    · simp only [haccess, Bool.false_eq_true, if_false]
      exact .inl hopen

/-- While the disk wrote last and is open, no mutation of the host ends well. -/
theorem Served.not_mutates (h : d.Served token command es d') (hwriter : d.lastWriter = some .disk)
    (hopen : d.core.disk.fence = none) (hes : es = [.told job, .carriedOut job])
    (hsource : job.source = .control) (hmutation : job.isMutation = true) :
    job.result ≠ some .ok := by
  cases h with
  | answered => cases hes
  | latched => cases hes
  | noted => exact absurd (hes ▸ List.mem_cons_self) Upload.told_not_mem_entries
  | @written _ _ _ _ _ _ _ _ hpage =>
    -- That job is one of the disk.
    obtain ⟨hjob, -⟩ := List.cons.inj hes
    cases hjob
    have hdisk := hpage.source
    rw [show _ = Channel.control from hsource] at hdisk
    cases hdisk
  | @commanded left hjob =>
    obtain ⟨hdone, -⟩ := List.cons.inj hes
    cases hdone
    rw [isMutation_doneJob] at hmutation
    have hrefused := isRefused_of_disk hjob hmutation hwriter hopen
    intro hok
    exact (Job.plan_of_refused hrefused).1 (Option.some.inj hok)

end Device

namespace Watched

variable {σ : Type} [Machine σ] {w₀ v : Watched σ} {requests : List (UInt32 × Command)}

/-- The disk stays protected, whatever command comes next. -/
theorem Protected.step {d : Device σ} {token : UInt32} {command : Command} {es : Journal}
    (h : Protected w₀ requests v) (hrun : w₀.serveAll requests = .ok v)
    (hserve : v.serve (token, command) = .ok ⟨d, es ++ v.journal⟩)
    (hserved : v.device.Served token command es d) :
    Protected w₀ (requests ++ [(token, command)]) ⟨d, es ++ v.journal⟩ := by
  rintro hn ⟨i, hi⟩
  have hlater := fun hheld : HostHeld w₀ requests => hheld.later hrun hserve
  cases hserved with
  | answered hblock =>
    exact (h hn ⟨i, hi⟩).imp_right fun hheld => hlater hheld (by simp) (by simp [hblock])
  | latched hblock =>
    exact (h hn ⟨i, hi⟩).imp_right fun hheld => hlater hheld (by simp) (by simp [hblock])
  | noted hblock haccepts =>
    obtain ⟨hn', hi', hopen⟩ := haccepts.active hn hi
    exact (h hn' ⟨i, hi'⟩).imp_right fun hheld => hlater hheld
      (fun job hmem => absurd hmem Upload.carriedOut_not_mem_entries) fun _ => hopen
  | @written block u u' job p request hblock haccepts hpage hplan hcredit =>
    have hopen := haccepts.isFenced
    cases hdue : v.device.core.rebooting with
    | false =>
      rw [hdue] at hplan
      have hlast := hpage.lastWriter_plan v.device.core.config.map v.device.lastWriter
      rw [hplan] at hlast
      exact .inl ⟨hlast, Option.not_isSome_iff_eq_none.mp (Bool.eq_false_iff.mp hopen)⟩
    | true =>
      -- The job is refused, and the upload gets nothing out of it.
      rw [hdue] at hplan
      obtain rfl := hplan
      rw [Upload.credit_of_not_awaits _ (by simp [Upload.awaits, Job.plan])] at hcredit
      cases hcredit
      obtain ⟨hn', hi', -⟩ := haccepts.active hn hi
      refine (h hn' ⟨i, hi'⟩).imp_right fun hheld => hlater hheld ?_ fun _ => hopen
      intro done hmem _
      obtain rfl : done = { job.forUpload with
          result := some (job.forUpload.plan v.device.core.config.map true
            v.device.lastWriter).status } := by
        simpa [Upload.carriedOut_not_mem_entries] using hmem
      simp [Job.plan]
  | @commanded job hjob =>
    have hnone := Core.block?_of_jobFor hjob v.device.core.config.familyId
    obtain ⟨hwriter, hopen⟩ | hheld := h hn ⟨i, hi⟩
    · obtain ⟨hlast, hopen' | ⟨mode, rfl, hmode, hfence⟩⟩ :=
        Device.execute_of_disk hjob hwriter hopen
      · exact .inl ⟨hlast, hopen'⟩
      · exact .inr (.now hmode (serveAll_snoc hrun hserve) hfence)
    · refine .inr (hlater hheld ?_ (by simp [hnone]))
      intro done hmem hsource
      have hdone : done = v.device.doneJob job := by simpa using hmem
      rw [hdone, Device.source_doneJob, (Core.jobFor_eq_ok hjob).2.1] at hsource
      cases hsource

end Watched

/-! ### After the mutation -/

/-- The credit that calls for a reboot makes the image complete. -/
theorem Upload.complete_of_credit {u v : Upload} {job : Job} {config : Config}
    {request : RebootRequest} (hu : u.Sound) (h : u.credit job config = .ok (v, some request)) :
    v.progress = .complete := by
  rcases cases_of_credit hu h with ⟨-, -, hnone⟩ | ⟨hawaits, hv⟩
  · cases hnone
  · simp only [awaits, Bool.and_eq_true, bne_iff_ne] at hawaits
    have hrequest := (hv.isSome_request hu hawaits.1.1).mp rfl
    have hn : v.numBlocks ≠ 0 := by
      rw [hv.numBlocks]
      exact hawaits.1.1
    obtain ⟨-, -, -, -, -, -, hall⟩ := hrequest
    rw [← hv.numBlocks] at hall
    exact ((hv.sound hn).progress_eq_complete_iff hn).mpr hall

namespace Device

variable {token : UInt32} {command : Command} {es : Journal}

section given

variable {σ : Type} [Machine σ] {d d' : Device σ}

/-- Without an upload there is none until one is started. -/
theorem Served.numBlocks_eq_zero (h : d.Served token command es d')
    (hn : d.core.upload.numBlocks = 0) (hno : .started ∉ es) : d'.core.upload.numBlocks = 0 := by
  cases h with
  | noted _ haccepts => exact haccepts.numBlocks_eq_zero hn hno
  | written _ haccepts _ _ hcredit =>
    have hv := haccepts.numBlocks_eq_zero hn fun hmem =>
      hno (List.mem_cons_of_mem _ (List.mem_cons_of_mem _ hmem))
    rw [Upload.credit_of_not_awaits _ (by simp [Upload.awaits, hv])] at hcredit
    cases hcredit
    exact hv
  | _ => exact hn

/-- A block that comes while the disk is fenced off ends the upload. -/
theorem Served.numBlocks_of_fenced (h : d.Served token command es d')
    (hfenced : d.core.disk.isFenced = true)
    (hblock : (command.block? d.core.config.familyId).isSome = true) :
    d'.core.upload.numBlocks = 0 := by
  cases h with
  | answered hnone => simp [hnone] at hblock
  | latched hnone => simp [hnone] at hblock
  | noted _ haccepts =>
    cases haccepts with
    | turnedAway => rfl
    | dropped hstay => simp [Upload.turnsAway, hfenced] at hstay
  | written _ haccepts =>
    have hopen := haccepts.isFenced
    rw [hfenced] at hopen
    cases hopen
  | commanded hjob => simp [Core.block?_of_jobFor hjob] at hblock

end given

variable {σ : Type} [Machine σ] {d d' : Device (Logged σ)}

/-- The machine is asked for a reboot only when the image gets complete. -/
theorem Served.complete_of_reboot (h : d.Served token command es d')
    (hs : d.core.upload.Sound) : ∃ new, d'.machine.calls = new ++ d.machine.calls
      ∧ ((∃ call ∈ new, call.isReboot = true) → d'.core.upload.progress = .complete) := by
  -- Neither a plan nor telling the host asks for a reboot.
  have hplanned : ∀ (job : Job) (response : Response), ∀ call ∈ .complete response
      :: (job.plan d.core.config.map d.core.rebooting d.lastWriter).calls.reverse,
      call.isReboot = false := by
    intro job response call hmem
    rcases List.mem_cons.mp hmem with rfl | hmem
    · rfl
    · exact (Job.mem_plan_calls (List.mem_reverse.mp hmem)).1
  cases h with
  | @written block u u' job p request _ haccepts _ hplan hcredit =>
    obtain rfl := hplan
    cases request with
    | none =>
      refine ⟨_ :: _, congrArg _ (Logged.calls_performAll _ _), ?_⟩
      rintro ⟨call, hmem, hreboot⟩
      rw [hplanned job.forUpload _ call hmem] at hreboot
      cases hreboot
    | some request =>
      exact ⟨_ :: _ :: _, congrArg (fun calls => _ :: _ :: calls) (Logged.calls_performAll _ _),
        fun _ => Upload.complete_of_credit (haccepts.sound hs) hcredit⟩
  | @commanded job hjob =>
    refine ⟨_ :: _, congrArg _ (Logged.calls_performAll _ _), ?_⟩
    rintro ⟨call, hmem, hreboot⟩
    rw [hplanned job _ call hmem] at hreboot
    cases hreboot
  | _ => exact ⟨[], rfl, by simp⟩

end Device

namespace Watched

variable {σ : Type} [Machine σ]

/-- What is known once more commands were served: a block that came while the disk was
    fenced off ended the upload, and the machine was asked for a reboot only when the
    image got complete. -/
structure Since (w : Watched (Logged σ)) (later : List (UInt32 × Command))
    (v : Watched (Logged σ)) (since : Journal) (new : List Call) : Prop where
  journal : v.journal = since ++ w.journal
  calls : v.device.machine.calls = new ++ w.device.machine.calls
  ended : .started ∉ since → w.BlockWhileFenced later → v.device.core.upload.numBlocks = 0
  reboot : (∃ call ∈ new, call.isReboot = true) → ∃ done rest x, later = done ++ rest
    ∧ w.serveAll done = .ok x ∧ x.device.core.upload.progress = .complete

theorem serveAll_since {w : Watched (Logged σ)} (hw : w.device.Settled)
    (hs : w.device.core.upload.Sound) (later : List (UInt32 × Command)) :
    ∃ v since new, w.serveAll later = .ok v ∧ w.Since later v since new := by
  obtain ⟨v, hrun, -, -, since, new, h⟩ := serveAll_history
    (P := fun later v => ∃ since new, w.Since later v since new) hw hs
    ⟨[], [], rfl, rfl, fun _ h => absurd h (not_blockWhileFenced_nil w), by simp⟩ (by
      rintro later v token command d es hrun ⟨since, new, h⟩ hbooks hserve hserved
      obtain ⟨more, hcalls, hreboot⟩ := hserved.complete_of_reboot hbooks
      refine ⟨es ++ since, more ++ new, by rw [h.journal, List.append_assoc],
        by rw [hcalls, h.calls, List.append_assoc], ?_, ?_⟩
      · intro hno hblock
        rw [List.mem_append, not_or] at hno
        rcases hblock.cases hrun with hblock | ⟨hfenced, hblock⟩
        · exact hserved.numBlocks_eq_zero (h.ended hno.2 hblock) hno.1
        · exact hserved.numBlocks_of_fenced hfenced hblock
      · rintro ⟨call, hmem, hasked⟩
        rcases List.mem_append.mp hmem with hmem | hmem
        · exact ⟨later ++ [(token, command)], [], _, by simp, serveAll_snoc hrun hserve,
            hreboot ⟨call, hmem, hasked⟩⟩
        · obtain ⟨done, rest, x, rfl, hx, hcomplete⟩ := h.reboot ⟨call, hmem, hasked⟩
          exact ⟨done, rest ++ [(token, command)], x, by simp, hx, hcomplete⟩) later
  exact ⟨v, since, new, hrun, h⟩

/-- Unless an upload is started, the image gets complete or a reboot is asked for only
    if no block came while the disk was fenced off. -/
theorem complete_only_if_open {w : Watched (Logged σ)} (hw : w.device.Settled)
    (hs : w.device.core.upload.Sound) (later : List (UInt32 × Command)) :
    ∃ v since new, w.serveAll later = .ok v ∧ v.journal = since ++ w.journal
      ∧ v.device.machine.calls = new ++ w.device.machine.calls
      ∧ (.started ∉ since →
        v.device.core.upload.progress = .complete ∨ (∃ call ∈ new, call.isReboot = true) →
        ∃ done rest x, later = done ++ rest ∧ w.serveAll done = .ok x
          ∧ x.device.core.upload.progress = .complete ∧ ¬ w.BlockWhileFenced done) := by
  obtain ⟨v, since, new, hv, h⟩ := serveAll_since hw hs later
  refine ⟨v, since, new, hv, h.journal, h.calls, fun hno hend => ?_⟩
  -- A reboot is asked for when the image gets complete, which may be before the last command.
  obtain ⟨done, rest, x, rfl, hx, hcomplete⟩ : ∃ done rest x, later = done ++ rest
      ∧ w.serveAll done = .ok x ∧ x.device.core.upload.progress = .complete := by
    rcases hend with hcomplete | hreboot
    · exact ⟨later, [], v, by simp, hv, hcomplete⟩
    · exact h.reboot hreboot
  refine ⟨done, rest, x, rfl, hx, hcomplete, fun hblock => ?_⟩
  obtain ⟨x', since', new', hx', h'⟩ := serveAll_since hw hs done
  cases hx'.symm.trans hx
  obtain ⟨more, hmore⟩ := serveAll_journal ((serveAll_append hx rest).symm.trans hv)
  have hsplit : since = more ++ since' := by
    rw [h.journal, h'.journal, ← List.append_assoc] at hmore
    exact List.append_cancel_right hmore
  rw [hsplit, List.mem_append, not_or] at hno
  have hidle := h'.ended hno.2 hblock
  simp [Upload.progress, hidle] at hcomplete

/-- After some commands of a new device the upload may have valid blocks. If then a
    mutation of the host ends well, the host has taken exclusive access, no page was
    written since, and every block since came while the disk was open again. From then
    on, unless an upload is started, the image gets complete or a reboot is asked for
    only if no block came while the disk was fenced off. -/
theorem mutates_under_exclusive_access (config : Config)
    (ramBlocks flashBlocks erasedSectors : IndexSet) (machine : σ)
    (requests : List (UInt32 × Command)) (request : UInt32 × Command) :
    ∃ w w', (fresh config ramBlocks flashBlocks erasedSectors (Logged.new machine)).serveAll
          requests = .ok w
      ∧ w.serve request = .ok w'
      ∧ (w.device.core.upload.numBlocks ≠ 0 →
        (∃ i, w.device.core.upload.isBlockValid i = true) → Mutates w w' →
        HostHeld (fresh config ramBlocks flashBlocks erasedSectors (Logged.new machine)) requests
        ∧ ∀ later, ∃ v since new, w'.serveAll later = .ok v ∧ v.journal = since ++ w'.journal
          ∧ v.device.machine.calls = new ++ w'.device.machine.calls
          ∧ (.started ∉ since →
            v.device.core.upload.progress = .complete ∨ (∃ call ∈ new, call.isReboot = true) →
            ∃ done rest x, later = done ++ rest ∧ w'.serveAll done = .ok x
              ∧ x.device.core.upload.progress = .complete ∧ ¬ w'.BlockWhileFenced done)) := by
  let w₀ := fresh config ramBlocks flashBlocks erasedSectors (Logged.new machine)
  obtain ⟨w, hrun, hw, hs, hprotected⟩ := serveAll_history (P := Protected w₀)
    (settled_fresh config ramBlocks flashBlocks erasedSectors (Logged.new machine))
    (Upload.sound_onSets ramBlocks flashBlocks erasedSectors) (fun hn => absurd rfl hn)
    (fun requests v token command d es hrun h _ hserve hserved => h.step hrun hserve hserved)
    requests
  obtain ⟨d, es, hserve, hserved⟩ := w.serve_served hw hs request.1 request.2
  refine ⟨w, _, hrun, hserve, ?_⟩
  rintro hn hvalid ⟨job, hjournal, hsource, hmutation, hok⟩
  have hes : es = [.told job, .carriedOut job] := List.append_cancel_right hjournal
  refine ⟨?_, complete_only_if_open (hserved.settled hw) (hserved.sound hs)⟩
  obtain ⟨hwriter, hopen⟩ | hheld := hprotected hn hvalid
  · exact absurd hok (hserved.not_mutates hwriter hopen hes hsource hmutation)
  · exact hheld

/-! ### A host that gives access back -/

/-- The small board with nothing going on. -/
def settledSmallBoard (upload : Upload) (fence : Option AccessMode) (lastWriter : Option Channel)
    (rebooting : Bool) (machine : Logged Recorder) (journal : Journal) :
    Watched (Logged Recorder) :=
  { device :=
      { core :=
          { config := smallConfig, disk := ⟨none, fence⟩, control := .empty, upload, rebooting }
        phase := .idle, lastWriter, machine }
    journal }

theorem block?_smallSector (blockNo numBlocks : UInt32) :
    (Command.writeSector 0 (smallSector blockNo numBlocks).toList).block? smallConfig.familyId
      = some (smallBlock blockNo numBlocks) :=
  Command.block?_of_sector 0 (ofSectorFor?_smallSector blockNo numBlocks)

/-- A block that belongs to the image is written and counts. -/
theorem settledSmallBoard_block {u : Upload} (v : Upload) (request : Option RebootRequest)
    (lastWriter : Option Channel) (machine : Logged Recorder) (journal : Journal)
    {token blockNo numBlocks : UInt32}
    (hstay : Upload.turnsAway (smallBlock blockNo numBlocks) smallConfig false = false)
    (hfits : (u.joined (smallBlock blockNo numBlocks) smallConfig).2 = true)
    (hkind : (Upload.ramOf smallConfig.map (smallBlock blockNo numBlocks)).isSome
      = (u.joined (smallBlock blockNo numBlocks) smallConfig).1.inRam)
    (hno : blockNo < numBlocks)
    (hram : (Upload.ramOf smallConfig.map (smallBlock blockNo numBlocks)).isSome = true)
    (hcredit : { (u.joined (smallBlock blockNo numBlocks) smallConfig).1 with
      blockNo, token }.credit (smallJob token blockNo numBlocks).endedWell smallConfig
        = .ok (v, request)) :
    ∃ machine' new es, (settledSmallBoard u none lastWriter false machine journal).serve
        (token, .writeSector 0 (smallSector blockNo numBlocks).toList)
      = .ok (settledSmallBoard v none (some .disk) request.isSome machine' (es ++ journal))
      ∧ machine'.calls = new ++ machine.calls ∧ (∀ r, request = some r → .reboot r ∈ new)
      ∧ (u.numBlocks = numBlocks → .started ∉ es) := by
  have hjob := writesPage_smallJob token blockNo numBlocks
  have hserve := serve_written (w := settledSmallBoard u none lastWriter false machine journal)
    ⟨rfl, rfl, rfl⟩ (block?_smallSector _ _) (accepts_smallBlock hstay hfits hkind hno) hjob
    (hjob.plan_ram hram rfl lastWriter) hcredit
  have hes : ∀ job, u.numBlocks = numBlocks →
      .started ∉ u.entries (smallBlock blockNo numBlocks) smallConfig false (some job) := by
    intro job hn
    have hsame : u.numBlocks = (smallBlock blockNo numBlocks).header.numBlocks := hn
    unfold Upload.entries
    rw [if_neg (by simp [hstay]), if_pos hsame]
    simp
  let entries := u.entries (smallBlock blockNo numBlocks) smallConfig false
    (some (smallJob token blockNo numBlocks))
  cases request with
  | none =>
    refine ⟨_, [_, _], .told _ :: .carriedOut _ :: entries, hserve, rfl, nofun, fun hn => ?_⟩
    simpa using hes _ hn
  | some r =>
    refine ⟨_, [_, _, _], .told _ :: .carriedOut _ :: entries, hserve, rfl, ?_, fun hn => ?_⟩
    · rintro _ ⟨⟩
      simp
    · simpa using hes _ hn

/-- The job of a command is carried out according to its plan. -/
theorem settledSmallBoard_command (u : Upload) (fence : Option AccessMode)
    (lastWriter : Option Channel) (machine : Logged Recorder) (journal : Journal)
    (request : UInt32 × Command) (job : Job) (p : Job.Plan)
    (hjob : (settledSmallBoard u fence lastWriter false machine journal).device.core.jobFor
      request.2 request.1 = .ok job) (hplan : job.plan smallConfig.map false lastWriter = p)
    (hwrite : job.transfer ≠ some .read) :
    ∃ machine' new, (settledSmallBoard u fence lastWriter false machine journal).serve request
      = .ok (settledSmallBoard u (match p.access with
          | some mode => if mode.isExclusive then some mode else none
          | none => fence) p.lastWriter false machine'
        (.told { job with result := some p.status }
          :: .carriedOut { job with result := some p.status } :: journal))
      ∧ machine'.calls = new ++ machine.calls := by
  let before := settledSmallBoard u fence lastWriter false machine journal
  let after := settledSmallBoard u (match p.access with
      | some mode => if mode.isExclusive then some mode else none
      | none => fence) p.lastWriter false (Machine.performAll machine p.calls) journal
  have hexecute : before.device.execute job = (after.device, job, p.status) := by
    have hreads : p.reads job = false := by simp [Job.Plan.reads, hwrite]
    have hplan' : job.plan before.device.core.config.map before.device.core.rebooting
        before.device.lastWriter = p := hplan
    simp only [Device.execute, hplan', Job.carriedOut, hreads, Bool.false_eq_true, if_false]
    cases haccess : p.access with
    | none =>
      simp only [before, after, settledSmallBoard, haccess]
    | some mode =>
      simp only [before, after, settledSmallBoard, haccess]
      rfl
  have hserve := serve_job (w := before) ⟨rfl, rfl, rfl⟩ hjob
  simp only [Device.doneJob, hexecute] at hserve
  exact ⟨_, _ :: _, hserve, congrArg (_ :: ·) (Logged.calls_performAll machine p.calls)⟩

/-- An upload of two blocks to the RAM of the small board. -/
def twoBlocks (valid count blockNo token : UInt32) : Upload :=
  { ramBlocks := ⟨#[valid]⟩, flashBlocks := .empty 1, erasedSectors := .empty 1, numBlocks := 2
    validCount := count, lowestAddr := 0x20000000, inRam := true, blockNo, token }

/-- The job of a command for another access mode. -/
def modeJob (token : UInt32) (mode : AccessMode) : Job :=
  { Job.changeAccess .control token mode with listener := some .host }

/-- The first of two blocks comes, and the host takes exclusive access. -/
theorem serveAll_firstBlock :
    ∃ machine journal,
      (fresh smallConfig (.empty 1) (.empty 1) (.empty 1) (Logged.new (⟨[]⟩ : Recorder))).serveAll
          [(1, .writeSector 0 (smallSector 0 2).toList), (2, .exclusiveAccess .exclusive)]
        = .ok (settledSmallBoard (twoBlocks 1 1 0 1) (some .exclusive) (some .disk) false machine
          journal) := by
  obtain ⟨m, -, es, hblock, -⟩ : ∃ m new es,
      (settledSmallBoard (.onSets (.empty 1) (.empty 1) (.empty 1)) none none false
          (Logged.new ⟨[]⟩) []).serve (1, .writeSector 0 (smallSector 0 2).toList)
        = .ok (settledSmallBoard (twoBlocks 1 1 0 1) none (some .disk) false m (es ++ [])) ∧ _ :=
    settledSmallBoard_block (twoBlocks 1 1 0 1) none none _ [] (by decide) (by decide) (by decide)
      (by decide) (by decide) (by decide)
  obtain ⟨m', -, hheld, -⟩ := settledSmallBoard_command (twoBlocks 1 1 0 1) none (some .disk) m
    (es ++ []) (2, .exclusiveAccess .exclusive) (modeJob 2 .exclusive)
    ⟨.ok, [], some .exclusive, some .disk⟩ rfl rfl (by decide)
  exact ⟨_, _, (serveAll_cons hblock _).trans (serveAll_cons hheld _)⟩

/-- The host gives access back, and the second block comes. -/
theorem serveAll_lastBlock (machine : Logged Recorder) (journal : Journal) :
    ∃ machine' new since,
      (settledSmallBoard (twoBlocks 1 1 0 1) (some .exclusive) (some .control) false machine
          journal).serveAll
          [(4, .exclusiveAccess .shared), (5, .writeSector 0 (smallSector 1 2).toList)]
        = .ok (settledSmallBoard (twoBlocks 3 2 1 5) none (some .disk) true machine'
          (since ++ journal))
      ∧ .started ∉ since ∧ machine'.calls = new ++ machine.calls
      ∧ ∃ call ∈ new, call.isReboot = true := by
  obtain ⟨m, new, hopened, hcalls⟩ := settledSmallBoard_command (twoBlocks 1 1 0 1)
    (some .exclusive) (some .control) machine journal (4, .exclusiveAccess .shared)
    (modeJob 4 .shared) ⟨.ok, [], some .shared, some .control⟩ rfl rfl (by decide)
  let opened := (modeJob 4 .shared).endedWell
  obtain ⟨m', new', es, hblock, hcalls', hreboot, hstarted⟩ : ∃ m' new' es,
      (settledSmallBoard (twoBlocks 1 1 0 1) none (some .control) false m
          (.told opened :: .carriedOut opened :: journal)).serve
            (5, .writeSector 0 (smallSector 1 2).toList)
        = .ok (settledSmallBoard (twoBlocks 3 2 1 5) none (some .disk) true m'
          (es ++ .told opened :: .carriedOut opened :: journal))
      ∧ m'.calls = new' ++ m.calls ∧ (∀ r, _ = some r → .reboot r ∈ new')
      ∧ ((twoBlocks 1 1 0 1).numBlocks = 2 → .started ∉ es) :=
    settledSmallBoard_block (twoBlocks 3 2 1 5) (some ⟨0x20000000, 0, 0⟩) (some .control) m _
      (by decide) (by decide) (by decide) (by decide) (by decide) (by decide)
  refine ⟨m', new' ++ new, es ++ [.told opened, .carriedOut opened],
    (serveAll_cons hopened _).trans ((serveAll_cons hblock _).trans ?_), ?_, ?_, _,
    List.mem_append_left _ (hreboot _ rfl), rfl⟩
  · rw [List.append_assoc]
    rfl
  · simp [hstarted rfl]
  · rw [hcalls', hcalls, List.append_assoc]

/-- The first of two blocks is valid when the host, which holds the disk, writes over
    it. Then the host gives access back, the second block comes and the image is
    complete, although no upload was started since the host wrote. -/
theorem complete_after_mutation :
    ∃ w w' v since new,
      (fresh smallConfig (.empty 1) (.empty 1) (.empty 1) (Logged.new (⟨[]⟩ : Recorder))).serveAll
          [(1, .writeSector 0 (smallSector 0 2).toList), (2, .exclusiveAccess .exclusive)] = .ok w
        ∧ w.device.core.upload.numBlocks ≠ 0 ∧ w.device.core.upload.isBlockValid 0 = true
        ∧ w.serve (3, .write 0x20000000 [0x5A, 0x5A, 0x5A, 0x5A]) = .ok w' ∧ Mutates w w'
        ∧ w'.serveAll
          [(4, .exclusiveAccess .shared), (5, .writeSector 0 (smallSector 1 2).toList)] = .ok v
        ∧ v.journal = since ++ w'.journal ∧ .started ∉ since
        ∧ v.device.core.upload.progress = .complete
        ∧ v.device.machine.calls = new ++ w'.device.machine.calls
        ∧ ∃ call ∈ new, call.isReboot = true := by
  let bytes : Bytes := [0x5A, 0x5A, 0x5A, 0x5A]
  let written : Job :=
    { Job.idle .control 3 with
      transfer := some .write, addr := 0x20000000, length := 4
      data := Job.overlay (Vector.replicate 256 0) bytes, listener := some .host }
  have hactive : (twoBlocks 1 1 0 1).numBlocks ≠ 0 := by decide
  have hvalid : (twoBlocks 1 1 0 1).isBlockValid 0 = true := by decide
  have hcomplete : (twoBlocks 3 2 1 5).progress = .complete := by decide
  obtain ⟨m, journal, hfirst⟩ := serveAll_firstBlock
  -- The job is made while the disk is fenced off, so it is not guarded.
  obtain ⟨m', -, hwrite, -⟩ := settledSmallBoard_command (twoBlocks 1 1 0 1) (some .exclusive)
    (some .disk) m journal (3, .write 0x20000000 bytes) written
    ⟨.ok, [.writeRam 0x20000000 bytes], none, some .control⟩ rfl rfl (by decide)
  obtain ⟨m'', new, since, hlast, hstarted, hcalls, hreboot⟩ := serveAll_lastBlock m'
    (.told _ :: .carriedOut _ :: journal)
  exact ⟨_, _, _, since, new, hfirst, hactive, hvalid, hwrite, ⟨_, rfl, rfl, rfl, rfl⟩, hlast, rfl,
    hstarted, hcomplete, hcalls, hreboot⟩

end Watched

end Reflash
