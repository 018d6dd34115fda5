import Reflash.Proofs.EraseDiscipline
import Reflash.Proofs.HostMutation
/-! # Every accepted block lands

  A block is looked at twice. The upload finds a place for its page when the block comes,
  and the worker checks the addresses of the job when it is carried out. The two go about it
  in different ways: the upload counts sectors from where the region begins, the worker
  wants whole sectors by address. In a table whose regions do not overlap and whose flash is
  made of whole erase sectors they agree, so that a job that was made once ends well
  whenever it is carried out. Only a reboot or a fence can keep it from that.

  `Job.Lands` is what a job has to be for this, and `Watched.Landing` says that the jobs of
  the disk are like that all along a run.
-/

namespace Reflash

/-- A table whose regions do not overlap and whose flash is made of whole erase sectors.
    There may be any number of regions of flash. -/
structure AddressMap.Sectored (map : AddressMap) : Prop where
  apart : map.Apart
  flashAligned : ∀ region ∈ map, region.kind = .flash → region.Aligned

/-! ### Jobs that land -/

namespace Job

/-- A job that writes one page, for which there is a place. -/
structure Lands (job : Job) (map : AddressMap) : Prop where
  page : job.WritesPage
  placed : ∃ capacity, job.Placed map capacity

variable {job : Job} {map : AddressMap}

/-- Who is told of a job does not matter. -/
theorem Lands.withListener (h : job.Lands map) (listener : Option Listener) :
    { job with listener }.Lands map := by
  obtain ⟨page, capacity, hplaced⟩ := h
  refine ⟨⟨page.access, page.execute, page.transfer, page.guarded, page.length, page.source⟩,
    capacity, ?_⟩
  cases hplaced with
  | ram hram herase => exact .ram hram herase
  | flash region hram hflash hsector hexit hpage herase =>
    exact .flash region hram hflash hsector hexit hpage herase

/-- The one call of such a job writes its page. -/
theorem pageCall_cases (map : AddressMap) (job : Job) :
    job.pageCall map = .writeRam job.addr job.payload
    ∨ ∃ erase, job.pageCall map = .updateFlash ⟨erase, some (job.addr, job.payload)⟩ := by
  unfold pageCall
  split
  · exact .inl rfl
  · exact .inr ⟨job.erase, rfl⟩

end Job

/-- A job that lands does so at any time, unless a reboot is due. -/
theorem Device.execute_lands {σ : Type} [Machine σ] (d : Device σ) {job : Job}
    (hmap : d.core.config.map.Sectored) (hjob : job.Lands d.core.config.map)
    (hdue : d.core.rebooting = false) :
    d.execute job = ({ d with
      lastWriter := some .disk
      machine := Machine.perform d.machine (job.pageCall d.core.config.map) }, job, .ok) := by
  obtain ⟨capacity, hplaced⟩ := hjob.placed
  have hplan := hjob.page.plan_of_aligned hplaced
    (fun region hregion => hmap.flashAligned region (AddressMap.mem_of_findOf? hregion)
      (AddressMap.kind_of_findOf? hregion)) d.lastWriter
  rw [← hdue] at hplan
  rw [d.execute_page hjob.page hplan rfl]
  rfl

/-- The job for an accepted block lands. -/
theorem Upload.Accepts.lands {u v : Upload} {block : Block} {token : UInt32} {config : Config}
    {fenced : Bool} {job : Job} (h : Accepts u block token config fenced v (some job))
    (hmap : config.map.Apart) (hpayload : block.payload.length = 256) :
    job.forUpload.Lands config.map := by
  have hopen : fenced = false := h.isFenced
  subst hopen
  refine ⟨h.writesPage hpayload, u.erasedSectors.capacity, ?_⟩
  cases h with
  | taken hstay hkeep => exact placed_of_apart token hmap.findOf?_flash_eq_none hstay hkeep

/-- The job for an accepted block writes its payload to where it belongs. -/
theorem Upload.Accepts.writes {u v : Upload} {block : Block} {token : UInt32} {config : Config}
    {fenced : Bool} {job : Job} (h : Accepts u block token config fenced v (some job))
    (hpayload : block.payload.length = 256) :
    job.addr = block.header.targetAddr ∧ job.payload = block.payload := by
  cases h with
  | taken => exact ⟨rfl, Job.payload_pageJob hpayload⟩

/-! ### How jobs end -/

/-- A job of the disk ends well, or is fenced off, or comes too late. -/
def Job.EndsFit (job : Job) : Prop :=
  job.source = .disk →
    job.result = some .ok ∨ job.result = some .disabled ∨ job.result = some .rebooting

/-- However a job of the disk that lands is carried out, it ends fit. -/
theorem Device.endsFit_doneJob {σ : Type} [Machine σ] (d : Device σ) {job : Job}
    (hmap : d.core.config.map.Sectored)
    (hjob : job.source = .disk → job.Lands d.core.config.map) : (d.doneJob job).EndsFit := by
  intro hsource
  rw [d.source_doneJob job] at hsource
  unfold doneJob
  cases hdue : d.core.rebooting with
  | true =>
    rw [d.execute_of_rebooting job hdue]
    exact .inr (.inr rfl)
  | false =>
    rw [d.execute_lands hmap (hjob hsource) hdue]
    exact .inl rfl

/-- What is known of the job that the worker has: it will land, or it ended fit. -/
def Phase.Fit (map : AddressMap) : Phase → Prop
  | .idle => True
  | .holding _ job => job.source = .disk → job.Lands map
  | .done job => job.EndsFit

/-- What is known of a job that a journal says is done. -/
def Entry.Fit : Entry → Prop
  | .carriedOut job | .told job => job.EndsFit
  | _ => True

/-- What a block puts down says of no job that it is done. -/
theorem Upload.fit_entries {u : Upload} {block : Block} {config : Config} {fenced : Bool}
    {job : Option Job} : ∀ e ∈ u.entries block config fenced job, e.Fit := by
  intro e he
  cases e with
  | carriedOut job => exact absurd he carriedOut_not_mem_entries
  | told job => exact absurd he told_not_mem_entries
  | _ => trivial

/-! ### Runs -/

namespace Watched

/-- The jobs of the disk that wait or are held land, and those that are done ended fit. -/
structure Landing {σ : Type} (config : Config) (w : Watched σ) : Prop where
  configured : w.device.core.config = config
  sound : w.device.core.upload.Sound
  disk : ∀ job ∈ w.device.core.disk.job, job.Lands config.map
  control : ∀ job ∈ w.device.core.control.job, job.source = .control
  phase : w.device.phase.Fit config.map
  journal : ∀ e ∈ w.journal, e.Fit

variable {σ : Type} [Machine σ] {config : Config} {d d' : Device σ} {es journal : Journal}

/-- Every step keeps the jobs of the disk fit. -/
theorem Landing.step (hw : Landing config ⟨d, journal⟩) (hmap : config.map.Sectored)
    (h : d.Step es d') : Landing config ⟨d', es ++ journal⟩ := by
  have hconfig := h.config.trans hw.configured
  have hsound := h.sound hw.sound
  cases h with
  | nothing => exact hw
  | @block token sector block v job hblock hcases =>
    refine ⟨hconfig, hsound, ?_, hw.control, hw.phase,
      List.forall_mem_append.mpr ⟨Upload.fit_entries, hw.journal⟩⟩
    cases job with
    | none => exact hw.disk
    | some accepted =>
      have hlands := hcases.lands (hw.configured ▸ hmap.apart) (Block.length_payload hblock)
      rw [hw.configured] at hlands
      intro waiting hwaiting
      obtain rfl := Option.mem_some_iff.mp hwaiting
      exact hlands
  | resetDisk =>
    exact ⟨hconfig, hsound, hw.disk, hw.control, hw.phase,
      List.forall_mem_cons.mpr ⟨trivial, hw.journal⟩⟩
  | setMode mode => exact ⟨hconfig, hsound, hw.disk, hw.control, hw.phase, hw.journal⟩
  | latch => exact ⟨hconfig, hsound, hw.disk, hw.control, hw.phase, hw.journal⟩
  | command hlistener hsource =>
    refine ⟨hconfig, hsound, hw.disk, ?_, hw.phase, hw.journal⟩
    intro waiting hwaiting
    obtain rfl := Option.mem_some_iff.mp hwaiting
    exact hsource
  | @take origin job hphase hjob horder =>
    cases origin with
    | disk =>
      exact ⟨hconfig, hsound, fun _ hnone => absurd hnone (Option.not_mem_none _), hw.control,
        fun _ => hw.disk job hjob, hw.journal⟩
    | control =>
      have hsource : job.source = .control := hw.control job hjob
      refine ⟨hconfig, hsound, hw.disk, fun _ hnone => absurd hnone (Option.not_mem_none _),
        fun hother => ?_, hw.journal⟩
      rw [hsource] at hother
      cases hother
  | keptOut hphase hfence =>
    have hfit : ∀ job : Job, { job with result := some .disabled }.EndsFit :=
      fun _ _ => .inr (.inl rfl)
    exact ⟨hconfig, hsound, hw.disk, hw.control, hfit _,
      List.forall_mem_cons.mpr ⟨hfit _, hw.journal⟩⟩
  | @carriedOut origin job hphase hfence =>
    have hheld := hw.phase
    simp only [hphase] at hheld
    have hfit : (d.doneJob job).EndsFit := by
      apply d.endsFit_doneJob (hw.configured ▸ hmap)
      intro hsource
      rw [hw.configured]
      exact hheld hsource
    have hdisk : (d.execute job).1.core.disk.job = d.core.disk.job := disk_execute d job
    have hcontrol : (d.execute job).1.core.control = d.core.control := rfl
    refine ⟨hconfig, hsound, ?_, ?_, hfit, List.forall_mem_cons.mpr ⟨hfit, hw.journal⟩⟩
    · simp only [hdisk]
      exact hw.disk
    · simp only [hcontrol]
      exact hw.control
  | told hphase hlistener =>
    have hdone := hw.phase
    simp only [hphase] at hdone
    exact ⟨hconfig, hsound, hw.disk, hw.control, trivial,
      List.forall_mem_cons.mpr ⟨hdone, hw.journal⟩⟩
  | credited hphase hlistener hcredit =>
    have hdone := hw.phase
    simp only [hphase] at hdone
    exact ⟨hconfig, hsound, hw.disk, hw.control, trivial,
      List.forall_mem_cons.mpr ⟨hdone, hw.journal⟩⟩

/-- Every run comes to an end, and all along it the jobs of the disk are fit. -/
theorem run_landing (hmap : config.map.Sectored) (ramBlocks flashBlocks erasedSectors : IndexSet)
    (machine : σ) (moves : List Move) :
    ∃ w, (fresh config ramBlocks flashBlocks erasedSectors machine).run moves = .ok w
      ∧ Landing config w := by
  have hfresh : Landing config (fresh config ramBlocks flashBlocks erasedSectors machine) :=
    ⟨rfl, Upload.sound_onSets _ _ _, fun _ hnone => absurd hnone (Option.not_mem_none _),
      fun _ hnone => absurd hnone (Option.not_mem_none _), trivial, List.forall_mem_nil _⟩
  refine run_ok moves hfresh fun m _ v hv => ?_
  obtain ⟨d, hstep, hd⟩ := v.step_ok hv.sound m
  exact ⟨_, hstep, hv.step hmap hd⟩

/-- The board with flash, to which nothing was sent yet. -/
def untouchedTwo : Watched (Logged Recorder) :=
  .fresh flashBoard (.empty 1) (.empty 1) (.empty 1) (Logged.new ⟨[]⟩)

/-- What the upload accepts the worker can do. The job for an accepted block, whoever is told
    of it, ends well whenever it is carried out while no reboot is due, whatever the device
    is like by then: one call writes the 256 bytes of the block to where they belong. So in
    every run a job of the disk ends well, unless it is fenced off or a reboot is due. -/
theorem accepted_blocks_land (config : Config) (hmap : config.map.Sectored) :
    (∀ (u v : Upload) (sector : Sector) (block : Block) (token : UInt32) (fenced : Bool)
        (job : Job), Block.ofSectorFor? sector config.familyId = .ok block →
      u.accept block token config fenced = .ok (v, some job) →
      ∀ (d : Device (Logged σ)) (listener : Option Listener), d.core.config.map = config.map →
        d.core.rebooting = false →
        (d.execute { job with listener }).2.2 = .ok ∧ block.payload.length = 256
          ∧ ∃ call, (d.execute { job with listener }).1.machine.calls = call :: d.machine.calls
            ∧ (call = .writeRam block.header.targetAddr block.payload
              ∨ ∃ erase, call =
                .updateFlash ⟨erase, some (block.header.targetAddr, block.payload)⟩))
    ∧ ∀ (ramBlocks flashBlocks erasedSectors : IndexSet) (machine : σ) (moves : List Move),
      ∃ w, (fresh config ramBlocks flashBlocks erasedSectors machine).run moves = .ok w
        ∧ ∀ job, job.source = .disk → .carriedOut job ∈ w.journal ∨ .told job ∈ w.journal →
          job.result = some .ok ∨ job.result = some .disabled
            ∨ job.result = some .rebooting := by
  constructor
  · intro u v sector block token fenced job hblock haccept d listener hsame hdue
    have hlength := Block.length_payload hblock
    obtain ⟨v', accepted, haccept', h⟩ := u.accept_accepts block token config fenced
    cases haccept.symm.trans haccept'
    have hlands : ({ job with listener } : Job).Lands d.core.config.map := by
      rw [hsame]
      exact (h.lands hmap.apart hlength).withListener listener
    rw [d.execute_lands (hsame ▸ hmap) hlands hdue]
    refine ⟨rfl, hlength, _, rfl, ?_⟩
    obtain ⟨haddr, hpayload⟩ := h.writes hlength
    rw [← haddr, ← hpayload]
    exact Job.pageCall_cases d.core.config.map { job with listener }
  · intro ramBlocks flashBlocks erasedSectors machine moves
    obtain ⟨w, hrun, hw⟩ :=
      run_landing hmap ramBlocks flashBlocks erasedSectors machine moves
    refine ⟨w, hrun, fun job hsource hmem => ?_⟩
    rcases hmem with hcarried | htold
    · exact hw.journal _ hcarried hsource
    · exact hw.journal _ htold hsource

/-- The first page of an image of two is accepted, and lands on a board that was just made. In
    a run with both pages its job ends well, too. -/
theorem accepted_blocks_land_ofTwo :
    flashBoard.map.Sectored
      ∧ Block.ofSectorFor? (pageOfTwo 0x10001000 0).toSector flashBoard.familyId
        = .ok (pageOfTwo 0x10001000 0)
      ∧ (∃ v job, (Upload.onSets (.empty 1) (.empty 1) (.empty 1)).accept
          (pageOfTwo 0x10001000 0) 1 flashBoard false = .ok (v, some job)
        ∧ ∃ call, (untouchedTwo.device.execute { job with listener := none }).1.machine.calls
          = [call])
      ∧ ∃ w job, untouchedTwo.run movesOfTwo = .ok w ∧ .carriedOut job ∈ w.journal
        ∧ job.source = .disk ∧ (job.result = some .ok ∨ job.result = some .disabled
          ∨ job.result = some .rebooting) := by
  have hmap : flashBoard.map.Sectored :=
    ⟨wellFormed_flashBoard.apart, wellFormed_flashBoard.flashAligned⟩
  have haccept : (Upload.onSets (.empty 1) (.empty 1) (.empty 1)).accept
      (pageOfTwo 0x10001000 0) 1 flashBoard false = .ok (_, some _) :=
    (accepts_pageOfTwo (v := uploadOfTwo 0 0 0 0xFFFFFFFF 0 0) (by decide) (by decide) rfl
      (by decide) (by decide) (by decide)).accept_eq
  obtain ⟨hblocks, -⟩ := accepted_blocks_land (σ := Recorder) flashBoard hmap
  obtain ⟨-, -, call, hcall, -⟩ := hblocks _ _ _ _ 1 false _ ofSectorFor?_pageOfTwo haccept
    untouchedTwo.device none rfl rfl
  obtain ⟨-, hruns⟩ := accepted_blocks_land (σ := Logged Recorder) flashBoard hmap
  obtain ⟨w, hrun, hends⟩ := hruns (.empty 1) (.empty 1) (.empty 1) (Logged.new ⟨[]⟩) movesOfTwo
  obtain ⟨machine, journal, hrun', -, hcarried, -⟩ := run_movesOfTwo
  cases hrun.symm.trans hrun'
  have hmem : .carriedOut (jobOfTwo 0 1 0x10001000 0).endedWell ∈ journal :=
    (List.takeWhile_sublist _).subset hcarried
  exact ⟨hmap, ofSectorFor?_pageOfTwo, ⟨_, _, haccept, call, hcall⟩, _, _, hrun', hmem, rfl,
    hends _ rfl (.inl hmem)⟩

end Watched

end Reflash
