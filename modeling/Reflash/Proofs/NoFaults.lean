import Reflash.Proofs.ExclusiveAccess
/-! # Nothing leaves its range

  Whatever comes in, whatever the table of regions looks like and in whatever order the two sides
  take turns: no number leaves the range of a word, no slice is longer than its buffer, and no job
  that has run is left in a slot again.

  For the numbers and the slots this is what a move that is no fault says. For the slices it takes
  an invariant: the page of every job that waits or that the worker has, has room for the bytes that
  the job moves. The words of the three sets of an upload never change in number, so that what was
  said of their size in the beginning holds ever after.
-/

namespace Reflash

/-! ### Slices -/

/-- The first bytes of a buffer, as many as are asked for. -/
structure Slice where
  buffer : Bytes
  stop : Nat

namespace Slice

variable {s : Slice}

/-- The buffer has as many bytes as are asked for. -/
def InRange (s : Slice) : Prop := s.stop ≤ s.buffer.length

/-- The bytes of the slice. -/
def bytes (s : Slice) : Bytes := s.buffer.take s.stop

theorem InRange.length_bytes (h : s.InRange) : s.bytes.length = s.stop :=
  List.length_take_of_le h

/-- The slice of a new page that bytes are copied to. -/
def ofPage (bytes : Bytes) : Slice := ⟨(Vector.replicate 256 0 : Page).toList, bytes.length⟩

theorem inRange_ofPage {bytes : Bytes} : (ofPage bytes).InRange ↔ bytes.length ≤ 256 := by
  unfold InRange ofPage
  rw [Vector.length_toList]

end Slice

/-- The slice of a data area that the header of a block asks for. -/
def Block.slice (b : Block) : Slice := ⟨b.data.toList, b.header.payloadSize.toNat⟩

theorem Block.payload_eq_bytes (b : Block) : b.payload = b.slice.bytes := rfl

namespace Job

/-- The slice of its page that a job writes, or that it reads into. -/
def slice (j : Job) : Slice := ⟨j.data.toList, j.length.toNat⟩

theorem payload_eq_bytes (j : Job) : j.payload = j.slice.bytes := rfl

/-- The slice of what was read that goes into an answer. -/
def answerSlice (j : Job) : Slice := ⟨j.payload, min j.payload.length maxTransfer⟩

theorem inRange_slice {j : Job} : j.slice.InRange ↔ j.length.toNat ≤ 256 := by
  unfold Slice.InRange slice
  rw [Vector.length_toList]

end Job

/-- The slices that are taken when a sector comes in. -/
def Core.sectorSlices (c : Core) (sector : Sector) : List Slice :=
  match Block.ofSectorFor? sector c.config.familyId with
  | .ok block => [block.slice, .ofPage block.payload]
  | .error _ => []

/-- The slices that are taken when a command comes in. -/
def Core.commandSlices (c : Core) (token : UInt32) : Command → List Slice
  | .writeSector _ data => (Sector.ofBytes? data).elim [] c.sectorSlices
  | .write addr data =>
    match Job.write .control token addr data with
    | .ok _ => [.ofPage data]
    | .error _ => []
  | _ => []

/-- The slices that are taken for the job that the worker has. -/
def Phase.slices : Phase → List Slice
  | .idle => []
  | .holding _ job => [job.slice]
  | .done job => [job.slice, job.answerSlice]

/-- The slices that a move takes. None of them is cut down to its buffer. -/
def Device.slices {σ : Type} (d : Device σ) : Move → List Slice
  | .sector _ sector => d.core.sectorSlices sector
  | .command token command => d.core.commandSlices token command
  | .carryOut | .finish => d.phase.slices
  | .resetDisk | .setMode _ | .take => []

/-- What is asked for of a sector is there. -/
theorem Core.inRange_sectorSlices (c : Core) (sector : Sector) :
    ∀ s ∈ c.sectorSlices sector, s.InRange := by
  intro s hs
  unfold sectorSlices at hs
  cases hblock : Block.ofSectorFor? sector c.config.familyId with
  | error e =>
    rw [hblock] at hs
    cases hs
  | ok block =>
    -- The payload is as long as a page, so the header asks for no more than the data area has.
    have hlength := Block.length_payload hblock
    rw [hblock] at hs
    rcases List.mem_cons.mp hs with rfl | hs
    · have hsize : block.slice.buffer.length = 476 := Vector.length_toList
      rw [Block.payload_eq_bytes, Slice.bytes, List.length_take, hsize] at hlength
      unfold Slice.InRange
      omega
    · rw [List.mem_singleton.mp hs, Slice.inRange_ofPage]
      exact Nat.le_of_eq hlength

/-- Bytes that there is a job for fit a page. -/
theorem Job.length_le_of_write {source : Channel} {token addr : UInt32} {bytes : Bytes} {job : Job}
    (h : Job.write source token addr bytes = .ok job) : bytes.length ≤ 256 := by
  unfold Job.write at h
  split at h
  · assumption
  · cases h

theorem Core.inRange_commandSlices (c : Core) (token : UInt32) (command : Command) :
    ∀ s ∈ c.commandSlices token command, s.InRange := by
  intro s hs
  unfold commandSlices at hs
  cases command with
  | writeSector lba data =>
    cases hsector : Sector.ofBytes? data with
    | none =>
      simp only [hsector, Option.elim_none] at hs
      cases hs
    | some sector =>
      simp only [hsector, Option.elim_some] at hs
      exact c.inRange_sectorSlices sector s hs
  | write addr data =>
    cases hwrite : Job.write .control token addr data with
    | error status =>
      simp only [hwrite] at hs
      cases hs
    | ok job =>
      simp only [hwrite] at hs
      rw [List.mem_singleton.mp hs, Slice.inRange_ofPage]
      exact Job.length_le_of_write hwrite
  | _ => cases hs

/-! ### Jobs and their pages -/

namespace Job

variable {job : Job} {channel : Channel}

/-- The job for a command has room for its bytes. -/
theorem OfCommand.inRange (h : job.OfCommand) : job.slice.InRange := by
  obtain ⟨c, command, token, hjob⟩ := h
  rw [inRange_slice]
  cases command with
  | exclusiveAccess mode =>
    cases hjob
    exact Nat.zero_le _
  | exec addr =>
    cases hjob
    exact Nat.zero_le _
  | flashErase addr len =>
    cases hjob
    exact Nat.zero_le _
  | read addr len =>
    simp only [Core.jobFor, Core.effectsFor, Job.read] at hjob
    split at hjob
    · rename_i hlen
      cases hjob
      exact UInt32.le_iff_toNat_le.mp hlen
    · cases hjob
  | write addr data =>
    simp only [Core.jobFor, Core.effectsFor, Job.write] at hjob
    split at hjob
    · rename_i hlen
      cases hjob
      show (UInt32.ofNat data.length).toNat ≤ 256
      rw [UInt32.toNat_ofNat']
      exact Nat.le_trans (Nat.mod_le _ _) hlen
    · cases hjob
  | _ => cases hjob

/-- A job that is left in a slot has room for its bytes. -/
theorem LeftIn.inRange (h : job.LeftIn channel) : job.slice.InRange := by
  cases channel with
  | disk =>
    rw [inRange_slice, h.length]
    exact Nat.le_refl 256
  | control => exact OfCommand.inRange h

end Job

/-- A job that was not in its slot before has not run. -/
theorem Core.Takes.result {c after : Core} (h : c.Takes after) {channel : Channel} {job : Job}
    (hjob : (after.slot channel).job = some job) :
    (c.slot channel).job = some job ∨ job.result = none := by
  cases h with
  | @block _ _ _ _ left _ hcases =>
    cases channel with
    | control => exact .inl hjob
    | disk =>
      cases left with
      | none => exact .inl hjob
      | some page =>
        cases hjob
        exact .inr (hcases.result page rfl)
  | command hfor =>
    cases channel with
    | disk => exact .inl hjob
    | control =>
      cases hjob
      exact .inr (jobFor_eq_ok hfor).2.2
  | _ => exact .inl (by cases channel <;> exact hjob)

/-- Every job of a device has room for its bytes, and those that wait have not run. -/
structure Device.InRange {σ : Type} (d : Device σ) : Prop where
  waiting : ∀ channel job, (d.core.slot channel).job = some job → job.slice.InRange
  unrun : ∀ channel job, (d.core.slot channel).job = some job → job.result = none
  held : ∀ job, d.phase.job? = some job → job.slice.InRange

namespace Device

variable {σ : Type} {d : Device σ}

/-- It is enough to look at the worker where no job was left. -/
theorem InRange.of_waiting (hd : d.InRange) {d' : Device σ}
    (hwaiting : ∀ channel job, (d'.core.slot channel).job = some job →
      (d.core.slot channel).job = some job)
    (hheld : ∀ job, d'.phase.job? = some job → job.slice.InRange) : d'.InRange where
  waiting := fun channel job hjob => hd.waiting channel job (hwaiting channel job hjob)
  unrun := fun channel job hjob => hd.unrun channel job (hwaiting channel job hjob)
  held := hheld

theorem InRange.takes (hd : d.InRange) {core : Core} (h : d.core.Takes core) :
    InRange { d with core } where
  waiting := fun channel job hjob =>
    (h.waiting hjob).elim (hd.waiting channel job) Job.LeftIn.inRange
  unrun := fun channel job hjob => (h.result hjob).elim (hd.unrun channel job) id
  held := hd.held

theorem InRange.takeJob (hd : d.InRange) : d.takeJob.InRange := by
  rcases d.takeJob_cases with hsame | ⟨origin, job, -, hjob, -, htake⟩
  · rw [hsame]
    exact hd
  · rw [htake]
    apply hd.of_waiting
    · -- The slot that the job was in is empty, and the other one is as it was.
      intro channel waiting hwaiting
      cases origin <;> cases channel
      · cases hwaiting
      · exact hwaiting
      · exact hwaiting
      · cases hwaiting
    · intro held hheld
      cases hheld
      exact hd.waiting origin job hjob

/-- No move takes a slice that is longer than its buffer. -/
theorem InRange.slices (hd : d.InRange) (m : Move) : ∀ s ∈ d.slices m, s.InRange := by
  intro s hs
  have hworker : s ∈ d.phase.slices → s.InRange := by
    intro hmem
    cases hphase : d.phase with
    | idle =>
      rw [hphase] at hmem
      cases hmem
    | holding origin job =>
      rw [hphase] at hmem
      rw [List.mem_singleton.mp hmem]
      exact hd.held job (by rw [hphase]; rfl)
    | done job =>
      rw [hphase] at hmem
      rcases List.mem_cons.mp hmem with rfl | hanswer
      · exact hd.held job (by rw [hphase]; rfl)
      · rw [List.mem_singleton.mp hanswer]
        exact Nat.min_le_left _ _
  cases m with
  | sector token sector => exact d.core.inRange_sectorSlices sector s hs
  | command token command => exact d.core.inRange_commandSlices token command s hs
  | carryOut => exact hworker hs
  | finish => exact hworker hs
  | _ => cases hs

variable [Machine σ]

/-- What was read does not change how long a job is. -/
theorem length_doneJob (d : Device σ) (job : Job) : (d.doneJob job).length = job.length := by
  simp only [doneJob, execute, Job.carriedOut]
  split <;> rfl

theorem InRange.carryOut (hd : d.InRange) : d.carryOut.InRange := by
  apply hd.of_waiting
  · intro channel job hjob
    rw [← d.job_carryOut channel]
    exact hjob
  · intro job hjob
    cases hphase : d.phase with
    | idle =>
      rw [carryOut_of_idle hphase] at hjob
      exact hd.held job hjob
    | done _ =>
      rw [carryOut_of_done hphase] at hjob
      exact hd.held job hjob
    | holding origin held =>
      have hheld := hd.held held (by rw [hphase]; rfl)
      rw [Job.inRange_slice] at hheld ⊢
      cases hfence : (d.core.slot origin).isFenced with
      | true =>
        rw [carryOut_of_fenced hphase hfence] at hjob
        cases hjob
        exact hheld
      | false =>
        rw [carryOut_of_open hphase hfence] at hjob
        -- What was read went into the page, and the job is as long as it was.
        cases hjob
        rw [length_doneJob]
        exact hheld

theorem InRange.finish (hd : d.InRange) (hs : d.core.upload.Sound) {d' : Device σ}
    (h : d.finish = .ok d') : d'.InRange := by
  obtain ⟨hdisk, hcontrol, ⟨hsame, -⟩ | hidle, -⟩ := finish_keeps hs h
  · rw [hsame]
    exact hd
  · apply hd.of_waiting
    · intro channel job hjob
      cases channel with
      | disk => rwa [Core.slot, ← hdisk]
      | control => rwa [Core.slot, ← hcontrol]
    · intro job hjob
      rw [hidle] at hjob
      cases hjob

/-- Whatever comes next, all jobs go on having room for their bytes. -/
theorem InRange.move (hd : d.InRange) (hs : d.core.upload.Sound) {m : Move} {d' : Device σ}
    (h : d.move m = .ok d') : d'.InRange := by
  cases m with
  | sector token sector =>
    obtain ⟨core, queued, hwrite, -⟩ := d.sector_step token sector
    simp only [Device.move, hwrite] at h
    cases h
    exact hd.takes (Core.takes_of_writeSector hwrite).1
  | command token command =>
    obtain ⟨core, outcome, hhandle, -⟩ := d.command_step token command
    simp only [Device.move, hhandle] at h
    cases h
    exact hd.takes (Core.takes_of_handle hhandle).1
  | resetDisk =>
    cases h
    exact hd.takes .resetDisk
  | setMode mode =>
    cases h
    apply hd.of_waiting
    · intro channel job hjob
      cases channel <;> exact hjob
    · exact hd.held
  | take =>
    cases h
    exact hd.takeJob
  | carryOut =>
    cases h
    exact hd.carryOut
  | finish => exact hd.finish hs h

end Device

/-! ### How large the sets are -/

namespace Upload

/-- The three sets of an upload. -/
def sets (u : Upload) : List IndexSet := [u.ramBlocks, u.flashBlocks, u.erasedSectors]

/-- How many indices the sets have room for. -/
def rooms (u : Upload) : List Nat := u.sets.map IndexSet.room

variable {u v : Upload}

theorem rooms_withValidBlocks {s : IndexSet} (h : s.room = u.validBlocks.room) :
    (u.withValidBlocks s).rooms = u.rooms := by
  unfold withValidBlocks validBlocks at *
  cases hram : u.inRam with
  | true =>
    rw [hram] at h
    simp only [if_true, rooms, sets, List.map_cons] at h ⊢
    rw [h]
  | false =>
    rw [hram] at h
    simp only [Bool.false_eq_true, if_false, rooms, sets, List.map_cons] at h ⊢
    rw [h]

theorem rooms_start (u : Upload) (inRam : Bool) (numBlocks : UInt32) :
    (u.start inRam numBlocks).1.rooms = u.rooms := by
  unfold start
  extract_lets u₀ u₁
  have hcleared : u₁.rooms = u.rooms := by
    rw [show u₁.rooms = u₀.rooms from rooms_withValidBlocks (IndexSet.room_clear _)]
    simp [rooms, sets, u₀]
  -- Whether the image fits or not, only the number of blocks differs.
  split
  · exact hcleared
  · exact hcleared

theorem rooms_joined (u : Upload) (block : Block) (config : Config) :
    (u.joined block config).1.rooms = u.rooms := by
  by_cases hn : u.numBlocks = block.header.numBlocks
  · rw [joined_of_eq hn]
  · rw [joined_of_ne hn, rooms_start]

theorem Accepts.rooms {block : Block} {token : UInt32} {config : Config} {fenced : Bool}
    {job : Option Job} (h : Accepts u block token config fenced v job) : v.rooms = u.rooms := by
  cases h with
  | turnedAway => rfl
  | dropped => exact u.rooms_joined block config
  | taken => exact u.rooms_joined block config

theorem room_erasedWith (u : Upload) (map : AddressMap) (erase : Option EraseRange) :
    (u.erasedWith map erase).room = u.erasedSectors.room := by
  unfold erasedWith
  split
  · rfl
  · split
    · rfl
    · exact IndexSet.room_insert _ _

theorem rooms_marked (u : Upload) (map : AddressMap) (erase : Option EraseRange) :
    (u.marked map erase).rooms = u.rooms := by
  have herased : Upload.rooms { u with erasedSectors := u.erasedWith map erase } = u.rooms := by
    simp only [rooms, sets, List.map_cons, room_erasedWith]
  rw [← herased]
  exact rooms_withValidBlocks (IndexSet.room_insert _ _)

theorem rooms_credit {job : Job} {config : Config} {request : Option RebootRequest}
    (hs : u.Sound) (h : u.credit job config = .ok (v, request)) : v.rooms = u.rooms := by
  by_cases hawaits : u.awaits job = true
  · have hn : u.numBlocks ≠ 0 := by
      simp only [awaits, Bool.and_eq_true, bne_iff_ne, beq_iff_eq] at hawaits
      exact hawaits.1.1
    rw [credit_of_awaits config hawaits (hs hn).blockNo_lt_room (hs hn).validCount_lt] at h
    split at h
    · cases h
      exact u.rooms_marked _ _
    · cases h
      exact u.rooms_marked _ _
  · rw [credit_of_not_awaits config (Bool.eq_false_iff.mpr hawaits)] at h
    cases h
    rfl

end Upload

/-- A step leaves the sets as large as they are. -/
theorem Device.Step.rooms {σ : Type} [Machine σ] {d d' : Device σ} {es : Journal}
    (h : d.Step es d') (hs : d.core.upload.Sound) :
    d'.core.upload.rooms = d.core.upload.rooms := by
  cases h with
  | block _ hcases => exact hcases.rooms
  | credited _ _ hcredit => exact Upload.rooms_credit hs hcredit
  | @take origin => cases origin <;> rfl
  | _ => rfl

/-! ### Every run -/

/-- The worker comes to an end with a job, and with none. -/
theorem Device.exists_poll_eq_ok {σ : Type} [Machine σ] {d : Device σ}
    (hs : d.core.upload.Sound) : ∃ d' worked, d.poll = .ok (d', worked) := by
  by_cases hidle : d.takeJob.phase = .idle
  · refine ⟨d, false, ?_⟩
    unfold poll
    split
    · rfl
    · rename_i hbusy
      exact absurd (by rw [← hidle]) (hbusy d.takeJob.core d.takeJob.lastWriter d.takeJob.machine)
  · have htaken := d.take_step.sound hs
    have hcarried := d.takeJob.carryOut_step.sound htaken
    obtain ⟨d', hfinish, -⟩ := d.takeJob.carryOut.finish_step hcarried
    refine ⟨d', true, ?_⟩
    rw [poll_of_busy hidle, hfinish]
    rfl

namespace Watched

variable {σ : Type}

/-- What holds of a device at any time: its books are in order, its sets are as large as they
    were, and all jobs have room for their bytes. -/
structure Within (rooms : List Nat) (w : Watched σ) : Prop where
  sound : w.device.core.upload.Sound
  rooms : w.device.core.upload.rooms = rooms
  inRange : w.device.InRange

theorem within_fresh (config : Config) (ramBlocks flashBlocks erasedSectors : IndexSet)
    (machine : σ) :
    Within ([ramBlocks, flashBlocks, erasedSectors].map IndexSet.room)
      (fresh config ramBlocks flashBlocks erasedSectors machine) where
  sound := Upload.sound_onSets ramBlocks flashBlocks erasedSectors
  rooms := rfl
  inRange := by
    constructor
    · intro channel job hjob
      cases channel <;> cases hjob
    · intro channel job hjob
      cases channel <;> cases hjob
    · intro job hjob
      cases hjob

/-- A set that is as large as one of those at the beginning has a capacity that fits a word. -/
theorem Within.capacity {sets : List IndexSet} {w : Watched σ}
    (hw : w.Within (sets.map IndexSet.room)) (hsizes : ∀ s ∈ sets, s.words.size * 32 < 2 ^ 32) :
    ∀ s ∈ w.device.core.upload.sets, s.capacity.toNat = s.words.size * 32 := by
  intro s hs
  apply IndexSet.toNat_capacity
  have hroom : s.room ∈ sets.map IndexSet.room := by
    rw [← hw.rooms]
    exact List.mem_map_of_mem hs
  obtain ⟨old, hold, hsame⟩ := List.mem_map.mp hroom
  rw [← hsame]
  exact hsizes old hold

variable [Machine σ]

/-- A step is no fault, and all stays within its range. -/
theorem Within.step {rooms : List Nat} {w : Watched σ} (hw : w.Within rooms) (m : Move) :
    ∃ v, w.step m = .ok v ∧ v.Within rooms := by
  obtain ⟨d, hmove, hstep⟩ := w.device.move_step hw.sound m
  refine ⟨⟨d, w.device.entries m ++ w.journal⟩, ?_, ?_⟩
  · simp only [Watched.step, hmove]
    rfl
  · exact ⟨hstep.sound hw.sound, (hstep.rooms hw.sound).trans hw.rooms,
      hw.inRange.move hw.sound hmove⟩

/-- Nothing that comes in can lead to a fault.

    The table of regions and the contents of the sets are any, and so is the run. It comes to
    an end without a fault, and then any further move does, and so does a whole turn of the
    worker. An upload may look at any block and at any finished job. No job that waits has
    run. No slice that is taken is longer than its buffer, so that the worker moves as many
    bytes as its job says. Every set counts its bits in a word, and a bit never leaves its
    word. -/
theorem never_out_of_range (config : Config) {ramBlocks flashBlocks erasedSectors : IndexSet}
    (hsizes : ∀ s ∈ [ramBlocks, flashBlocks, erasedSectors], s.words.size * 32 < 2 ^ 32)
    (machine : σ) (moves : List Move) :
    ∃ w, (fresh config ramBlocks flashBlocks erasedSectors machine).run moves = .ok w
      ∧ (∀ m, ∃ d, w.device.move m = .ok d)
      ∧ (∃ d worked, w.device.poll = .ok (d, worked))
      ∧ (∀ (block : Block) (token : UInt32) (fenced : Bool), ∃ u job,
        w.device.core.upload.accept block token w.device.core.config fenced = .ok (u, job))
      ∧ (∀ job, ∃ u request,
        w.device.core.upload.credit job w.device.core.config = .ok (u, request))
      ∧ (∀ channel job, (w.device.core.slot channel).job = some job → job.result = none)
      ∧ (∀ m, ∀ s ∈ w.device.slices m, s.InRange)
      ∧ (∀ job, w.device.phase.job? = some job → job.payload.length = job.length.toNat)
      ∧ (∀ s ∈ w.device.core.upload.sets, s.capacity.toNat = s.words.size * 32)
      ∧ ∀ i, (IndexSet.mask i).toNat = 2 ^ (i.toNat % 32) := by
  obtain ⟨w, hrun, hw⟩ := run_ok moves
    (within_fresh config ramBlocks flashBlocks erasedSectors machine) fun m _ v hv => hv.step m
  refine ⟨w, hrun, ?_, Device.exists_poll_eq_ok hw.sound, ?_, ?_, hw.inRange.unrun,
    hw.inRange.slices, ?_, hw.capacity hsizes, IndexSet.toNat_mask⟩
  · intro m
    obtain ⟨d, hmove, -⟩ := w.device.move_step hw.sound m
    exact ⟨d, hmove⟩
  · intro block token fenced
    obtain ⟨u, job, haccept, -⟩ :=
      w.device.core.upload.accept_accepts block token w.device.core.config fenced
    exact ⟨u, job, haccept⟩
  · intro job
    exact Upload.credit_ok hw.sound job w.device.core.config
  · intro job hjob
    rw [Job.payload_eq_bytes]
    exact (hw.inRange.held job hjob).length_bytes

/-- Regions that overlap and reach the top of the address space. The first one starts neither at a
    page nor at an erase sector. -/
def crowdedConfig : Config :=
  { map := [⟨.flash, 0xFFFFE080, 0x1F80⟩, ⟨.flash, 0xFFFFF000, 0x1000⟩, ⟨.ram, 0xFFFFFE00, 0x100⟩]
    familyId := 7, rebootDelayMs := 0, ramStack := 0 }

/-- A block for the last page there is. -/
def lastBlock : Block := ⟨Header.page 0xFFFFFF00 0 1 7, dataArea []⟩

/-- The erase sector of the last page ends beyond the address space. Its job is made all the same,
    and the run goes on. -/
theorem never_out_of_range_crowded :
    let sets := [IndexSet.empty 1, IndexSet.empty 1, IndexSet.empty 1]
    let board := fresh crowdedConfig (.empty 1) (.empty 1) (.empty 1) (⟨[]⟩ : Recorder)
    (∀ s ∈ sets, s.words.size * 32 < 2 ^ 32)
      ∧ (board.device.core.upload.accept lastBlock 1 crowdedConfig false).map
          (fun taken => taken.2.bind Job.erase) = .ok (some ⟨0xFFFFF080, 0x1000⟩)
      ∧ ∃ w, board.run [.sector 1 lastBlock.toSector, .take, .carryOut, .finish] = .ok w
        ∧ ∀ m, (∃ d, w.device.move m = .ok d) ∧ ∀ s ∈ w.device.slices m, s.InRange := by
  intro sets board
  have hsizes : ∀ s ∈ sets, s.words.size * 32 < 2 ^ 32 := by
    intro s hs
    simp only [sets, List.mem_cons, List.not_mem_nil, or_false, or_self] at hs
    rw [hs]
    decide
  obtain ⟨w, hrun, hmove, -, -, -, -, hslices, -⟩ := never_out_of_range crowdedConfig hsizes
    (⟨[]⟩ : Recorder) [.sector 1 lastBlock.toSector, .take, .carryOut, .finish]
  refine ⟨hsizes, by decide +kernel, w, hrun, ?_⟩
  intro m
  exact ⟨hmove m, hslices m⟩

end Watched

end Reflash
