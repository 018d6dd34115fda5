import Reflash.Proofs.LoaderProtection
import Reflash.Proofs.StartDecision
/-! # The disk's side of the loader

  While the sectors of an image come in, the host may also ask questions, read memory and
  change who may write. None of this writes anything, so what matters to the image is the
  disk's side of the device: the disk's slot, the upload, the worker when it has a job of
  an upload, and memory. There each step is one of a delivery, or leaves everything as it
  is; a job that is kept out because the disk is fenced off is one that is refused.

  `OnCourse` is what holds at each moment. The application's note is gone all the time,
  and once a reboot is due the image is in flash and the chip will start from there.
-/

namespace Reflash

/-! ### Deliveries step by step -/

/-- The core without the job that waits in the slot of the disk. -/
def Core.withoutWaiting (c : Core) : Core := { c with disk := { c.disk with job := none } }

namespace PagedImage

variable {img : PagedImage} {capacity : UInt32} {d d' : Device MemoryMachine}
  {tokens : List UInt32} {job : Job} {i token : UInt32}

/-- The tokens of the jobs of the disk that are on their way. -/
def onTheWay {σ : Type} (d : Device σ) : List UInt32 :=
  (d.core.disk.job.toList ++ d.phase.job?.toList).map Job.token

/-- Only the tokens of those jobs matter. -/
theorem Steady.onTheWay (hs : img.Steady capacity d tokens) :
    img.Steady capacity d (onTheWay d) :=
  { hs with
    waiting := fun job hjob => by
      obtain ⟨i, hi, -⟩ := hs.waiting job hjob
      refine ⟨i, hi, List.mem_map_of_mem (List.mem_append_left _ ?_)⟩
      exact Option.mem_toList.mpr hjob
    working := fun job hjob => by
      obtain ⟨i, hi, -⟩ := hs.working job hjob
      refine ⟨i, hi, List.mem_map_of_mem (List.mem_append_right _ ?_)⟩
      exact Option.mem_toList.mpr hjob }

/-- They are distinct. -/
theorem Faithful.nodup_onTheWay (hf : img.Faithful capacity d) : (PagedImage.onTheWay d).Nodup := by
  unfold PagedImage.onTheWay
  cases hwaiting : d.core.disk.job with
  | none => cases d.phase.job? <;> simp
  | some job =>
    cases hworking : d.phase.job? with
    | none => simp
    | some other => simpa using hf.apart job other hwaiting hworking

/-- How things stand at each moment of a delivery in which no job gets the token of the
    one that the worker has. -/
structure Delivering (img : PagedImage) (capacity : UInt32) (d : Device MemoryMachine) : Prop where
  steady : img.Steady capacity d (onTheWay d)
  faithful : img.Faithful capacity d

/-- A step of a delivery that takes no page. -/
theorem Delivering.quiet (h : img.Delivering capacity d)
    (hmap : d.core.config.map.WellFormed) (htracked : img.Tracked d.core.config.map capacity)
    (hstep : img.Delivery capacity d [] d') : img.Delivering capacity d' :=
  ⟨(hstep.steady h.steady).onTheWay,
    hstep.faithful hmap h.steady htracked h.faithful.nodup_onTheWay h.faithful⟩

/-- Nothing is wrong if no job waits. -/
theorem Steady.withoutWaiting (hs : img.Steady capacity d tokens) :
    img.Steady capacity { d with core := d.core.withoutWaiting } tokens := by
  refine ⟨hs.isOpen, hs.noCommand, hs.erasedSectors, hs.numBlocks, hs.sound, ?_, hs.held,
    hs.working⟩
  intro job hjob
  cases hjob

theorem Faithful.withoutWaiting (hf : img.Faithful capacity d) :
    img.Faithful capacity { d with core := d.core.withoutWaiting } := by
  refine ⟨hf.reliable, ?_, hf.held, hf.done, ?_, ?_, hf.reboots⟩
  · intro job hjob
    cases hjob
  · intro _ job hjob
    cases hjob
  · intro job other hjob
    cases hjob

/-- A page is taken. The job that waited is lost, so its token does not matter. -/
theorem Delivering.taken (h : img.Delivering capacity d)
    (hmap : d.core.config.map.WellFormed) (hi : i < img.numBlocks)
    (hstay : Upload.turnsAway (img.block d.core.config.familyId i) d.core.config false = false)
    (hkeep : ¬ img.Drops d i) (hfresh : ∀ job, d.phase.job? = some job → job.token ≠ token) :
    img.Delivering capacity { d with
      core := { d.core with
        upload := img.taken d i token
        disk := { d.core.disk with job := some (img.jobFor d i token) } } } := by
  obtain ⟨hs, hf⟩ := h
  have hjob := isJob_jobFor hmap hi hstay hkeep token
  rw [hs.erasedSectors] at hjob
  have hnew : token ∉ onTheWay { d with core := d.core.withoutWaiting } := by
    intro hmem
    obtain ⟨job, hjob, htoken⟩ := List.mem_map.mp hmem
    exact hfresh job (Option.mem_toList.mp hjob) htoken
  exact ⟨((Delivery.taken hi hstay hkeep hjob).steady hs).onTheWay,
    hf.withoutWaiting.taken hs.withoutWaiting.onTheWay hnew hi hkeep hjob⟩

/-- A job that is kept out has written nothing, and will not be credited. -/
theorem Delivering.refused {status : Status} (h : img.Delivering capacity d)
    (hphase : d.phase = .holding .disk job) (hstatus : status ≠ .ok) :
    img.Delivering capacity
      { d with phase := .done { job with result := some status } } := by
  have hsteady : img.Steady capacity { d with phase := .done { job with result := some status } }
      (onTheWay d) := { h.steady with held := ?_, working := ?_ }
  · exact ⟨hsteady.onTheWay, h.faithful.refused hphase hstatus⟩
  · intro origin other hheld
    cases hheld
  · intro other hother
    cases hother
    obtain ⟨i, hjob, hmem⟩ := h.steady.working job (by rw [hphase]; rfl)
    exact ⟨i, hjob.withResult _, hmem⟩

/-- Only the pages of the image matter in memory. -/
theorem Delivering.congr (h : img.Delivering capacity d) (hcore : d'.core = d.core)
    (hphase : d'.phase = d.phase) (hreboots : d'.machine.reboots = [])
    (hmemory : ∀ i < img.numBlocks, ∀ a, img.InPage i a →
      d'.machine.memory.byte a = d.machine.memory.byte a) :
    img.Delivering capacity d' := by
  obtain ⟨core, phase, lastWriter, memory, reboots⟩ := d
  obtain ⟨core', phase', lastWriter', memory', reboots'⟩ := d'
  obtain rfl : core' = core := hcore
  obtain rfl : phase' = phase := hphase
  obtain rfl : reboots' = [] := hreboots
  obtain ⟨hs, hf⟩ := h
  have hholds : ∀ {i}, i < img.numBlocks → img.Holds memory i → img.Holds memory' i :=
    fun hi hold a ha => (hmemory _ hi a ha).trans (hold a ha)
  have hready : ∀ {i}, i < img.numBlocks → img.Ready memory i → img.Ready memory' i := by
    intro i hi hold a ha
    rw [show memory'.byte a = memory.byte a from hmemory i hi a ha]
    exact hold a ha
  have htoRun : ∀ {job}, img.ToRun core'.config.map job core'.upload memory capacity →
      img.ToRun core'.config.map job core'.upload memory' capacity := by
    rintro job ⟨i, hjob, hharmless, hexpected⟩
    exact ⟨i, hjob, ⟨fun hram hnone => hready hjob.lt (hharmless.ready hram hnone),
      hharmless.erase⟩, hexpected⟩
  refine ⟨⟨hs.isOpen, hs.noCommand, hs.erasedSectors, hs.numBlocks, hs.sound, hs.waiting, hs.held,
    hs.working⟩, ?_, fun job hjob => htoRun (hf.waiting job hjob),
    fun origin job hjob => htoRun (hf.held origin job hjob), ?_, hf.current, hf.apart, nofun⟩
  · intro hn
    refine (hf.reliable hn).congr (fun i hi => ?_) hmemory
    have hbound := hs.numBlocks hn
    exact hbound ▸ (hs.sound hn).valid_lt i hi
  · intro job hjob
    obtain ⟨i, hi, hwrote, hexpected⟩ := hf.done job hjob
    exact ⟨i, hi, ⟨fun hok => hholds hi.lt (hwrote.holds hok), fun hok herase j hj hflash hsector =>
      hready hj (hwrote.ready hok herase j hj hflash hsector)⟩, hexpected⟩

/-- A job for a page has a place. -/
theorem IsJob.placed {map : AddressMap} (h : img.IsJob map i capacity job) :
    job.Placed map capacity := by
  cases hram : img.inRam map i with
  | true => exact .ram (by rw [h.addr]; exact hram) (h.ram hram)
  | false =>
    obtain ⟨region, hflash, hlt, hexit, herase⟩ := h.flash hram
    have hnone : map.findOf? .ram job.addr pageSize = none := by
      rw [h.addr]
      exact Option.not_isSome_iff_eq_none.mp (Bool.eq_false_iff.mp hram)
    rw [← h.addr] at hlt herase
    exact .flash region hnone (by rw [h.addr]; exact hflash) hlt hexit
      (by rw [h.addr]; exact addr_mod_pageSize h.lt) herase

end PagedImage

/-! ### Jobs that change nothing -/

/-- A call leaves memory as it is, registers included. -/
def Call.leaves : Call → Bool
  | .writeRam .. | .updateFlash _ | .reboot _ => false
  | _ => true

/-- A job of the host that changes no memory. -/
structure Job.Inert (job : Job) : Prop where
  listener : job.listener = some .host
  isMutation : job.isMutation = false

namespace Job

variable {job : Job} {map : AddressMap}

/-- A job that is no mutation leaves memory as it is. -/
theorem leaves_plan {rebooting : Bool} {lastWriter : Option Channel} (h : job.isMutation = false) :
    ∀ call ∈ (job.plan map rebooting lastWriter).calls, call.leaves = true := by
  simp only [isMutation, Bool.or_eq_false_iff, decide_eq_false_iff_not] at h
  obtain ⟨hnone, hno⟩ := h
  intro call hcall
  rcases plan_calls_cases hcall with hopening | ⟨erase, target, herase, htarget, hmoved⟩
  · rcases openingCalls_cases hopening with rfl | ⟨entry, rfl⟩ <;> rfl
  · have hplace : target = .nowhere ∨ target = .page := by
      unfold Job.target at htarget
      split at htarget
      · cases htarget
        exact .inl rfl
      · split at htarget
        · cases htarget
        · split at htarget
          · exact absurd ‹_› hno
          · split at htarget
            · cases htarget
              exact .inr rfl
            · cases htarget
    have hkept : erase.isSome = false := by
      rw [Option.isSome_eq_false_iff, Option.isNone_iff_eq_none] at hnone
      rw [hnone] at herase
      cases herase
      rfl
    rcases moves_cases hmoved with ⟨herased | rfl, -⟩ | ⟨rfl, -⟩ | ⟨-, rfl⟩
    · rw [hkept] at herased
      cases herased
    · rcases hplace with hplace | hplace <;> cases hplace
    · rcases hplace with hplace | hplace <;> cases hplace
    · rfl

end Job

/-- The worker as far as it has a job of an upload. -/
def Phase.ofUpload : Phase → Phase
  | .idle => .idle
  | .holding _ job => if job.listener = some .upload then .holding .disk job else .idle
  | .done job => if job.listener = some .upload then .done job else .idle

theorem Phase.job?_ofUpload {phase : Phase} {job : Job} (h : phase.ofUpload.job? = some job) :
    phase.job? = some job := by
  cases phase with
  | idle => cases h
  | holding | done =>
    simp only [ofUpload] at h
    split at h
    · exact h
    · cases h

namespace Loader

open Rp2040 (Chip timerOf timerAddr)

/-! ### What a call does to the chip -/

section chip

variable (c : Chip) {call : Call} {calls : List Call}

theorem memory_performAll_of_leaves (h : ∀ call ∈ calls, call.leaves = true) :
    (Machine.performAll c calls).memory = c.memory := by
  induction calls generalizing c with
  | nil => rfl
  | cons call calls ih =>
    refine (ih _ fun later hlater => h later (List.mem_cons_of_mem _ hlater)).trans ?_
    have hcall := h call List.mem_cons_self
    cases call with
    | writeRam | updateFlash | reboot => cases hcall
    | _ => rfl

/-- What a job does to the memory of images leaves the reboot timer alone. -/
theorem timerOf_perform_of_keeps (hcall : call.Keeps) (hreboot : call.isReboot = false) :
    timerOf (Machine.perform c call).memory = timerOf c.memory := by
  refine Rp2040.timerOf_congr fun r => Memory.word_congr fun k hk => ?_
  obtain ⟨hlow, hhigh⟩ := timerAddr_bounds r
  have haddr := Memory.toNat_add_ofNat hhigh hk
  refine byte_perform_of_keeps hcall ?_ ?_ fun h => ?_
  · rw [isImageAddr_iff]
    omega
  · unfold OffCache
    omega
  · rw [hreboot] at h
    cases h

theorem memory_complete (b : Board Chip) (response : Response) :
    (Machine.perform b (.complete response)).chip.memory = b.chip.memory := by
  show (b.complete response).chip.memory = _
  unfold Board.complete
  split <;> rfl

end chip

/-! ### The disk's side -/

/-- The device as far as it matters to the image that is delivered. -/
def diskSide (d : Device (Board Chip)) : Device MemoryMachine :=
  { core := { d.core with disk := ⟨d.core.disk.job, none⟩, control := .empty }
    phase := d.phase.ofUpload
    lastWriter := none
    machine := .new d.machine.chip.memory }

section phase

variable {d : Device (Board Chip)} {job : Job}

/-- The worker has a job for a page, wherever it found it. -/
theorem phase_diskSide_holding {origin : Channel} (hphase : d.phase = .holding origin job)
    (h : job.listener = some .upload) : (diskSide d).phase = .holding .disk job := by
  simp [diskSide, hphase, Phase.ofUpload, h]

theorem phase_diskSide_done (hphase : d.phase = .done job) (h : job.listener = some .upload) :
    (diskSide d).phase = .done job := by
  simp [diskSide, hphase, Phase.ofUpload, h]

end phase

/-- The image is in flash, and a reset is armed after which the chip starts from there. -/
structure Due (img : PagedImage) (m : Memory) : Prop where
  holds : ∀ i < img.numBlocks, img.Holds m i
  armed : ∃ t : RebootTimer, timerOf m = t.arm (rebootInto false img.base)

/-- What holds of the loader while an image for flash comes in. -/
structure OnCourse (img : PagedImage) (capacity : UInt32) (d : Device (Board Chip)) : Prop where
  configured : d.core.config = config
  delivering : img.Delivering capacity (diskSide d)
  waiting : ∀ job, d.core.control.job = some job → job.Inert
  held : ∀ origin job, d.phase = .holding origin job → job.listener = some .upload ∨ job.Inert
  note : (timerOf d.machine.chip.memory).get RebootTimer.noteRegister = 0
  complete : d.core.upload.progress = .complete → d.core.rebooting = true
  due : d.core.rebooting = true → Due img d.machine.chip.memory

variable {img : PagedImage} {capacity i token : UInt32} {d d' : Device (Board Chip)}
  {v : Upload} {job : Job}

/-- Nothing else matters to the image. -/
theorem OnCourse.of_side (h : OnCourse img capacity d) (hside : diskSide d' = diskSide d)
    (hwaiting : ∀ job, d'.core.control.job = some job → job.Inert)
    (hheld : ∀ origin job, d'.phase = .holding origin job →
      job.listener = some .upload ∨ job.Inert) : OnCourse img capacity d' := by
  have hconfig : d'.core.config = d.core.config :=
    congrArg (fun e : Device MemoryMachine => e.core.config) hside
  have hupload : d'.core.upload = d.core.upload :=
    congrArg (fun e : Device MemoryMachine => e.core.upload) hside
  have hdue : d'.core.rebooting = d.core.rebooting :=
    congrArg (fun e : Device MemoryMachine => e.core.rebooting) hside
  have hmemory : d'.machine.chip.memory = d.machine.chip.memory :=
    congrArg (fun e : Device MemoryMachine => e.machine.memory) hside
  refine ⟨hconfig.trans h.configured, hside ▸ h.delivering, hwaiting, hheld, ?_, ?_, ?_⟩
  · rw [hmemory]
    exact h.note
  · rw [hupload, hdue]
    exact h.complete
  · rw [hdue, hmemory]
    exact h.due

/-- What the interrupt does beside dealing with commands changes nothing. -/
theorem OnCourse.of_same (h : OnCourse img capacity d) (hcore : d'.core = d.core)
    (hphase : d'.phase = d.phase) (hmemory : d'.machine.chip.memory = d.machine.chip.memory) :
    OnCourse img capacity d' := by
  refine h.of_side ?_ (hcore ▸ h.waiting) (hphase ▸ h.held)
  unfold diskSide
  rw [hcore, hphase, hmemory]

/-- A command that changes no memory leaves a job for the worker. -/
theorem OnCourse.command (h : OnCourse img capacity d) (hjob : job.Inert) :
    OnCourse img capacity { d with core := d.core.withControlJob job } := by
  refine h.of_side rfl (fun other hother => ?_) h.held
  cases hother
  exact hjob

section image

variable (h : OnCourse img capacity d)
  (hlies : ∀ i < img.numBlocks, img.Lies capacity false map i)
  (himage : ∀ i < img.numBlocks, ∀ a, img.InPage i a → IsImageAddr a)

include h

theorem OnCourse.wellFormed : (diskSide d).core.config.map.WellFormed := by
  rw [show (diskSide d).core.config = config from h.configured]
  exact wellFormed_map

include hlies

theorem OnCourse.tracked : img.Tracked (diskSide d).core.config.map capacity := by
  rw [show (diskSide d).core.config = config from h.configured]
  intro i hi _
  obtain ⟨region, hflash, -, hlt⟩ := (hlies i hi).flash rfl
  show img.sectorNo map i < capacity
  rwa [PagedImage.sectorNo_of_flash hflash]

/-- A page of the image that comes in ends the upload, is dropped or is taken. -/
theorem OnCourse.page {left : Option Job} (hi : i < img.numBlocks)
    (haccepts : d.core.upload.Accepts (img.block d.core.config.familyId i) token d.core.config
      d.core.disk.isFenced v left)
    (hfresh : ∀ job, d.phase.job? = some job → job.token ≠ token) :
    OnCourse img capacity { d with core := d.core.afterBlock v left } := by
  refine ⟨h.configured, ?_, h.waiting, h.held, h.note, fun hcomplete => ?_, h.due⟩
  · have hopen : Upload.turnsAway (img.block d.core.config.familyId i) d.core.config
          d.core.disk.isFenced = false →
        Upload.turnsAway (img.block d.core.config.familyId i) d.core.config false = false := by
      intro hstay
      unfold Upload.turnsAway at hstay ⊢
      rw [Bool.or_false]
      exact (Bool.or_eq_false_iff.mp hstay).1
    cases haccepts with
    | turnedAway => exact h.delivering.quiet h.wellFormed (h.tracked hlies) .givenUp
    | dropped hstay hdrop =>
      exact h.delivering.quiet h.wellFormed (h.tracked hlies) (.dropped hi (hopen hstay) hdrop)
    | taken hstay hkeep =>
      exact h.delivering.taken h.wellFormed hi (hopen hstay) hkeep
        fun job hjob => hfresh job (Reflash.Phase.job?_ofUpload hjob)
  · exact h.complete (haccepts.complete hcomplete)

/-- The worker takes a job. -/
theorem OnCourse.takeJob : OnCourse img capacity d.takeJob := by
  rcases d.takeJob_cases with hsame | ⟨origin, job, hphase, hjob, -, htake⟩
  · rw [hsame]
    exact h
  · rw [htake]
    cases origin with
    | control =>
      have hinert := h.waiting job hjob
      refine h.of_side ?_ (fun other hother => ?_) fun origin other hheld => ?_
      · simp only [diskSide, Core.withSlot, hphase, Phase.ofUpload, hinert.listener]
        rfl
      · cases hother
      · cases hheld
        exact .inr hinert
    | disk =>
      obtain ⟨i, hpage, -⟩ := h.delivering.steady.waiting job hjob
      have hstep := h.delivering.quiet h.wellFormed (h.tracked hlies)
        (.fetched
          (show (diskSide d).phase = .idle by simp only [diskSide, hphase, Phase.ofUpload]) hjob)
      have hside : diskSide { d with
          core := d.core.withSlot .disk { d.core.slot .disk with job := none }
          phase := .holding .disk job }
          = { diskSide d with
              core := { (diskSide d).core with disk := { (diskSide d).core.disk with job := none } }
              phase := .holding .disk job } := by
        simp only [diskSide, Phase.ofUpload, hpage.listener, if_true]
        rfl
      refine ⟨h.configured, hside ▸ hstep, h.waiting, fun origin other hheld => ?_, h.note,
        h.complete, h.due⟩
      cases hheld
      exact .inl hpage.listener

omit hlies in
/-- A job that changes no memory is carried out. It may change who may write. -/
theorem OnCourse.carryOut_inert {origin : Channel} (hphase : d.phase = .holding origin job)
    (hjob : job.Inert) : OnCourse img capacity d.carryOut := by
  cases hfence : (d.core.slot origin).isFenced with
  | true =>
    rw [Device.carryOut_of_fenced hphase hfence]
    refine h.of_side ?_ h.waiting fun _ _ hother => Phase.noConfusion hother
    simp [diskSide, hphase, Phase.ofUpload, hjob.listener]
  | false =>
    have hcarry := Device.carryOut_of_open hphase hfence
    have hlistener : (d.doneJob job).listener = some .host :=
      (Watched.listener_execute d job).trans hjob.listener
    have hmachine : (d.execute job).1.machine.chip.memory = d.machine.chip.memory := by
      have hquiet : ∀ call ∈ (job.plan d.core.config.map d.core.rebooting d.lastWriter).calls,
          call.isComplete = false := fun call hcall => (Job.mem_plan_calls hcall).2
      show (Machine.performAll d.machine _).chip.memory = _
      rw [Board.performAll_quiet hquiet]
      exact memory_performAll_of_leaves _ (Job.leaves_plan hjob.isMutation)
    have hcore : ({ (d.execute job).1.core with
        disk := ⟨(d.execute job).1.core.disk.job, none⟩, control := .empty } : Core)
        = { d.core with disk := ⟨d.core.disk.job, none⟩, control := .empty } :=
      congrArg (fun left => { d.core with disk := ⟨left, none⟩, control := .empty })
        (Watched.disk_execute d job)
    rw [hcarry]
    refine h.of_side ?_ h.waiting fun _ _ hother => Phase.noConfusion hother
    unfold diskSide
    rw [hmachine, hcore]
    simp [hphase, Phase.ofUpload, hjob.listener, hlistener]

include himage

/-- The job for a page is carried out, unless the disk is fenced off or a reboot is
    due. -/
theorem OnCourse.carryOut_page {origin : Channel} (hphase : d.phase = .holding origin job)
    (hlistener : job.listener = some .upload) : OnCourse img capacity d.carryOut := by
  have hside := phase_diskSide_holding hphase hlistener
  obtain ⟨i, hjob, -⟩ := h.delivering.steady.working job (by rw [hside]; rfl)
  have hended : ∀ status : Status, Phase.ofUpload (.done { job with result := some status })
      = .done { job with result := some status } := fun _ => if_pos hlistener
  -- A job that is kept out does nothing, whatever the reason.
  have hrefused : ∀ status : Status, status ≠ .ok →
      OnCourse img capacity { d with phase := .done { job with result := some status } } := by
    intro status hstatus
    have hstep := h.delivering.refused hside hstatus
    rw [← hended] at hstep
    exact ⟨h.configured, hstep, h.waiting, fun _ _ hother => Phase.noConfusion hother, h.note,
      h.complete, h.due⟩
  cases hfence : (d.core.slot origin).isFenced with
  | true =>
    rw [Device.carryOut_of_fenced hphase hfence]
    exact hrefused .disabled (by decide)
  | false =>
    cases hdue : d.core.rebooting with
    | true =>
      rw [Device.carryOut_of_open hphase hfence, Device.doneJob, d.execute_of_rebooting job hdue]
      exact hrefused .rebooting (by decide)
    | false =>
      have hmap : d.core.config.map.WellFormed := h.wellFormed
      have hplan := hjob.writes.plan_placed hjob.placed hmap d.lastWriter
      have hcall : (job.pageCall d.core.config.map).Keeps := by
        have hkeeps := keeps_plan job false d.lastWriter
        rw [show map = (diskSide d).core.config.map from (congrArg Config.map h.configured).symm,
          hplan] at hkeeps
        exact hkeeps _ List.mem_cons_self
      have hchip : (Machine.perform d.machine (job.pageCall d.core.config.map)).chip
          = Machine.perform d.machine.chip (job.pageCall d.core.config.map) := by
        rw [Board.perform_pageCall]
      rw [Device.carryOut_of_open hphase hfence, Device.doneJob,
        d.execute_placed hjob.writes hjob.placed hmap hdue]
      refine ⟨h.configured, ?_, h.waiting, fun _ _ hother => Phase.noConfusion hother, ?_,
        h.complete, ?_⟩
      · have hstep := h.delivering.quiet h.wellFormed (h.tracked hlies) (.written hside hdue hjob)
        refine hstep.congr rfl (hended .ok) rfl fun j hj a ha => ?_
        show (Machine.perform d.machine (job.pageCall d.core.config.map)).chip.memory.byte a = _
        rw [hchip]
        exact d.machine.chip.byte_pageCall (himage j hj a ha) hjob
      · show (timerOf
          (Machine.perform d.machine (job.pageCall d.core.config.map)).chip.memory).get _ = 0
        rw [hchip, timerOf_perform_of_keeps _ hcall (by unfold Job.pageCall; split <;> rfl)]
        exact h.note
      · intro hdue'
        exact absurd (hdue.symm.trans hdue') Bool.false_ne_true

/-- The worker carries out the job that it has. -/
theorem OnCourse.carryOut : OnCourse img capacity d.carryOut := by
  cases hphase : d.phase with
  | idle =>
    rw [Device.carryOut_of_idle hphase]
    exact h
  | done job =>
    rw [Device.carryOut_of_done hphase]
    exact h
  | holding origin job =>
    rcases h.held origin job hphase with hlistener | hinert
    · exact h.carryOut_page hlies himage hphase hlistener
    · exact h.carryOut_inert hphase hinert

omit himage in
/-- The upload did not wait for the job, so nothing comes of it. -/
theorem OnCourse.told {b : Board Chip} (hphase : d.phase = .done job)
    (hlistener : job.listener = some .upload) (hawaits : d.core.upload.awaits job = false)
    (hb : b.chip.memory = d.machine.chip.memory) :
    OnCourse img capacity { d with phase := .idle, machine := b } := by
  have hside := phase_diskSide_done hphase hlistener
  have hstep := h.delivering.quiet h.wellFormed (h.tracked hlies) (.told hside hawaits)
  refine ⟨h.configured, ?_, h.waiting, fun _ _ hother => Phase.noConfusion hother, ?_, h.complete,
    fun hdue => ?_⟩
  · refine hstep.congr rfl rfl rfl fun i _ a _ => ?_
    exact congrArg (Memory.byte · a) hb
  · rw [hb]
    exact h.note
  · rw [hb]
    exact h.due hdue

/-- A block becomes valid that may be the last one missing. Then a reset is armed, and the
    image is in flash. -/
theorem OnCourse.credited {b : Board Chip} {request : Option RebootRequest}
    (hphase : d.phase = .done job) (hlistener : job.listener = some .upload)
    (hawaits : d.core.upload.awaits job = true)
    (hv : d.core.upload.Credits job d.core.config v request)
    (hb : b.chip.memory = (request.elim d.machine.chip d.machine.chip.armReset).memory) :
    OnCourse img capacity { d with
      phase := .idle
      core := { d.core with upload := v, rebooting := d.core.rebooting || request.isSome }
      machine := b } := by
  have hside := phase_diskSide_done hphase hlistener
  have hstep := h.delivering.quiet h.wellFormed (h.tracked hlies) (.credited hside hawaits hv)
  have hn : d.core.upload.numBlocks ≠ 0 := by
    simp only [Upload.awaits, Bool.and_eq_true, bne_iff_ne] at hawaits
    exact hawaits.1.1
  have hmemory : ∀ i < img.numBlocks, ∀ a, img.InPage i a →
      b.chip.memory.byte a = d.machine.chip.memory.byte a := by
    intro i hi a ha
    rw [hb]
    cases request with
    | none => rfl
    | some request => exact Chip.byte_armReset _ (himage i hi a ha).below request
  refine ⟨h.configured, hstep.congr rfl rfl rfl hmemory, h.waiting,
    fun _ _ hother => Phase.noConfusion hother, ?_, fun hlast => ?_, fun hdue => ?_⟩
  · rw [hb]
    cases request with
    | none => exact h.note
    | some request =>
      show (timerOf (d.machine.chip.armReset request).memory).get _ = 0
      rw [Rp2040.timerOf_armReset, RebootTimer.note_arm]
      exact h.note
  · have hsound : d.core.upload.Sound := h.delivering.steady.sound
    exact Bool.or_eq_true_iff.mpr ((hv.complete hsound hn hlast).imp_left h.complete)
  · cases request with
    | none =>
      rw [hb]
      exact h.due (by simpa using hdue)
    | some request =>
      -- The image was in memory when the reboot was asked for.
      have hboots : img.Boots d.core.config request d.machine.chip.memory :=
        hstep.faithful.reboots request d.machine.chip.memory List.mem_cons_self
      rw [h.configured] at hboots
      refine ⟨fun i hi a ha => (hmemory i hi a ha).trans (hboots.holds i hi a ha),
        timerOf d.machine.chip.memory, ?_⟩
      rw [hb, ← request_eq hlies hboots]
      exact Rp2040.timerOf_armReset d.machine.chip request

/-- The worker tells of a job that is done. -/
theorem OnCourse.finish (hfinish : d.finish = .ok d') : OnCourse img capacity d' := by
  cases hphase : d.phase with
  | idle =>
    rw [Device.finish_of_idle hphase] at hfinish
    cases hfinish
    exact h
  | holding origin job =>
    rw [Device.finish_of_holding hphase] at hfinish
    cases hfinish
    exact h
  | done job =>
    by_cases hlistener : job.listener = some .upload
    · have hsound : d.core.upload.Sound := h.delivering.steady.sound
      rcases Upload.credit_cases hsound job d.core.config with
        ⟨hawaits, hcredit⟩ | ⟨hawaits, v, request, hcredit, hv⟩
      · rw [Device.finish_of_credit hphase hlistener hcredit] at hfinish
        cases hfinish
        rw [show (d.core.rebooting || Option.isSome (none : Option RebootRequest))
          = d.core.rebooting from Bool.or_false _]
        exact h.told hlies hphase hlistener hawaits (memory_complete d.machine job.response)
      · rw [Device.finish_of_credit hphase hlistener hcredit] at hfinish
        cases hfinish
        refine h.credited hlies himage hphase hlistener hawaits hv ?_
        rw [memory_complete]
        cases request <;> rfl
    · have hside : ∀ b : Board Chip, b.chip.memory = d.machine.chip.memory →
          diskSide { d with phase := .idle, machine := b } = diskSide d := by
        intro b hb
        simp [diskSide, hphase, Phase.ofUpload, hlistener, hb]
      cases hwaits : job.listener with
      | none =>
        rw [Device.finish_of_unheard hphase hwaits] at hfinish
        cases hfinish
        exact h.of_side (hside d.machine rfl) h.waiting fun _ _ hother => Phase.noConfusion hother
      | some listener =>
        cases listener with
        | upload => exact absurd hwaits hlistener
        | host =>
          rw [Device.finish_of_host hphase hwaits] at hfinish
          cases hfinish
          exact h.of_side (hside _ (memory_complete _ _)) h.waiting
            fun _ _ hother => Phase.noConfusion hother

end image

end Loader

end Reflash
