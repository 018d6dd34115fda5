import Reflash.Proofs.Attribution
import Reflash.Proofs.Delivery
/-! # Complete images are in memory

  A device reboots when all blocks of its image are valid. The image is in memory
  by then, in whatever order its sectors were delivered, however often, and
  whatever happened in between.

  What carries this is that the books of an upload are `Reliable`. A page that is
  valid is held, and if it lies in flash its sector was erased for this upload; all
  pages in such a sector are ready. A job that has not run yet is `Harmless`: it
  programs a page that is ready, or it erases a sector that was not erased before,
  so that no valid page lies there. A job that ran well `Wrote` its page, and if
  the upload waits for it, it is the job for the block accepted last.

  None of this holds of an image with a page in a sector that is not tracked. Such
  a page is dropped, but its block may have started the upload, which then waits
  for block zero under token zero. A job from before may be credited for it. Still
  the image does not become complete, because if page zero is not tracked then no
  later page of flash is.
-/

namespace Reflash

namespace PagedImage

variable (img : PagedImage) (map : AddressMap) (i : UInt32) (job : Job) (u : Upload) (m : Memory)

/-! ### The books and memory -/

/-- What the books of an upload say about memory is so. -/
structure Reliable : Prop where
  inRam : ∀ i, u.isBlockValid i = true → img.inRam map i = u.inRam
  erased : ∀ i, u.isBlockValid i = true → img.inRam map i = false →
    (img.flash? map i).isSome = true ∧ u.erasedSectors.contains (img.sectorNo map i) = true
  holds : ∀ i, u.isBlockValid i = true → img.Holds m i
  ready : ∀ i < img.numBlocks, (img.flash? map i).isSome = true →
    u.erasedSectors.contains (img.sectorNo map i) = true → img.Ready m i
  base_le : img.base ≤ u.lowestAddr
  lowest : u.isBlockValid 0 = true → u.lowestAddr = img.base

/-- A job that is still to run programs a page that is ready, or it erases a
    sector for the first time. -/
structure Harmless : Prop where
  ready : img.inRam map i = false → job.erase = none → img.Ready m i
  erase : u.numBlocks ≠ 0 → job.erase.isSome = true →
    u.erasedSectors.contains (img.sectorNo map i) = false

/-- A job that ended well left its page in memory, and the sector ready that it
    erased. -/
structure Wrote : Prop where
  holds : job.result = some .ok → img.Holds m i
  ready : job.result = some .ok → job.erase.isSome = true →
    ∀ j < img.numBlocks, (img.flash? map j).isSome = true →
      img.sectorNo map j = img.sectorNo map i → img.Ready m j

/-- A job is for the block that the upload waits for. -/
structure ForBlock : Prop where
  blockNo : u.blockNo = i
  inRam : img.inRam map i = u.inRam
  erased : img.inRam map i = false → job.erase = none →
    u.erasedSectors.contains (img.sectorNo map i) = true

/-- If the upload waits for a job, it is for the right block. -/
def Expected : Prop := u.numBlocks ≠ 0 → job.token = u.token → img.ForBlock map i job u

/-- A reboot that comes when the image is in memory, and starts it. -/
structure Boots (config : Config) (request : RebootRequest) (m : Memory) : Prop where
  holds : ∀ i < img.numBlocks, img.Holds m i
  request :
    (∀ i < img.numBlocks, img.inRam config.map i = true)
        ∧ request = ⟨img.base, config.ramStack, config.rebootDelayMs⟩
      ∨ (∀ i < img.numBlocks, (img.flash? config.map i).isSome = true)
        ∧ request = ⟨0, 0, config.rebootDelayMs⟩

variable {img map i job u m} {v : Upload} {capacity : UInt32} {config : Config}

theorem inRam_of_flash (hmap : map.WellFormed) (h : (img.flash? map i).isSome = true) :
    img.inRam map i = false := by
  rw [Bool.eq_false_iff]
  intro hram
  rw [flash_of_inRam hmap hram] at h
  cases h

/-! ### A page is looked at -/

/-- An upload that was just started says nothing about memory. -/
theorem reliable_of_started {inRam : Bool} {numBlocks : UInt32} {fits : Bool}
    (h : u.Started inRam numBlocks v fits) : img.Reliable map v m := by
  constructor
  · intro i hi
    simp [h.valid] at hi
  · intro i hi
    simp [h.valid] at hi
  · intro i hi
    simp [h.valid] at hi
  · intro i _ _ hi
    simp [h.erasedSectors] at hi
  · rw [h.lowestAddr, UInt32.le_iff_toNat_le]
    exact Nat.le_of_lt_succ img.base.toNat_lt
  · intro hi
    simp [h.valid] at hi

/-- A page that starts an upload and yet is dropped lies in a sector that is not
    tracked, unless there is no room for the image. -/
theorem flash_of_drops {d : Device MemoryMachine} {tokens : List UInt32}
    (hs : img.Steady capacity d tokens) (hi : i < img.numBlocks) (hdrop : img.Drops d i)
    (hstart : d.core.upload.Started (img.inRam d.core.config.map i) img.numBlocks
      (img.joined d i).1 (img.joined d i).2)
    (hn : (img.joined d i).1.numBlocks ≠ 0) :
    (img.flash? d.core.config.map i).isSome = true
      ∧ capacity ≤ img.sectorNo d.core.config.map i := by
  rcases hdrop with hfits | hkind | hno | hlong | ⟨region, hflash, hle⟩
  · rw [hstart.numBlocks, hfits] at hn
    exact absurd rfl hn
  · exact absurd hstart.inRam.symm hkind
  · exact absurd hi (UInt32.not_lt.mpr hno)
  · rw [payload_block hi, length_page hi] at hlong
    exact absurd hlong (Nat.lt_irrefl 256)
  · have hflash' : img.flash? d.core.config.map i = some region := hflash
    rw [capacity_joined, hs.erasedSectors] at hle
    rw [hflash', sectorNo_of_flash hflash']
    exact ⟨rfl, hle⟩

/-- The books stay reliable when a page is looked at. -/
theorem reliable_joined {d : Device MemoryMachine}
    (h : d.core.upload.numBlocks ≠ 0 →
      img.Reliable d.core.config.map d.core.upload d.machine.memory)
    (i : UInt32) : img.Reliable d.core.config.map (img.joined d i).1 d.machine.memory := by
  rcases img.joined_cases d i with ⟨hn, hsame⟩ | hstart
  · rw [hsame]
    exact h (hn ▸ img.numBlocks_ne_zero)
  · exact reliable_of_started hstart

/-! ### A job is carried out -/

section writing

variable {j : UInt32} {other : Job}

/-- The books stay reliable when a harmless job is carried out. -/
theorem Reliable.written (h : img.Reliable map u m) (hmap : map.WellFormed)
    (hn : u.numBlocks ≠ 0) (hvalid : ∀ j, u.isBlockValid j = true → j < img.numBlocks)
    (hjob : img.IsJob map i capacity job) (hharmless : img.Harmless map i job u m) :
    img.Reliable map u (img.written map m i job) := by
  refine ⟨h.inRam, h.erased, ?_, ?_, h.base_le, h.lowest⟩
  · intro j hj
    refine written_keeps hmap hjob (hvalid j hj) (h.holds j hj) ?_ ?_
    · -- The sector of a valid page was erased before, that of the job was not.
      intro _ herase hflash hsame
      have hyes := (h.erased j hj (inRam_of_flash hmap hflash)).2
      rw [hsame, hharmless.erase hn herase] at hyes
      cases hyes
    · cases hram : img.inRam map j with
      | true => exact .inl rfl
      | false => exact .inr (h.erased j hj hram).1
  · intro j hj hflash herased
    exact written_ready hmap hjob (h.ready j hj hflash herased)

/-- A harmless job stays so when another one is carried out. -/
theorem Harmless.written (h : img.Harmless map j other u m) (hmap : map.WellFormed)
    (hjob : img.IsJob map i capacity job) :
    img.Harmless map j other u (img.written map m i job) :=
  ⟨fun hram hnone => written_ready hmap hjob (h.ready hram hnone), h.erase⟩

/-- A harmless job does what it is for. -/
theorem Harmless.wrote (h : img.Harmless map i job u m) (hmap : map.WellFormed)
    (hjob : img.IsJob map i capacity job) :
    img.Wrote map i { job with result := some .ok } (img.written map m i job) := by
  constructor
  · intro _
    exact written_holds hmap hjob h.ready
  · intro _ herase j hj hflash hsector
    have hram : img.inRam map i = false := by
      rw [Bool.eq_false_iff]
      intro hram
      have hnone := hjob.ram hram
      simp [hnone] at herase
    exact written_erased hmap hjob hram herase hj hflash hsector

end writing

/-! ### A job is credited -/

/-- The sector that a job for a page erased is the one that is noted. -/
theorem contains_erasedWith (hmap : map.WellFormed) (hjob : img.IsJob map i capacity job)
    (hcapacity : u.erasedSectors.capacity = capacity) (s : UInt32) :
    (u.erasedWith map job.erase).contains s = true ↔
      u.erasedSectors.contains s = true
        ∨ job.erase.isSome = true ∧ s = img.sectorNo map i := by
  cases hram : img.inRam map i with
  | true =>
    have hnone := hjob.ram hram
    simp [hnone, Upload.erasedWith]
  | false =>
    obtain ⟨region, hflash, hlt, -, hnone | hsome⟩ := hjob.flash hram
    · simp [hnone, Upload.erasedWith]
    · have haligned := aligned_of_flash hmap hflash
      have hbase := base_le_of_flash hflash
      -- The range of the sector lies in the same region as the page.
      have hsector := hmap.findOf?_sectorBase hflash
      have hroom : (region.sectorNo (img.addr i)).toNat < u.erasedSectors.room :=
        IndexSet.lt_room_of_lt_capacity (by rw [hcapacity]; exact hlt)
      simp only [hsome, Upload.erasedWith, hsector, Region.sectorNo_sectorBase haligned hbase,
        IndexSet.contains_insert, hroom, sectorNo_of_flash hflash, and_true, Bool.or_eq_true,
        decide_eq_true_eq, Option.isSome_some, true_and,
        @eq_comm _ s (region.sectorNo (img.addr i))]

theorem min_of_le {a b : UInt32} (h : a ≤ b) : min a b = a := if_pos h

theorem min_of_ge {a b : UInt32} (h : b ≤ a) : min a b = b := by
  show (if a ≤ b then a else b) = b
  split
  · exact UInt32.le_antisymm ‹a ≤ b› h
  · rfl

/-- The books stay reliable when the job that the upload waits for is credited. -/
theorem Reliable.credit {request : Option RebootRequest} (h : img.Reliable map u m)
    (hmap : config.map = map) (hwell : map.WellFormed)
    (hcapacity : u.erasedSectors.capacity = capacity) (hjob : img.IsJob map i capacity job)
    (hwrote : img.Wrote map i job m) (hblock : img.ForBlock map i job u)
    (hok : job.result = some .ok) (hv : u.Credits job config v request) :
    img.Reliable map v m := by
  have herased : ∀ s, v.erasedSectors.contains s = true ↔
      u.erasedSectors.contains s = true ∨ job.erase.isSome = true ∧ s = img.sectorNo map i := by
    intro s
    rw [hv.erasedSectors, hmap]
    exact contains_erasedWith hwell hjob hcapacity s
  have hvalid : ∀ j, v.isBlockValid j = true → u.isBlockValid j = true ∨ j = i := by
    intro j hj
    rw [hv.valid, Bool.or_eq_true, decide_eq_true_eq, hblock.blockNo] at hj
    exact hj
  have hbase : img.base ≤ img.addr i := by
    rw [UInt32.le_iff_toNat_le, toNat_addr hjob.lt]
    exact Nat.le_add_right _ _
  -- The block that becomes valid is the page that was written; the rest is as before.
  constructor
  · intro j hj
    rw [hv.inRam]
    rcases hvalid j hj with hold | rfl
    · exact h.inRam j hold
    · exact hblock.inRam
  · intro j hj hram
    rcases hvalid j hj with hold | rfl
    · exact ⟨(h.erased j hold hram).1, (herased _).mpr (.inl (h.erased j hold hram).2)⟩
    · obtain ⟨region, hflash, -⟩ := hjob.flash hram
      refine ⟨by rw [hflash]; rfl, (herased _).mpr ?_⟩
      cases herase : job.erase with
      | none => exact .inl (hblock.erased hram herase)
      | some range => exact .inr ⟨rfl, rfl⟩
  · intro j hj
    rcases hvalid j hj with hold | rfl
    · exact h.holds j hold
    · exact hwrote.holds hok
  · -- A sector is erased for the upload from before, or by this job.
    intro j hj hflash hsector
    rcases (herased _).mp hsector with hold | ⟨herase, hsame⟩
    · exact h.ready j hj hflash hold
    · exact hwrote.ready hok herase j hj hflash hsame
  · -- No page lies below the base, and page zero lies there.
    rw [hv.lowestAddr, hjob.addr]
    split
    · exact h.base_le
    · rcases UInt32.le_total u.lowestAddr (img.addr i) with hle | hge
      · rw [min_of_le hle]
        exact h.base_le
      · rw [min_of_ge hge]
        exact hbase
  · intro hzero
    rw [hv.lowestAddr, hjob.addr]
    rcases hvalid 0 hzero with hold | rfl
    · rw [h.lowest hold, min_of_le hbase, ite_self]
    · have hfirst : img.addr 0 = img.base := by
        rw [← UInt32.toNat_inj, toNat_addr hjob.lt]
        rfl
      rw [hfirst, min_of_ge h.base_le, hblock.blockNo]
      split
      · exact h.lowest ‹_›
      · rfl

/-- With the last block comes a reboot into the image. -/
theorem Reliable.boots {request : Option RebootRequest} {r : RebootRequest}
    (h : img.Reliable config.map v m) (hn : v.numBlocks = img.numBlocks)
    (hv : u.Credits job config v request) (hrequest : request = some r) :
    img.Boots config r m := by
  have hn' : v.numBlocks ≠ 0 := hn ▸ img.numBlocks_ne_zero
  rw [hv.request] at hrequest
  split at hrequest
  · rename_i hlast
    -- The last block was counted, so all of them are valid.
    have hall : ∀ i < img.numBlocks, v.isBlockValid i = true := by
      rw [← hn]
      exact (hv.sound hn').validCount_eq_iff.mp hlast.2
    have hr : v.rebootRequest config = r := Option.some.inj hrequest
    refine ⟨fun i hi => h.holds i (hall i hi), ?_⟩
    have hfirst : v.isBlockValid 0 = true :=
      hall 0 (UInt32.pos_iff_ne_zero.mpr img.numBlocks_ne_zero)
    rw [← hr, Upload.rebootRequest]
    cases hram : v.inRam with
    | true =>
      refine .inl ⟨fun i hi => (h.inRam i (hall i hi)).trans hram, ?_⟩
      rw [if_pos rfl, h.lowest hfirst]
    | false =>
      refine .inr ⟨fun i hi => (h.erased i (hall i hi) ?_).1, ?_⟩
      · exact (h.inRam i (hall i hi)).trans hram
      · rw [if_neg (by decide)]
  · cases hrequest

/-! ### Images whose sectors are all tracked -/

/-- All sectors of an image are among those that are tracked. -/
def Tracked (img : PagedImage) (map : AddressMap) (capacity : UInt32) : Prop :=
  ∀ i < img.numBlocks, (img.flash? map i).isSome = true → img.sectorNo map i < capacity

variable (img map job u m capacity) in
/-- A job for a page that is still to run. -/
def ToRun : Prop :=
  ∃ i, img.IsJob map i capacity job ∧ img.Harmless map i job u m ∧ img.Expected map i job u

variable (img map job u m capacity) in
/-- A job for a page that has run. -/
def HasRun : Prop :=
  ∃ i, img.IsJob map i capacity job ∧ img.Wrote map i job m ∧ img.Expected map i job u

/-- What a delivery keeps. -/
structure Faithful (img : PagedImage) (capacity : UInt32) (d : Device MemoryMachine) : Prop where
  reliable : d.core.upload.numBlocks ≠ 0 →
    img.Reliable d.core.config.map d.core.upload d.machine.memory
  waiting : ∀ job, d.core.disk.job = some job →
    img.ToRun d.core.config.map job d.core.upload d.machine.memory capacity
  held : ∀ origin job, d.phase = .holding origin job →
    img.ToRun d.core.config.map job d.core.upload d.machine.memory capacity
  done : ∀ job, d.phase = .done job →
    img.HasRun d.core.config.map job d.core.upload d.machine.memory capacity
  /-- The upload waits for the job that waits. -/
  current : d.core.upload.numBlocks ≠ 0 → ∀ job, d.core.disk.job = some job →
    job.token = d.core.upload.token
  apart : ∀ job other, d.core.disk.job = some job → d.phase.job? = some other →
    job.token ≠ other.token
  reboots : ∀ request m, (request, m) ∈ d.machine.reboots → img.Boots d.core.config request m

/-- No job is expected where there is no upload. -/
theorem expected_idle (hv : v.numBlocks = 0) : img.Expected map i job v :=
  fun hn => absurd hv hn

theorem ToRun.idle (h : img.ToRun map job u m capacity) (hv : v.numBlocks = 0) :
    img.ToRun map job v m capacity := by
  obtain ⟨i, hjob, hharmless, -⟩ := h
  exact ⟨i, hjob, ⟨hharmless.ready, fun hn => absurd hv hn⟩, expected_idle hv⟩

theorem HasRun.idle (h : img.HasRun map job u m capacity) (hv : v.numBlocks = 0) :
    img.HasRun map job v m capacity := by
  obtain ⟨i, hjob, hwrote, -⟩ := h
  exact ⟨i, hjob, hwrote, expected_idle hv⟩

section keeping

variable {d d' : Device MemoryMachine} {tokens new : List UInt32} {token : UInt32}

/-- Where there is no upload, there are no books to keep. -/
theorem Faithful.idle (hf : img.Faithful capacity d) (hv : v.numBlocks = 0) :
    img.Faithful capacity { d with core := { d.core with upload := v } } := by
  constructor
  · intro hn
    exact absurd hv hn
  · intro job h
    exact (hf.waiting job h).idle hv
  · intro origin job h
    exact (hf.held origin job h).idle hv
  · intro job h
    exact (hf.done job h).idle hv
  · intro hn
    exact absurd hv hn
  · exact hf.apart
  · exact hf.reboots

/-- A page that is dropped leaves the upload as it was, or there is none. -/
theorem Faithful.dropped (hf : img.Faithful capacity d) (hs : img.Steady capacity d tokens)
    (htracked : img.Tracked d.core.config.map capacity) (hi : i < img.numBlocks)
    (hdrop : img.Drops d i) :
    img.Faithful capacity { d with core := { d.core with upload := (img.joined d i).1 } } := by
  rcases img.joined_cases d i with ⟨-, hsame⟩ | hstart
  · rw [hsame]
    exact hf
  · refine hf.idle (Decidable.byContradiction fun hn => ?_)
    obtain ⟨hflash, hle⟩ := flash_of_drops hs hi hdrop hstart hn
    exact UInt32.not_lt.mpr hle (htracked i hi hflash)

/-- The sectors that were erased for an upload do not become more when a page is
    looked at. -/
theorem contains_joined {s : UInt32}
    (h : (img.joined d i).1.erasedSectors.contains s = true) :
    d.core.upload.numBlocks = img.numBlocks ∧ d.core.upload.erasedSectors.contains s = true := by
  rcases img.joined_cases d i with ⟨hn, hsame⟩ | hstart
  · rw [hsame] at h
    exact ⟨hn, h⟩
  · simp [hstart.erasedSectors] at h

/-- The job for a page that is taken is harmless, and the upload waits for it. -/
theorem toRun_jobFor (hf : img.Faithful capacity d) (hi : i < img.numBlocks)
    (hkeep : ¬ img.Drops d i)
    (hjob : img.IsJob d.core.config.map i capacity (img.jobFor d i token)) :
    img.ToRun d.core.config.map (img.jobFor d i token) (img.taken d i token) d.machine.memory
      capacity := by
  have hreliable := reliable_joined hf.reliable i
  have hkind := inRam_of_not_drops hkeep
  refine ⟨i, hjob, ⟨?_, ?_⟩, fun _ _ => ⟨rfl, hkind, ?_⟩⟩
  · -- The job erases nothing: its sector was erased for the upload, so its page is ready.
    intro hram hnone
    obtain ⟨region, hflash, -⟩ := hjob.flash hram
    exact hreliable.ready i hi (by rw [hflash]; rfl) ((erase_jobFor hflash).mp hnone)
  · -- The job erases its sector: no page of the upload was credited there.
    intro _ hsome
    cases hram : img.inRam d.core.config.map i with
    | true => simp [hjob.ram hram] at hsome
    | false =>
      obtain ⟨region, hflash, -⟩ := hjob.flash hram
      rw [Bool.eq_false_iff]
      intro hcontains
      rw [(erase_jobFor hflash).mpr hcontains] at hsome
      cases hsome
  · intro hram hnone
    obtain ⟨region, hflash, -⟩ := hjob.flash hram
    exact (erase_jobFor hflash).mp hnone

/-- A page is taken: its job waits, and the upload waits for no other one. -/
theorem Faithful.taken (hf : img.Faithful capacity d) (hs : img.Steady capacity d tokens)
    (hfresh : token ∉ tokens) (hi : i < img.numBlocks) (hkeep : ¬ img.Drops d i)
    (hjob : img.IsJob d.core.config.map i capacity (img.jobFor d i token)) :
    img.Faithful capacity { d with
      core := { d.core with
        upload := img.taken d i token
        disk := { d.core.disk with job := some (img.jobFor d i token) } } } := by
  -- A job that is under way has an older token, so the upload does not wait for it any more.
  have hne : ∀ job, d.phase.job? = some job → job.token ≠ token := by
    intro job h htoken
    obtain ⟨j, -, hmem⟩ := hs.working job h
    exact hfresh (htoken ▸ hmem)
  -- Its erase is as harmless as before, since no sector was added to those erased.
  have herase : ∀ j other, img.Harmless d.core.config.map j other d.core.upload d.machine.memory →
      img.Harmless d.core.config.map j other (img.taken d i token) d.machine.memory := by
    intro j other h
    refine ⟨h.ready, fun _ hsome => ?_⟩
    rw [Bool.eq_false_iff]
    intro hcontains
    obtain ⟨hn, hold⟩ := contains_joined hcontains
    have hno := h.erase (hn ▸ img.numBlocks_ne_zero) hsome
    rw [hold] at hno
    cases hno
  have hreliable := reliable_joined hf.reliable i
  have hnew := toRun_jobFor hf hi hkeep hjob
  constructor
  · intro _
    exact ⟨hreliable.inRam, hreliable.erased, hreliable.holds, hreliable.ready, hreliable.base_le,
      hreliable.lowest⟩
  · intro job h
    cases h
    exact hnew
  · intro origin job h
    obtain ⟨j, hj, hharmless, -⟩ := hf.held origin job h
    have hphase : d.phase = .holding origin job := h
    refine ⟨j, hj, herase j job hharmless, fun _ htoken => ?_⟩
    exact absurd htoken (hne job (by rw [hphase]; rfl))
  · intro job h
    obtain ⟨j, hj, hwrote, -⟩ := hf.done job h
    have hphase : d.phase = .done job := h
    refine ⟨j, hj, hwrote, fun _ htoken => ?_⟩
    exact absurd htoken (hne job (by rw [hphase]; rfl))
  · intro _ job h
    cases h
    rfl
  · intro job other h hother
    cases h
    exact (hne other hother).symm
  · exact hf.reboots

/-- The worker fetches the job that waits. -/
theorem Faithful.fetched (hf : img.Faithful capacity d) (hdisk : d.core.disk.job = some job) :
    img.Faithful capacity { d with
      core := { d.core with disk := { d.core.disk with job := none } }
      phase := .holding .disk job } := by
  refine ⟨hf.reliable, ?_, ?_, ?_, ?_, ?_, hf.reboots⟩
  · intro other h
    cases h
  · intro origin other h
    cases h
    exact hf.waiting job hdisk
  · intro other h
    cases h
  · intro _ other h
    cases h
  · intro other _ h
    cases h

/-- A job that is refused has written nothing, and will not be credited. -/
theorem Faithful.refused {status : Status} (hf : img.Faithful capacity d)
    (hphase : d.phase = .holding .disk job) (hstatus : status ≠ .ok) :
    img.Faithful capacity { d with phase := .done { job with result := some status } } := by
  refine ⟨hf.reliable, hf.waiting, ?_, ?_, hf.current, ?_, hf.reboots⟩
  · intro origin other h
    cases h
  · intro other h
    cases h
    obtain ⟨i, hjob, -, hexpected⟩ := hf.held _ _ hphase
    refine ⟨i, hjob.withResult _, ⟨?_, ?_⟩, fun hn htoken => ?_⟩
    · intro hok
      exact absurd (Option.some.inj hok) hstatus
    · intro hok
      exact absurd (Option.some.inj hok) hstatus
    · have hblock := hexpected hn htoken
      exact ⟨hblock.blockNo, hblock.inRam, hblock.erased⟩
  · intro other later h hlater
    cases hlater
    exact hf.apart other job h (by rw [hphase]; rfl)

/-- A job is carried out: its page is written, and every page that counts is still
    held. -/
theorem Faithful.written (hf : img.Faithful capacity d) (hs : img.Steady capacity d tokens)
    (hmap : d.core.config.map.WellFormed) (hphase : d.phase = .holding .disk job)
    (hisJob : img.IsJob d.core.config.map i capacity job) :
    img.Faithful capacity { d with
      lastWriter := some .disk
      machine := { d.machine with
        memory := img.written d.core.config.map d.machine.memory i job }
      phase := .done { job with result := some .ok } } := by
  obtain ⟨j, hjob, hharmless, hexpected⟩ := hf.held _ _ hphase
  -- The address of a job tells for which page it is.
  have hsame : j = i := by
    have haddr := hjob.addr.symm.trans hisJob.addr
    have hin : img.InPage i (img.addr j) := by
      rw [haddr]
      exact inPage_addr i
    exact (inPage_addr j).eq hjob.lt hisJob.lt hin
  subst hsame
  constructor
  · intro hn
    -- What counts is a page of the image, and the job is harmless to each of those.
    have hvalid : ∀ i, d.core.upload.isBlockValid i = true → i < img.numBlocks := by
      intro i hi
      rw [← hs.numBlocks hn]
      exact (hs.sound hn).valid_lt i hi
    exact (hf.reliable hn).written hmap hn hvalid hjob hharmless
  · intro other h
    obtain ⟨k, hk, hwaits, hlater⟩ := hf.waiting other h
    exact ⟨k, hk, hwaits.written hmap hjob, hlater⟩
  · intro origin other h
    cases h
  · intro other h
    cases h
    refine ⟨j, hjob.withResult _, hharmless.wrote hmap hjob, fun hn htoken => ?_⟩
    have hblock := hexpected hn htoken
    exact ⟨hblock.blockNo, hblock.inRam, hblock.erased⟩
  · exact hf.current
  · intro other later h hlater
    cases hlater
    exact hf.apart other job h (by rw [hphase]; rfl)
  · exact hf.reboots

/-- A job that the upload does not wait for is told of. -/
theorem Faithful.told (hf : img.Faithful capacity d) :
    img.Faithful capacity { d with phase := .idle } := by
  refine ⟨hf.reliable, hf.waiting, ?_, ?_, hf.current, ?_, hf.reboots⟩
  · intro origin other h
    cases h
  · intro other h
    cases h
  · intro other later _ h
    cases h

/-- The job that the upload waits for is told of: its block becomes valid. No
    other job is under way then. -/
theorem Faithful.credited {request : Option RebootRequest} (hf : img.Faithful capacity d)
    (hs : img.Steady capacity d tokens) (hmap : d.core.config.map.WellFormed)
    (hphase : d.phase = .done job) (hawaits : d.core.upload.awaits job = true)
    (hv : d.core.upload.Credits job d.core.config v request) :
    img.Faithful capacity { d with
      phase := .idle
      core := { d.core with upload := v, rebooting := d.core.rebooting || request.isSome }
      machine := { d.machine with
        reboots := (request.map fun r => (r, d.machine.memory)).toList
          ++ d.machine.reboots } } := by
  simp only [Upload.awaits, Bool.and_eq_true, bne_iff_ne, beq_iff_eq] at hawaits
  obtain ⟨⟨hn, htoken⟩, hok⟩ := hawaits
  obtain ⟨i, hjob, hwrote, hexpected⟩ := hf.done job hphase
  have hreliable : img.Reliable d.core.config.map v d.machine.memory :=
    (hf.reliable hn).credit rfl hmap hs.erasedSectors hjob hwrote (hexpected hn htoken) hok hv
  -- What waits would have the token of the job that was just told of.
  have hnone : ∀ other, d.core.disk.job ≠ some other := by
    intro other h
    refine hf.apart other job h (by rw [hphase]; rfl) ?_
    rw [hf.current hn other h, htoken]
  constructor
  · intro _
    exact hreliable
  · intro other h
    exact absurd h (hnone other)
  · intro origin other h
    cases h
  · intro other h
    cases h
  · intro _ other h
    exact absurd h (hnone other)
  · intro other _ h
    exact absurd h (hnone other)
  · intro r m hmem
    rcases List.mem_append.mp hmem with hnew | hold
    · simp only [Option.mem_toList, Option.map_eq_some_iff] at hnew
      obtain ⟨r', hrequest, heq⟩ := hnew
      cases heq
      exact hreliable.boots (by rw [hv.numBlocks]; exact hs.numBlocks hn) hv hrequest
    · exact hf.reboots r m hold

/-- Whatever happens in a delivery, memory holds what the upload says. -/
theorem Delivery.faithful (h : img.Delivery capacity d new d')
    (hmap : d.core.config.map.WellFormed) (hs : img.Steady capacity d tokens)
    (htracked : img.Tracked d.core.config.map capacity) (hnodup : (new ++ tokens).Nodup)
    (hf : img.Faithful capacity d) : img.Faithful capacity d' := by
  cases h with
  | nothing => exact hf
  | givenUp => exact hf.idle rfl
  | dropped hi _ hdrop => exact hf.dropped hs htracked hi hdrop
  | taken hi _ hkeep hjob => exact hf.taken hs (List.nodup_cons.mp hnodup).1 hi hkeep hjob
  | fetched _ hdisk => exact hf.fetched hdisk
  | refused hphase _ => exact hf.refused hphase (by decide)
  | written hphase _ hjob => exact hf.written hs hmap hphase hjob
  | told => exact hf.told
  | credited hphase hawaits hv => exact hf.credited hs hmap hphase hawaits hv

end keeping

/-! ### Images with a sector that is not tracked -/

variable (img map capacity i) in
/-- A page that a device may take. -/
def MayTake : Prop :=
  i < img.numBlocks ∧ (img.inRam map i = true
    ∨ (img.flash? map i).isSome = true ∧ img.sectorNo map i < capacity)

theorem IsJob.mayTake (h : img.IsJob map i capacity job) : img.MayTake map i capacity := by
  refine ⟨h.lt, ?_⟩
  cases hram : img.inRam map i with
  | true => exact .inl rfl
  | false =>
    obtain ⟨region, hflash, hlt, -⟩ := h.flash hram
    rw [hflash, sectorNo_of_flash hflash]
    exact .inr ⟨rfl, hlt⟩

/-- Later pages of flash lie in later sectors. -/
theorem sectorNo_le {j : UInt32} (hmap : map.WellFormed) (hj : j < img.numBlocks)
    (h : (img.flash? map i).isSome = true) (h' : (img.flash? map j).isSome = true) (hle : i ≤ j) :
    img.sectorNo map i ≤ img.sectorNo map j := by
  obtain ⟨region, hflash⟩ := Option.isSome_iff_exists.mp h
  obtain ⟨region', hflash'⟩ := Option.isSome_iff_exists.mp h'
  obtain rfl := flash_eq hmap hflash hflash'
  rw [sectorNo_of_flash hflash, sectorNo_of_flash hflash', UInt32.le_iff_toNat_le,
    Region.toNat_sectorNo (base_le_of_flash hflash),
    Region.toNat_sectorNo (base_le_of_flash hflash'),
    toNat_addr (UInt32.lt_of_le_of_lt hle hj), toNat_addr hj]
  have hnat := UInt32.le_iff_toNat_le.mp hle
  omega

/-- What a delivery keeps if not all sectors of the image are tracked. The upload
    may wait for block zero although its page was not taken. -/
structure Stalled (img : PagedImage) (capacity : UInt32) (d : Device MemoryMachine) : Prop where
  blockNo : d.core.upload.numBlocks ≠ 0 →
    img.MayTake d.core.config.map d.core.upload.blockNo capacity
        ∧ img.inRam d.core.config.map d.core.upload.blockNo = d.core.upload.inRam
      ∨ d.core.upload.inRam = false ∧ d.core.upload.blockNo = 0
  valid : d.core.upload.numBlocks ≠ 0 → ∀ i, d.core.upload.isBlockValid i = true →
    img.MayTake d.core.config.map i capacity
        ∧ img.inRam d.core.config.map i = d.core.upload.inRam
      ∨ d.core.upload.inRam = false ∧ i = 0 ∧ ∃ j, img.MayTake d.core.config.map j capacity
  reboots : d.machine.reboots = []

/-- The blocks that may be valid are not all blocks of the image. -/
theorem not_all_valid {inRam : Bool} (hmap : map.WellFormed)
    (huntracked : ¬ img.Tracked map capacity) :
    ¬ ∀ i < img.numBlocks, img.MayTake map i capacity ∧ img.inRam map i = inRam
      ∨ inRam = false ∧ i = 0 ∧ ∃ j, img.MayTake map j capacity := by
  -- Suppose that they were, and take a page whose sector is not tracked.
  intro hall
  simp only [Tracked, not_forall, UInt32.not_lt] at huntracked
  obtain ⟨i, hi, hflash, hle⟩ := huntracked
  -- The page that is not tracked cannot be taken, so it is page zero.
  have hno : ¬ img.MayTake map i capacity := by
    rintro ⟨-, hram | ⟨-, hlt⟩⟩
    · rw [inRam_of_flash hmap hflash] at hram
      cases hram
    · exact UInt32.not_lt.mpr hle hlt
  rcases hall i hi with ⟨htake, -⟩ | ⟨hkind, rfl, j, hj⟩
  · exact hno htake
  · -- Another page was taken, and it lies in flash, behind page zero.
    rcases hall j hj.1 with ⟨-, hram⟩ | ⟨-, rfl, -⟩
    · obtain ⟨hlt, hram' | ⟨hflash', htracked⟩⟩ := hj
      · rw [hram, hkind] at hram'
        cases hram'
      · have hmore := sectorNo_le hmap hlt hflash hflash'
          (UInt32.le_iff_toNat_le.mpr (Nat.zero_le _))
        exact UInt32.not_lt.mpr (UInt32.le_trans hle hmore) htracked
    · exact hno hj

section stalling

variable {d d' : Device MemoryMachine} {tokens new : List UInt32} {token : UInt32}

/-- A page that is dropped may have started an upload, which then waits for block
    zero. -/
theorem Stalled.dropped (hd : img.Stalled capacity d) (hs : img.Steady capacity d tokens)
    (hmap : d.core.config.map.WellFormed) (hi : i < img.numBlocks) (hdrop : img.Drops d i) :
    img.Stalled capacity { d with core := { d.core with upload := (img.joined d i).1 } } := by
  rcases img.joined_cases d i with ⟨-, hsame⟩ | hstart
  · rw [hsame]
    exact hd
  · refine ⟨fun hn => ?_, fun _ j hj => ?_, hd.reboots⟩
    · obtain ⟨hflash, -⟩ := flash_of_drops hs hi hdrop hstart hn
      exact .inr ⟨hstart.inRam.trans (inRam_of_flash hmap hflash), hstart.blockNo⟩
    · have hvalid : (img.joined d i).1.isBlockValid j = true := hj
      rw [hstart.valid] at hvalid
      cases hvalid

/-- A page that is taken lies in a sector that is tracked. -/
theorem Stalled.taken (hd : img.Stalled capacity d) (hkeep : ¬ img.Drops d i)
    (hjob : img.IsJob d.core.config.map i capacity (img.jobFor d i token)) :
    img.Stalled capacity { d with
      core := { d.core with
        upload := img.taken d i token
        disk := { d.core.disk with job := some (img.jobFor d i token) } } } := by
  have hkind := inRam_of_not_drops hkeep
  refine ⟨fun _ => .inl ⟨hjob.mayTake, hkind⟩, fun _ j hj => ?_, hd.reboots⟩
  have hvalid : (img.joined d i).1.isBlockValid j = true := hj
  show img.MayTake d.core.config.map j capacity
      ∧ img.inRam d.core.config.map j = (img.joined d i).1.inRam
    ∨ (img.joined d i).1.inRam = false ∧ j = 0 ∧ ∃ k, img.MayTake d.core.config.map k capacity
  rcases img.joined_cases d i with ⟨hn, hsame⟩ | hstart
  · rw [hsame] at hvalid ⊢
    exact hd.valid (hn ▸ img.numBlocks_ne_zero) j hvalid
  · rw [hstart.valid] at hvalid
    cases hvalid

/-- A job may be credited for block zero that is not for it, but not all blocks
    become valid. -/
theorem Stalled.credited {request : Option RebootRequest} (hd : img.Stalled capacity d)
    (hs : img.Steady capacity d tokens) (hmap : d.core.config.map.WellFormed)
    (huntracked : ¬ img.Tracked d.core.config.map capacity) (hphase : d.phase = .done job)
    (hawaits : d.core.upload.awaits job = true)
    (hv : d.core.upload.Credits job d.core.config v request) :
    img.Stalled capacity { d with
      phase := .idle
      core := { d.core with upload := v, rebooting := d.core.rebooting || request.isSome }
      machine := { d.machine with
        reboots := (request.map fun r => (r, d.machine.memory)).toList
          ++ d.machine.reboots } } := by
  have hn : d.core.upload.numBlocks ≠ 0 := by
    simp only [Upload.awaits, Bool.and_eq_true, bne_iff_ne] at hawaits
    exact hawaits.1.1
  have hn' : v.numBlocks ≠ 0 := by
    rw [hv.numBlocks]
    exact hn
  obtain ⟨j, hjob, -⟩ := hs.working job (by rw [hphase]; rfl)
  -- The credit goes to the block that is waited for, which may be block zero for no reason.
  have hvalid : ∀ i, v.isBlockValid i = true →
      img.MayTake d.core.config.map i capacity ∧ img.inRam d.core.config.map i = v.inRam
      ∨ v.inRam = false ∧ i = 0 ∧ ∃ k, img.MayTake d.core.config.map k capacity := by
    intro i hi
    rw [hv.valid, Bool.or_eq_true, decide_eq_true_eq] at hi
    rw [hv.inRam]
    rcases hi with hold | rfl
    · exact hd.valid hn i hold
    · rcases hd.blockNo hn with hjoins | ⟨hkind, hzero⟩
      · exact .inl hjoins
      · exact .inr ⟨hkind, hzero, j, hjob.mayTake⟩
  -- A reboot would need all blocks valid.
  have hnone : request = none := by
    rw [hv.request]
    apply if_neg
    rintro ⟨-, hlast⟩
    refine not_all_valid hmap huntracked fun i hi => hvalid i ?_
    apply (hv.sound hn').validCount_eq_iff.mp hlast
    rw [hv.numBlocks, hs.numBlocks hn]
    exact hi
  refine ⟨fun _ => ?_, fun _ => hvalid, ?_⟩
  · show img.MayTake d.core.config.map v.blockNo capacity
        ∧ img.inRam d.core.config.map v.blockNo = v.inRam ∨ v.inRam = false ∧ v.blockNo = 0
    rw [hv.blockNo, hv.inRam]
    exact hd.blockNo hn
  · show (request.map fun r => (r, d.machine.memory)).toList ++ d.machine.reboots = []
    rw [hnone, hd.reboots]
    rfl

/-- Whatever happens in a delivery, the image does not become complete. -/
theorem Delivery.stalled (h : img.Delivery capacity d new d')
    (hmap : d.core.config.map.WellFormed) (hs : img.Steady capacity d tokens)
    (huntracked : ¬ img.Tracked d.core.config.map capacity) (hd : img.Stalled capacity d) :
    img.Stalled capacity d' := by
  cases h with
  | nothing => exact hd
  | givenUp => exact ⟨fun hn => absurd rfl hn, fun hn => absurd rfl hn, hd.reboots⟩
  | dropped hi _ hdrop => exact hd.dropped hs hmap hi hdrop
  | taken _ _ hkeep hjob => exact hd.taken hkeep hjob
  | fetched => exact ⟨hd.blockNo, hd.valid, hd.reboots⟩
  | refused => exact ⟨hd.blockNo, hd.valid, hd.reboots⟩
  | written => exact ⟨hd.blockNo, hd.valid, hd.reboots⟩
  | told => exact ⟨hd.blockNo, hd.valid, hd.reboots⟩
  | credited hphase hawaits hv => exact hd.credited hs hmap huntracked hphase hawaits hv

end stalling

/-! ### Whole deliveries -/

section fresh

variable (img config) (ramBlocks flashBlocks erasedSectors : IndexSet) (memory : Memory)

theorem steady_withMemory : img.Steady erasedSectors.capacity
    (.withMemory config ramBlocks flashBlocks erasedSectors memory) [] := by
  refine ⟨rfl, rfl, rfl, fun hn => absurd rfl hn, Upload.sound_onSets _ _ _, ?_, ?_, ?_⟩
  · intro job h
    cases h
  · intro origin job h
    cases h
  · intro job h
    cases h

theorem faithful_withMemory : img.Faithful erasedSectors.capacity
    (.withMemory config ramBlocks flashBlocks erasedSectors memory) := by
  refine ⟨fun hn => absurd rfl hn, ?_, ?_, ?_, fun hn => absurd rfl hn, ?_, ?_⟩
  · intro job h
    cases h
  · intro origin job h
    cases h
  · intro job h
    cases h
  · intro job other h
    cases h
  · intro request m h
    cases h

theorem stalled_withMemory : img.Stalled erasedSectors.capacity
    (.withMemory config ramBlocks flashBlocks erasedSectors memory) :=
  ⟨fun hn => absurd rfl hn, fun hn => absurd rfl hn, rfl⟩

variable {img config}

/-- Every delivery comes to an end. If the tokens of its jobs are distinct, the
    image is in memory at each reboot. -/
theorem run_boots {moves : List Move} (hmap : config.map.WellFormed)
    (hmoves : ∀ m ∈ moves, m.Delivers (img.sectors config.familyId) config.familyId) :
    ∃ w, (Watched.fresh config ramBlocks flashBlocks erasedSectors
          (MemoryMachine.new memory)).run moves = .ok w
      ∧ (w.journal.tokens.Nodup → ∀ request m, (request, m) ∈ w.device.machine.reboots →
        img.Boots config request m) := by
  let capacity := erasedSectors.capacity
  -- The invariant depends on whether all sectors of the image are tracked.
  obtain ⟨w, hrun, hconfig, -, hfaithful, hstalled⟩ :
      ∃ w, (Watched.fresh config ramBlocks flashBlocks erasedSectors
            (MemoryMachine.new memory)).run moves = .ok w
        ∧ w.device.core.config = config ∧ img.Steady capacity w.device w.journal.tokens
        ∧ (img.Tracked config.map capacity → w.journal.tokens.Nodup →
          img.Faithful capacity w.device)
        ∧ (¬ img.Tracked config.map capacity → img.Stalled capacity w.device) := by
    refine Watched.run_ok moves ⟨rfl, ?_, ?_, ?_⟩ ?_
    · exact steady_withMemory img config ramBlocks flashBlocks erasedSectors memory
    · intro _ _
      exact faithful_withMemory img config ramBlocks flashBlocks erasedSectors memory
    · intro _
      exact stalled_withMemory img config ramBlocks flashBlocks erasedSectors memory
    · rintro m hm v ⟨rfl, hs, hfaithful, hstalled⟩
      obtain ⟨d, es, hstep, hdelivery⟩ := delivers_step hmap hs (hmoves m hm)
      refine ⟨_, hstep, hdelivery.config, ?_, fun htracked hnodup => ?_, fun huntracked => ?_⟩
      · rw [Journal.tokens_append]
        exact hdelivery.steady hs
      · rw [Journal.tokens_append] at hnodup
        exact hdelivery.faithful hmap hs htracked hnodup
          (hfaithful htracked (List.nodup_append.mp hnodup).2.1)
      · exact hdelivery.stalled hmap hs huntracked (hstalled huntracked)
  refine ⟨w, hrun, fun hnodup request m hmem => ?_⟩
  subst hconfig
  -- Without all sectors tracked there was no reboot at all.
  by_cases htracked : img.Tracked w.device.core.config.map capacity
  · exact (hfaithful htracked hnodup).reboots request m hmem
  · rw [(hstalled htracked).reboots] at hmem
    cases hmem

end fresh

end PagedImage

/-! ### A board with flash

  For runs that can be followed step by step: a board with 4 KiB of RAM and 8 KiB of
  flash, and images of two pages.
-/

/-- The board: its memory, its family and what it reboots with. -/
def flashBoard : Config :=
  { map := [⟨.ram, 0x20000000, 0x1000⟩, ⟨.flash, 0x10000000, 0x2000⟩]
    familyId := Header.rp2040Family, rebootDelayMs := 50, ramStack := 0 }

theorem wellFormed_flashBoard : flashBoard.map.WellFormed := by
  constructor
  · exact AddressMap.apart_of_ends (by decide)
  · intro r hr s hs hkind hkind'
    simp only [flashBoard, List.mem_cons, List.not_mem_nil, or_false] at hr hs
    rcases hr with rfl | rfl
    · cases hkind
    · rcases hs with rfl | rfl
      · cases hkind'
      · rfl
  · intro r hr hkind
    simp only [flashBoard, List.mem_cons, List.not_mem_nil, or_false] at hr
    rcases hr with rfl | rfl
    · cases hkind
    · exact ⟨rfl, rfl⟩

/-- An image of two pages, the same byte everywhere. -/
def twoPages (b : UInt8) : Bytes := List.replicate 512 b

namespace Watched

variable {σ : Type} [Machine σ]

/-- A block of an image of two pages. -/
def pageOfTwo (addr blockNo : UInt32) : Block :=
  ⟨Header.page addr blockNo 2 flashBoard.familyId, dataArea (List.replicate 256 0x2A)⟩

/-- The job for that block, if the sectors of the given bits are erased. -/
def jobOfTwo (erased token addr blockNo : UInt32) : Job :=
  ((Upload.onSets (.empty 1) (.empty 1) ⟨#[erased]⟩).pageJob (pageOfTwo addr blockNo) token
    (Upload.flashOf flashBoard.map (pageOfTwo addr blockNo))).forUpload

/-- An upload of that image: which blocks are valid, which sectors are erased, and
    what is waited for. -/
def uploadOfTwo (valid erased count lowestAddr blockNo token : UInt32) : Upload :=
  { ramBlocks := .empty 1, flashBlocks := ⟨#[valid]⟩, erasedSectors := ⟨#[erased]⟩, numBlocks := 2
    validCount := count, lowestAddr, inRam := false, blockNo, token }

/-- The board with flash at some time. -/
def boardOfTwo (upload : Upload) (waiting : Option Job) (phase : Phase)
    (lastWriter : Option Channel) (machine : σ) (journal : Journal) : Watched σ :=
  { device :=
      { core :=
          { config := flashBoard, disk := ⟨waiting, none⟩, control := .empty, upload
            rebooting := false }
        phase, lastWriter, machine }
    journal }

section boardSteps

variable {u v : Upload} {waiting : Option Job} {phase : Phase} {lastWriter : Option Channel}
  {machine : σ} {journal : Journal} {erased token addr blockNo : UInt32}

theorem ofSectorFor?_pageOfTwo :
    Block.ofSectorFor? (pageOfTwo addr blockNo).toSector flashBoard.familyId
      = .ok (pageOfTwo addr blockNo) := by
  have hfor : Block.isFor flashBoard.familyId (pageOfTwo addr blockNo).header = true :=
    Block.isFor_page _ _ _ _
  rw [Block.ofSectorFor?_toSector, if_pos hfor]

/-- A page that belongs to the image is accepted. -/
theorem accepts_pageOfTwo
    (hstay : Upload.turnsAway (pageOfTwo addr blockNo) flashBoard false = false)
    (hjoined : u.joined (pageOfTwo addr blockNo) flashBoard = (v, true))
    (herased : v.erasedSectors = ⟨#[erased]⟩)
    (hram : (Upload.ramOf flashBoard.map (pageOfTwo addr blockNo)).isSome = v.inRam)
    (hno : blockNo < 2)
    (hsector : ∀ region, Upload.flashOf flashBoard.map (pageOfTwo addr blockNo) = some region →
      region.sectorNo addr < 32) :
    Upload.Accepts u (pageOfTwo addr blockNo) token flashBoard false { v with blockNo, token }
      (some (v.pageJob (pageOfTwo addr blockNo) token
        (Upload.flashOf flashBoard.map (pageOfTwo addr blockNo)))) := by
  have hkeep : ¬ Upload.Drops (u.joined (pageOfTwo addr blockNo) flashBoard).1
      (u.joined (pageOfTwo addr blockNo) flashBoard).2 (pageOfTwo addr blockNo) flashBoard := by
    rw [hjoined]
    rintro (h | h | h | h | ⟨region, hregion, hle⟩)
    · cases h
    · exact h hram
    · exact UInt32.not_le.mpr hno h
    · exact absurd h (Nat.not_lt.mpr (List.length_take_le _ _))
    · rw [herased] at hle
      exact UInt32.not_le.mpr (hsector region hregion) hle
  have htaken : Upload.Accepts u (pageOfTwo addr blockNo) token flashBoard false _ _ :=
    .taken hstay hkeep
  rw [hjoined] at htaken
  exact htaken

/-- A page in its flash is taken. -/
theorem boardOfTwo_sector
    (hstay : Upload.turnsAway (pageOfTwo addr blockNo) flashBoard false = false)
    (hjoined : u.joined (pageOfTwo addr blockNo) flashBoard = (v, true))
    (herased : v.erasedSectors = ⟨#[erased]⟩)
    (hram : (Upload.ramOf flashBoard.map (pageOfTwo addr blockNo)).isSome = v.inRam)
    (hno : blockNo < 2)
    (hsector : ∀ region, Upload.flashOf flashBoard.map (pageOfTwo addr blockNo) = some region →
      region.sectorNo addr < 32) :
    (boardOfTwo u waiting phase lastWriter machine journal).step
        (.sector token (pageOfTwo addr blockNo).toSector)
      = .ok (boardOfTwo { v with blockNo, token } (some (jobOfTwo erased token addr blockNo)) phase
          lastWriter machine (.accepted blockNo (jobOfTwo erased token addr blockNo)
            :: (u.startEntry (pageOfTwo addr blockNo) ++ journal))) := by
  have htaken : Upload.Accepts u (pageOfTwo addr blockNo) token flashBoard false _ _ :=
    accepts_pageOfTwo hstay hjoined herased hram hno hsector
  have hjob : (v.pageJob (pageOfTwo addr blockNo) token
      (Upload.flashOf flashBoard.map (pageOfTwo addr blockNo))).forUpload
        = jobOfTwo erased token addr blockNo := by
    unfold jobOfTwo Upload.pageJob Upload.eraseFor
    rw [herased]
    rfl
  have hblock : Block.ofSectorFor? (pageOfTwo addr blockNo).toSector
      (boardOfTwo u waiting phase lastWriter machine journal).device.core.config.familyId
        = .ok (pageOfTwo addr blockNo) := ofSectorFor?_pageOfTwo
  rw [step_block hblock htaken, Upload.entries, if_neg (by rw [Bool.not_eq_true]; exact hstay),
    ← hjob]
  rfl

theorem boardOfTwo_take {job : Job} :
    (boardOfTwo u (some job) .idle lastWriter machine journal).step .take
      = .ok (boardOfTwo u none (.holding .disk job) lastWriter machine journal) := rfl

/-- A page in its flash is programmed. -/
theorem boardOfTwo_carryOut {job : Job} (hjob : job.WritesPage)
    (hplaced : job.Placed flashBoard.map 32) :
    (boardOfTwo u waiting (.holding .disk job) lastWriter machine journal).step .carryOut
      = .ok (boardOfTwo u waiting (.done job.endedWell) (some .disk)
          (Machine.perform machine (job.pageCall flashBoard.map))
          (.carriedOut job.endedWell :: journal)) := by
  have hexecute := (boardOfTwo u waiting (.holding .disk job) lastWriter machine
    journal).device.execute_placed hjob hplaced wellFormed_flashBoard rfl
  exact step_carriedOut rfl rfl hexecute

/-- A job is told of that does not make the image complete. -/
theorem boardOfTwo_finish {job : Job} (hjob : job.listener = some .upload)
    (hcredit : u.credit job flashBoard = .ok (v, none)) :
    (boardOfTwo u waiting (.done job) lastWriter machine journal).step .finish
      = .ok (boardOfTwo v waiting .idle lastWriter
          (Machine.perform machine (.complete job.response)) (.told job :: journal)) :=
  step_told (w := boardOfTwo u waiting (.done job) lastWriter machine journal) rfl hjob hcredit

theorem writesPage_jobOfTwo : (jobOfTwo erased token addr blockNo).WritesPage := by
  have hlength : (pageOfTwo addr blockNo).payload.length = 256 :=
    Block.length_payload ofSectorFor?_pageOfTwo
  exact (Job.writesPage_pageJob hlength).forUpload

theorem placed_jobOfTwo (hram : flashBoard.map.findOf? .ram addr pageSize = none)
    (hflash : flashBoard.map.findOf? .flash addr pageSize = some ⟨.flash, 0x10000000, 0x2000⟩)
    (hsector : Region.sectorNo ⟨.flash, 0x10000000, 0x2000⟩ addr < 32)
    (hpage : addr % pageSize = 0) :
    (jobOfTwo erased token addr blockNo).Placed flashBoard.map 32 := by
  have hflash' : Upload.flashOf flashBoard.map (pageOfTwo addr blockNo)
      = some ⟨.flash, 0x10000000, 0x2000⟩ := hflash
  refine .flash ⟨.flash, 0x10000000, 0x2000⟩ hram hflash hsector ?_ hpage ?_
  · show (Upload.flashOf flashBoard.map (pageOfTwo addr blockNo)).isSome = true
    rw [hflash']
    rfl
  · show (Upload.flashOf flashBoard.map (pageOfTwo addr blockNo)).bind _ = none
      ∨ (Upload.flashOf flashBoard.map (pageOfTwo addr blockNo)).bind _ = _
    rw [hflash', Option.bind_some, Upload.eraseFor]
    split
    · exact .inl rfl
    · exact .inr rfl

end boardSteps

/-- The sectors for an image of two pages. -/
def sectorsOfTwo : List Sector :=
  [(pageOfTwo 0x10000000 0).toSector, (pageOfTwo 0x10000100 1).toSector]

theorem pack_twoPages : ImageFile.pack (twoPages 0x2A) 0x10000000 flashBoard.familyId
    = .ok sectorsOfTwo := by
  have hpieces : pieces pageSize.toNat (twoPages 0x2A)
      = [List.replicate 256 0x2A, List.replicate 256 0x2A] := by
    have hsplit : twoPages 0x2A = List.replicate 256 0x2A ++ (List.replicate 256 0x2A ++ []) := by
      rw [List.append_nil, List.replicate_append_replicate, twoPages]
    have hlength : (List.replicate 256 (0x2A : UInt8)).length = pageSize.toNat :=
      List.length_replicate
    rw [hsplit, pieces_append hlength (by decide), pieces_append hlength (by decide), pieces]
  have hfill : ImageFile.fillPage (List.replicate 256 0x2A) = List.replicate 256 0x2A := by
    rw [ImageFile.fillPage, List.length_replicate]
    exact List.append_nil _
  have hlength : (twoPages 0x2A).length = 512 := List.length_replicate
  have hempty : (twoPages 0x2A).isEmpty = false := rfl
  unfold ImageFile.pack
  rw [hempty, hlength, hpieces, if_neg (by decide), if_neg (by decide), if_neg (by decide)]
  show ([(List.replicate 256 0x2A, 0), (List.replicate 256 0x2A, 1)].mapM
    (ImageFile.pageSector 0x10000000 flashBoard.familyId 2)).mapError _ = _
  rw [List.mapM_cons, List.mapM_cons, ImageFile.pageSector, ImageFile.pageSector, hfill]
  rfl

theorem blockToken?_pageOfTwo (token addr blockNo : UInt32) :
    (Move.sector token (pageOfTwo addr blockNo).toSector).blockToken? flashBoard.familyId
      = some token := Move.blockToken?_of_block ofSectorFor?_pageOfTwo

/-- The pages of the image come in the wrong order. The job for the second page is
    overtaken by the one for the first page, so the second page comes once more. -/
def overtakenMoves : List Move :=
  [.sector 1 (pageOfTwo 0x10000100 1).toSector, .take,
    .sector 2 (pageOfTwo 0x10000000 0).toSector, .carryOut, .finish, .take, .carryOut, .finish,
    .sector 3 (pageOfTwo 0x10000100 1).toSector, .take, .carryOut, .finish]

theorem tokens_overtakenMoves :
    overtakenMoves.filterMap (Move.blockToken? flashBoard.familyId) = [1, 2, 3] := by
  unfold overtakenMoves
  rw [List.filterMap_cons_some (blockToken?_pageOfTwo 1 _ _), List.filterMap_cons_none rfl,
    List.filterMap_cons_some (blockToken?_pageOfTwo 2 _ _), List.filterMap_cons_none rfl,
    List.filterMap_cons_none rfl, List.filterMap_cons_none rfl, List.filterMap_cons_none rfl,
    List.filterMap_cons_none rfl, List.filterMap_cons_some (blockToken?_pageOfTwo 3 _ _)]
  rfl

theorem delivers_overtakenMoves : ∀ m ∈ overtakenMoves,
    m.Delivers sectorsOfTwo flashBoard.familyId := by
  intro m hm
  simp only [overtakenMoves, List.mem_cons, List.not_mem_nil, or_false] at hm
  rcases hm with rfl | rfl | rfl | rfl | rfl | rfl | rfl | rfl | rfl | rfl | rfl | rfl
  all_goals constructor
  all_goals simp [sectorsOfTwo]

/-- The run asks for a reboot, once. -/
theorem run_overtakenMoves : ∃ w, ∃ m : Memory,
    (fresh flashBoard (.empty 1) (.empty 1) (.empty 1) (MemoryMachine.new default)).run
        overtakenMoves = .ok w
      ∧ w.device.machine.reboots = [(⟨0, 0, 50⟩, m)] := by
  let early := jobOfTwo 0 1 0x10000100 1
  let first := jobOfTwo 0 2 0x10000000 0
  let last := jobOfTwo 1 3 0x10000100 1
  let u₁ := uploadOfTwo 0 0 0 0xFFFFFFFF 1 1
  let u₂ := uploadOfTwo 0 0 0 0xFFFFFFFF 0 2
  let u₃ := uploadOfTwo 1 1 1 0x10000000 0 2
  let u₄ := uploadOfTwo 1 1 1 0x10000000 1 3
  let u₅ := uploadOfTwo 3 1 2 0x10000000 1 3
  have hsector₁ : (fresh flashBoard (.empty 1) (.empty 1) (.empty 1)
      (MemoryMachine.new default)).step (.sector 1 (pageOfTwo 0x10000100 1).toSector)
        = .ok (boardOfTwo u₁ (some early) .idle none (MemoryMachine.new default)
          [.accepted 1 early, .started]) :=
    boardOfTwo_sector (v := uploadOfTwo 0 0 0 0xFFFFFFFF 0 0) (by decide) (by decide) rfl
      (by decide) (by decide) (by decide)
  have hsector₂ : ∀ phase (machine : MemoryMachine) journal,
      (boardOfTwo u₁ none phase none machine journal).step
        (.sector 2 (pageOfTwo 0x10000000 0).toSector)
        = .ok (boardOfTwo u₂ (some first) phase none machine (.accepted 0 first :: journal)) :=
    fun _ _ _ => boardOfTwo_sector (v := u₁) (by decide) (by decide) rfl (by decide) (by decide)
      (by decide)
  have hsector₃ : ∀ (machine : MemoryMachine) journal,
      (boardOfTwo u₃ none .idle (some .disk) machine journal).step
        (.sector 3 (pageOfTwo 0x10000100 1).toSector)
        = .ok (boardOfTwo u₄ (some last) .idle (some .disk) machine
          (.accepted 1 last :: journal)) :=
    fun _ _ => boardOfTwo_sector (v := u₃) (by decide) (by decide) rfl (by decide) (by decide)
      (by decide)
  have hplaced : ∀ erased token, (jobOfTwo erased token 0x10000100 1).Placed flashBoard.map 32 :=
    fun _ _ => placed_jobOfTwo (by decide) (by decide) (by decide) (by decide)
  have hplaced₂ : first.Placed flashBoard.map 32 :=
    placed_jobOfTwo (by decide) (by decide) (by decide) (by decide)
  -- The job for the second page counts for nothing the first time, and completes the image then.
  have hcredit₁ : u₂.credit early.endedWell flashBoard = .ok (u₂, none) := by decide
  have hcredit₂ : u₂.credit first.endedWell flashBoard = .ok (u₃, none) := by decide
  have hcredit₃ : u₄.credit last.endedWell flashBoard = .ok (u₅, some ⟨0, 0, 50⟩) := by decide
  have hrun : (fresh flashBoard (.empty 1) (.empty 1) (.empty 1)
      (MemoryMachine.new default)).run overtakenMoves = .ok _ :=
    (run_cons _ _ _ _ hsector₁).trans <| (run_cons _ _ _ _ boardOfTwo_take).trans <|
    (run_cons _ _ _ _ (hsector₂ _ _ _)).trans <|
    (run_cons _ _ _ _ (boardOfTwo_carryOut writesPage_jobOfTwo (hplaced 0 1))).trans <|
    (run_cons _ _ _ _ (boardOfTwo_finish rfl hcredit₁)).trans <|
    (run_cons _ _ _ _ boardOfTwo_take).trans <|
    (run_cons _ _ _ _ (boardOfTwo_carryOut writesPage_jobOfTwo hplaced₂)).trans <|
    (run_cons _ _ _ _ (boardOfTwo_finish rfl hcredit₂)).trans <|
    (run_cons _ _ _ _ (hsector₃ _ _)).trans <| (run_cons _ _ _ _ boardOfTwo_take).trans <|
    (run_cons _ _ _ _ (boardOfTwo_carryOut writesPage_jobOfTwo (hplaced 1 3))).trans <|
    run_cons _ _ _ _ (step_told rfl rfl hcredit₃)
  exact ⟨_, _, hrun, rfl⟩

end Watched

/-! ### The image that is booted -/

/-- All of `n` pages from `base` on lie in memory of one kind. -/
def AddressMap.HasPages (map : AddressMap) (kind : RegionKind) (base : UInt32) (n : Nat) : Prop :=
  ∀ k < n, (map.findOf? kind (base + UInt32.ofNat k * pageSize) pageSize).isSome = true

/-- A device reboots only when the image whose sectors it was sent is in memory,
    and then into that image. -/
theorem Watched.boots_into_image {image : Bytes} {base : UInt32} {sectors : List Sector}
    (config : Config) (ramBlocks flashBlocks erasedSectors : IndexSet) (memory : Memory)
    (moves : List Move) (hmap : config.map.WellFormed)
    (hpack : ImageFile.pack image base config.familyId = .ok sectors)
    (hmoves : ∀ m ∈ moves, m.Delivers sectors config.familyId)
    (hdistinct : (moves.filterMap (Move.blockToken? config.familyId)).Nodup) :
    ∃ w, (fresh config ramBlocks flashBlocks erasedSectors
          (MemoryMachine.new memory)).run moves = .ok w
      ∧ ∀ request m, (request, m) ∈ w.device.machine.reboots →
        m.load base (256 * sectors.length) = ImageFile.padded image
          ∧ (config.map.HasPages .ram base sectors.length
              ∧ request = ⟨base, config.ramStack, config.rebootDelayMs⟩
            ∨ config.map.HasPages .flash base sectors.length
              ∧ request = ⟨0, 0, config.rebootDelayMs⟩) := by
  obtain ⟨img, rfl, hbytes, rfl⟩ := ImageFile.pack_eq_ok hpack
  obtain ⟨w, hrun, hboots⟩ :=
    PagedImage.run_boots ramBlocks flashBlocks erasedSectors memory hmap hmoves
  -- The tokens of the jobs are among those of the blocks, so they are distinct as well.
  have hnodup : w.journal.tokens.Nodup := by
    have hsublist := tokens_run (Upload.sound_onSets _ _ _) hrun
    simp only [fresh, Journal.tokens_nil, List.append_nil] at hsublist
    exact hsublist.nodup (List.nodup_reverse.mpr hdistinct)
  refine ⟨w, hrun, fun request m hmem => ?_⟩
  have hboot := hboots hnodup request m hmem
  rw [PagedImage.length_sectors, img.load_eq_bytes hboot.holds, hbytes]
  refine ⟨rfl, ?_⟩
  rcases hboot.request with ⟨hram, hrequest⟩ | ⟨hflash, hrequest⟩
  · exact .inl ⟨fun k hk => hram _ (PagedImage.ofNat_lt hk), hrequest⟩
  · exact .inr ⟨fun k hk => hflash _ (PagedImage.ofNat_lt hk), hrequest⟩

/-- The run with the overtaken job asks for one reboot, and the image is in flash then. -/
theorem boots_into_twoPages :
    flashBoard.map.WellFormed
      ∧ ImageFile.pack (twoPages 0x2A) 0x10000000 flashBoard.familyId
        = .ok Watched.sectorsOfTwo
      ∧ (∀ m ∈ Watched.overtakenMoves, m.Delivers Watched.sectorsOfTwo flashBoard.familyId)
      ∧ (Watched.overtakenMoves.filterMap (Move.blockToken? flashBoard.familyId)).Nodup
      ∧ ∃ w m, (Watched.fresh flashBoard (.empty 1) (.empty 1) (.empty 1)
          (MemoryMachine.new default)).run Watched.overtakenMoves = .ok w
        ∧ w.device.machine.reboots = [(⟨0, 0, 50⟩, m)]
        ∧ m.load 0x10000000 512 = ImageFile.padded (twoPages 0x2A)
        ∧ flashBoard.map.HasPages .flash 0x10000000 2 := by
  have hdistinct : (Watched.overtakenMoves.filterMap
      (Move.blockToken? flashBoard.familyId)).Nodup := by
    rw [Watched.tokens_overtakenMoves]
    decide
  obtain ⟨w, hrun, hboots⟩ := Watched.boots_into_image flashBoard (.empty 1) (.empty 1) (.empty 1)
    default Watched.overtakenMoves wellFormed_flashBoard Watched.pack_twoPages
    Watched.delivers_overtakenMoves hdistinct
  obtain ⟨w', m, hrun', hreboots⟩ := Watched.run_overtakenMoves
  cases hrun.symm.trans hrun'
  obtain ⟨hload, hkind⟩ := hboots ⟨0, 0, 50⟩ m (by simp [hreboots])
  refine ⟨wellFormed_flashBoard, Watched.pack_twoPages, Watched.delivers_overtakenMoves, hdistinct,
    w, m, hrun, hreboots, hload, ?_⟩
  rcases hkind with ⟨-, hram⟩ | ⟨hpages, -⟩
  · exact absurd hram (by decide)
  · exact hpages

end Reflash
