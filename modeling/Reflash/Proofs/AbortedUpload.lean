import Reflash.Proofs.CompletedImage
/-! # An upload after one that was not finished

  A host sends the first sectors of one flash image, and then all sectors of
  another one for the same place. The device deals with each sector before the
  next one comes, and it reboots with the last sector of the second image.

  What flash holds then depends on how a device tells the images apart, which is
  by their numbers of pages alone. If these differ, the second image starts an
  upload of its own: all of its sectors are erased again, and flash holds the
  second image. If they are the same, the second image goes on with the upload of
  the first one. The pages that the first one sent are programmed over without
  being erased, and keep only the bits that both images have.
-/

namespace Reflash

/-! ### One sector after the other -/

namespace Device

variable {σ : Type} [Machine σ]

/-- A sector is written to the disk, and the worker deals with the job that comes
    of it. -/
def deliver (d : Device σ) (delivery : UInt32 × Sector) : Except Fault (Device σ) := do
  let (core, _) ← d.core.writeSector delivery.1 delivery.2
  let (d, _) ← { d with core }.poll
  return d

/-- A sector is delivered when it was written and the worker has dealt with the job. -/
theorem deliver_eq {d d' : Device σ} {token : UInt32} {sector : Sector} {core : Core}
    {queued busy : Bool} (hwrite : d.core.writeSector token sector = .ok (core, queued))
    (hpoll : { d with core }.poll = .ok (d', busy)) : d.deliver (token, sector) = .ok d' := by
  simp only [deliver, hwrite, hpoll, bind, Except.bind, pure, Except.pure]

/-- Sectors are delivered one after the other. -/
def deliverAll (d : Device σ) (deliveries : List (UInt32 × Sector)) : Except Fault (Device σ) :=
  deliveries.foldlM deliver d

theorem deliverAll_append {d d' : Device σ} {earlier : List (UInt32 × Sector)}
    (h : d.deliverAll earlier = .ok d') (later : List (UInt32 × Sector)) :
    d.deliverAll (earlier ++ later) = d'.deliverAll later := by
  unfold deliverAll
  rw [List.foldlM_append, show earlier.foldlM deliver d = .ok d' from h]
  rfl

theorem deliverAll_snoc {d d' d'' : Device σ} {earlier : List (UInt32 × Sector)}
    {delivery : UInt32 × Sector} (h : d.deliverAll earlier = .ok d')
    (hlast : d'.deliver delivery = .ok d'') : d.deliverAll (earlier ++ [delivery]) = .ok d'' := by
  rw [deliverAll_append h, deliverAll, List.foldlM_cons, hlast]
  rfl

end Device

namespace PagedImage

variable {img : PagedImage} {map : AddressMap} {capacity room : UInt32}
  {d : Device MemoryMachine} {i token : UInt32}

/-- A device that waits for the next sector. -/
structure Quiet (capacity room : UInt32) (d : Device MemoryMachine) : Prop where
  phase : d.phase = .idle
  disk : d.core.disk = .empty
  due : d.core.rebooting = false
  reboots : d.machine.reboots = []
  sound : d.core.upload.Sound
  erasedSectors : d.core.upload.erasedSectors.capacity = capacity
  flashBlocks : d.core.upload.flashBlocks.capacity = room

section delivering

variable (img d i token)

/-- The device after a page was taken, with an idle worker. -/
def afterTaking : Device MemoryMachine :=
  { d with core := { d.core with
      upload := img.taken d i token, disk := ⟨some (img.jobFor d i token), none⟩ } }

/-- The device while the worker holds the job for the page. -/
def whileHolding : Device MemoryMachine :=
  { d with
    core := { d.core with upload := img.taken d i token, disk := .empty }
    phase := .holding .disk (img.jobFor d i token) }

/-- The job for the page once it ended well. -/
def jobDone : Job := { img.jobFor d i token with result := some .ok }

/-- Memory once the job for the page was carried out. -/
def memoryAfter : Memory :=
  img.written d.core.config.map d.machine.memory i (img.jobFor d i token)

/-- The device after the job was carried out. -/
def afterWriting : Device MemoryMachine :=
  { d with
    core := { d.core with upload := img.taken d i token, disk := .empty }
    phase := .done (img.jobDone d i token)
    lastWriter := some .disk
    machine := { d.machine with memory := img.memoryAfter d i token } }

/-- The device after the job was told of. -/
def afterCredit (v : Upload) (request : Option RebootRequest) : Device MemoryMachine :=
  { d with
    core := { d.core with upload := v, disk := .empty, rebooting := request.isSome }
    phase := .idle
    lastWriter := some .disk
    machine :=
      { memory := img.memoryAfter d i token
        reboots := (request.map fun r => (r, img.memoryAfter d i token)).toList } }

variable {img d i token}

theorem writeSector_page (hq : Quiet capacity room d)
    (hstay : Upload.turnsAway (img.block d.core.config.familyId i) d.core.config false = false)
    (hkeep : ¬ img.Drops d i) :
    d.core.writeSector token (img.sector d.core.config.familyId i)
      = .ok ((img.afterTaking d i token).core, true) := by
  have hfence : d.core.disk.isFenced = false := by rw [hq.disk]; rfl
  have haccepts : d.core.upload.Accepts (img.block d.core.config.familyId i) token d.core.config
      false _ _ := .taken hstay hkeep
  have haccept := haccepts.accept_eq
  rw [← hfence] at haccept
  rw [Core.writeSector_of_block (img.ofSectorFor?_sector _ i) haccept haccepts.result,
    Core.afterBlock, hq.disk]
  rfl

theorem takeJob_afterTaking (hq : Quiet capacity room d) :
    (img.afterTaking d i token).takeJob = img.whileHolding d i token := by
  rw [Device.takeJob_of_disk (d := img.afterTaking d i token) hq.phase rfl]
  rfl

theorem carryOut_whileHolding (hmap : d.core.config.map.WellFormed) (hq : Quiet capacity room d)
    (hjob : img.IsJob d.core.config.map i capacity (img.jobFor d i token)) :
    (img.whileHolding d i token).carryOut = img.afterWriting d i token := by
  have hexecute := execute_isJob (img.whileHolding d i token) hmap hjob hq.due
  rw [Device.carryOut_of_open (d := img.whileHolding d i token) rfl rfl, Device.doneJob, hexecute]
  rfl

theorem finish_afterWriting {v : Upload} {request : Option RebootRequest}
    (hq : Quiet capacity room d)
    (hjob : img.IsJob d.core.config.map i capacity (img.jobFor d i token))
    (hcredit : (img.taken d i token).credit (img.jobDone d i token) d.core.config
      = .ok (v, request)) :
    (img.afterWriting d i token).finish = .ok (img.afterCredit d i token v request) := by
  have hphase : (img.afterWriting d i token).phase = .done (img.jobDone d i token) := rfl
  have hlistener : (img.jobDone d i token).listener = some .upload := hjob.listener
  have hcredit' : (img.afterWriting d i token).core.upload.credit (img.jobDone d i token)
      (img.afterWriting d i token).core.config = .ok (v, request) := hcredit
  rw [Device.finish_of_credit hphase hlistener hcredit']
  cases request <;> simp [Machine.perform, afterWriting, afterCredit, hq.due, hq.reboots]

/-- What a page that is taken makes of a device by the time that its job was told
    of. -/
theorem deliver_page (hmap : d.core.config.map.WellFormed) (hq : Quiet capacity room d)
    (hi : i < img.numBlocks)
    (hstay : Upload.turnsAway (img.block d.core.config.familyId i) d.core.config false = false)
    (hkeep : ¬ img.Drops d i) (token : UInt32) :
    ∃ v request, (img.taken d i token).Credits (img.jobDone d i token) d.core.config v request
      ∧ d.deliver (token, img.sector d.core.config.familyId i)
        = .ok (img.afterCredit d i token v request) := by
  have hjob := isJob_jobFor hmap hi hstay hkeep token
  rw [hq.erasedSectors] at hjob
  have haccepts : d.core.upload.Accepts (img.block d.core.config.familyId i) token d.core.config
      false (img.taken d i token) _ := .taken hstay hkeep
  have hsound : (img.taken d i token).Sound := haccepts.sound hq.sound
  -- The upload waits for the job that was just accepted, so the job is credited.
  have hawaits : (img.taken d i token).awaits (img.jobDone d i token) = true := by
    have hn : (img.taken d i token).numBlocks = img.numBlocks :=
      Upload.numBlocks_joined (Upload.fits_of_not_drops hkeep)
    unfold Upload.awaits
    rw [hn]
    simp [numBlocks_ne_zero, taken, jobDone, jobFor, Job.forUpload, Upload.pageJob, Job.idle]
  obtain ⟨v, request, hcredit, hv⟩ := Upload.credit_credits d.core.config hsound hawaits
  refine ⟨v, request, hv, ?_⟩
  -- The worker takes the job, carries it out and tells of it in one go.
  have hpoll : (img.afterTaking d i token).poll
      = .ok (img.afterCredit d i token v request, true) := by
    rw [Device.poll, takeJob_afterTaking hq]
    show (do return (← (img.whileHolding d i token).carryOut.finish, true)) = _
    rw [carryOut_whileHolding hmap hq hjob, finish_afterWriting hq hjob hcredit]
    rfl
  exact Device.deliver_eq (writeSector_page hq hstay hkeep) hpoll

end delivering

/-! ### Pages of flash, in order -/

section filling

variable (img map) (count : Nat)

/-- All pages of an image lie in flash, in sectors that are tracked. -/
def InFlash (capacity : UInt32) : Prop :=
  ∀ i < img.numBlocks, (img.flash? map i).isSome = true ∧ img.sectorNo map i < capacity

/-- One of the first pages lies in the same sector. -/
def Touched (i : UInt32) : Prop :=
  ∃ j < img.numBlocks, j.toNat < count ∧ img.sectorNo map j = img.sectorNo map i

/-- The first pages hold something, and what is behind them in their sectors is
    erased. -/
structure Filled (c : UInt32 → UInt8) (m : Memory) : Prop where
  content : ∀ i < img.numBlocks, i.toNat < count → ∀ a, img.InPage i a → m.byte a = c a
  blank : ∀ i < img.numBlocks, ∀ j < img.numBlocks, i.toNat < count → count ≤ j.toNat →
    img.sectorNo map i = img.sectorNo map j → ∀ a, img.InPage j a → m.byte a = 0xFF

variable {img map count} {j a : UInt32} {job : Job} {m : Memory} {c c' : UInt32 → UInt8}

/-- What a job for a page of flash leaves in the pages of the image. -/
theorem byte_written_page (hmap : map.WellFormed) (hflash : img.InFlash map capacity)
    (hjob : img.IsJob map i capacity job) (hj : j < img.numBlocks) (ha : img.InPage j a) :
    ∃ old, (img.written map m i job).byte a = (if j = i then old &&& img.want a else old)
      ∧ old = if job.erase.isSome = true ∧ img.sectorNo map j = img.sectorNo map i then 0xFF
        else m.byte a := by
  have hram : img.inRam map i = false := inRam_of_flash hmap (hflash i hjob.lt).1
  obtain ⟨region, hregion⟩ := Option.isSome_iff_exists.mp (hflash i hjob.lt).1
  obtain ⟨region', hregion'⟩ := Option.isSome_iff_exists.mp (hflash j hj).1
  have hsector : a.toNat / 4096 = (img.addr i).toNat / 4096 ↔
      img.sectorNo map j = img.sectorNo map i := by
    rw [sectorNo_eq_iff hmap hregion' hregion, ha.sector_eq hj]
  have hpage : img.InPage i a ↔ j = i := by
    constructor
    · exact fun hin => ha.eq hj hjob.lt hin
    · rintro rfl
      exact ha
  obtain ⟨old, hbyte, hold⟩ := byte_written_flash (m := m) hmap hjob hram a
  refine ⟨old, ?_, ?_⟩
  · rw [hbyte]
    simp only [hpage]
  · rw [hsector] at hold
    rcases hold with ⟨hsome, hsame, rfl⟩ | ⟨hno, rfl⟩
    · rw [if_pos ⟨hsome, hsame⟩]
    · rw [if_neg hno]

/-- Writing the next page, or one of the first pages again, fills one page more or
    programs over one. -/
theorem Filled.written (h : img.Filled map count c m) (hmap : map.WellFormed)
    (hflash : img.InFlash map capacity) (hjob : img.IsJob map i capacity job)
    (hle : i.toNat ≤ count) (herase : job.erase = none ↔ img.Touched map count i)
    (hnew : ∀ a, img.InPage i a →
      c' a = if i.toNat < count then c a &&& img.want a else img.want a)
    (hold : ∀ a, ¬ img.InPage i a → c' a = c a) :
    img.Filled map (max count (i.toNat + 1)) c' (img.written map m i job) := by
  -- A sector that one of the first pages lies in is not erased.
  have hkept : ∀ j < img.numBlocks, j.toNat < count →
      ¬ (job.erase.isSome = true ∧ img.sectorNo map j = img.sectorNo map i) := by
    rintro j hj hlt ⟨hsome, hsame⟩
    rw [herase.mpr ⟨j, hj, hlt, hsame⟩] at hsome
    cases hsome
  constructor
  · intro j hj hlt a ha
    obtain ⟨old, hbyte, hvalue⟩ := byte_written_page (m := m) hmap hflash hjob hj ha
    rw [hbyte]
    by_cases hji : j = i
    · subst hji
      -- The page itself: it is programmed over, or new.
      rw [if_pos rfl, hnew a ha]
      by_cases hcount : j.toNat < count
      · rw [if_pos hcount, hvalue, if_neg (hkept j hj hcount), h.content j hj hcount a ha]
      · -- The page is new, so it was erased before or is erased now.
        have hblank : old = 0xFF := by
          cases hcase : job.erase with
          | some range => rw [hvalue, if_pos ⟨by rw [hcase]; rfl, rfl⟩]
          | none =>
            obtain ⟨k, hk, hklt, hsame⟩ := herase.mp hcase
            rw [hvalue, if_neg (by simp [hcase])]
            exact h.blank k hk j hj hklt (Nat.not_lt.mp hcount) hsame a ha
        rw [if_neg hcount, hblank, erased_and]
    · have hne : j.toNat ≠ i.toNat := fun heq => hji (UInt32.toNat_inj.mp heq)
      have hcount : j.toNat < count := by omega
      rw [if_neg hji, hvalue, if_neg (hkept j hj hcount), h.content j hj hcount a ha,
        hold a fun hin => hji (ha.eq hj hjob.lt hin)]
  · intro k hk j hj hklt hjle hsame a ha
    obtain ⟨old, hbyte, hvalue⟩ := byte_written_page (m := m) hmap hflash hjob hj ha
    have hji : j ≠ i := by
      rintro rfl
      omega
    rw [hbyte, if_neg hji, hvalue]
    split
    · rfl
    · rename_i hno
      by_cases hcount : k.toNat < count
      · exact h.blank k hk j hj hcount (by omega) hsame a ha
      · -- Page `k` is the new one, and it was not erased for it.
        have hki : k = i := by
          apply UInt32.toNat_inj.mp
          omega
        subst hki
        have hnone : job.erase = none := by
          rw [← Option.not_isSome_iff_eq_none]
          exact fun hsome => hno ⟨hsome, hsame.symm⟩
        obtain ⟨l, hl, hllt, hlsame⟩ := herase.mp hnone
        exact h.blank l hl j hj hllt (by omega) (hlsame.trans hsame) a ha

end filling

section progress

variable (img d) in
/-- The upload that a page of flash goes to, and whether the image fits. -/
def upload : Upload × Bool := d.core.upload.continueOrStart false img.numBlocks

/-- The first pages of an image were written, in an upload that goes on with it or
    that the next page starts. -/
structure Progressed (img : PagedImage) (capacity room : UInt32) (count : Nat)
    (c : UInt32 → UInt8) (d : Device MemoryMachine) : Prop where
  quiet : Quiet capacity room d
  fits : (img.upload d).2 = true
  inRam : (img.upload d).1.inRam = false
  valid : ∀ i < img.numBlocks, ((img.upload d).1.isBlockValid i = true ↔ i.toNat < count)
  erased : ∀ i < img.numBlocks,
    ((img.upload d).1.erasedSectors.contains (img.sectorNo d.core.config.map i) = true ↔
      img.Touched d.core.config.map count i)
  filled : img.Filled d.core.config.map count c d.machine.memory

variable {count : Nat} {c c' : UInt32 → UInt8} {v : Upload} {request : Option RebootRequest}

/-- All pages of an image in flash go to the same upload. -/
theorem joined_eq_upload (hmap : d.core.config.map.WellFormed)
    (hflash : img.InFlash d.core.config.map capacity) (hi : i < img.numBlocks) :
    img.joined d i = img.upload d := by
  have hram : img.inRam d.core.config.map i = false := inRam_of_flash hmap (hflash i hi).1
  have hnone : (Upload.ramOf d.core.config.map
      (img.block d.core.config.familyId i)).isSome = false := hram
  unfold joined
  rw [Upload.joined, hnone]
  rfl

theorem upload_started (hn : d.core.upload.numBlocks ≠ img.numBlocks) :
    d.core.upload.Started false img.numBlocks (img.upload d).1 (img.upload d).2 := by
  unfold upload Upload.continueOrStart
  rw [if_neg hn]
  exact Upload.start_started _ _ _

/-- A device whose upload is for another number of pages starts anew. -/
theorem progressed_start (hq : Quiet capacity room d)
    (hn : d.core.upload.numBlocks ≠ img.numBlocks) (hroom : img.numBlocks ≤ room)
    (c : UInt32 → UInt8) : img.Progressed capacity room 0 c d := by
  have hstart := upload_started hn
  refine ⟨hq, ?_, hstart.inRam, ?_, ?_, ⟨?_, ?_⟩⟩
  · rw [hstart.room, hstart.capacity, decide_eq_true_eq]
    exact hq.flashBlocks ▸ hroom
  · intro i _
    simp [hstart.valid]
  · intro i _
    rw [hstart.erasedSectors, IndexSet.contains_clear]
    refine ⟨nofun, ?_⟩
    rintro ⟨j, -, hlt, -⟩
    exact absurd hlt (Nat.not_lt_zero _)
  · intro i _ hlt
    exact absurd hlt (Nat.not_lt_zero _)
  · intro i _ j _ hlt
    exact absurd hlt (Nat.not_lt_zero _)

theorem not_turnsAway (hflash : img.InFlash d.core.config.map capacity) (hi : i < img.numBlocks) :
    Upload.turnsAway (img.block d.core.config.familyId i) d.core.config false = false := by
  have hsome : (Upload.flashOf d.core.config.map
      (img.block d.core.config.familyId i)).isSome = true := (hflash i hi).1
  have hnone : (Upload.flashOf d.core.config.map
      (img.block d.core.config.familyId i)).isNone = false := by
    rw [← Option.not_isSome, hsome]
    rfl
  have hn : (img.block d.core.config.familyId i).header.numBlocks ≠ 0 := img.numBlocks_ne_zero
  have haddr : (img.block d.core.config.familyId i).header.targetAddr % pageSize = 0 :=
    addr_mod_pageSize hi
  simp [Upload.turnsAway, hn, hnone, haddr]

theorem Progressed.not_drops (h : img.Progressed capacity room count c d)
    (hmap : d.core.config.map.WellFormed) (hflash : img.InFlash d.core.config.map capacity)
    (hi : i < img.numBlocks) : ¬ img.Drops d i := by
  rintro (hfits | hkind | hno | hlong | ⟨region, hregion, hle⟩)
  · rw [joined_eq_upload hmap hflash hi, h.fits] at hfits
    cases hfits
  · rw [joined_eq_upload hmap hflash hi, h.inRam] at hkind
    exact hkind (inRam_of_flash hmap (hflash i hi).1)
  · exact UInt32.not_lt.mpr hno hi
  · rw [payload_block hi, length_page hi] at hlong
    exact absurd hlong (Nat.lt_irrefl 256)
  · rw [img.capacity_joined, h.quiet.erasedSectors] at hle
    have hlt := (hflash i hi).2
    rw [sectorNo_of_flash hregion] at hlt
    exact UInt32.not_lt.mpr hle hlt

/-- A page that is new touches its own sector. -/
theorem touched_max {map : AddressMap} {j : UInt32} (hi : i < img.numBlocks)
    (hle : i.toNat ≤ count) :
    img.Touched map (max count (i.toNat + 1)) j ↔
      img.Touched map count j ∨ img.sectorNo map i = img.sectorNo map j := by
  constructor
  · rintro ⟨k, hk, hlt, hsame⟩
    by_cases hcount : k.toNat < count
    · exact .inl ⟨k, hk, hcount, hsame⟩
    · have hki : k = i := by
        apply UInt32.toNat_inj.mp
        omega
      subst hki
      exact .inr hsame
  · rintro (⟨k, hk, hlt, hsame⟩ | hsame)
    · exact ⟨k, hk, by omega, hsame⟩
    · exact ⟨i, hi, by omega, hsame⟩

theorem Progressed.capacity_validBlocks (h : img.Progressed capacity room count c d) :
    (img.upload d).1.validBlocks.capacity = room := by
  by_cases hn : d.core.upload.numBlocks = img.numBlocks
  · have hsame : img.upload d = (d.core.upload, true) := if_pos hn
    have hkind := h.inRam
    rw [hsame] at hkind ⊢
    unfold Upload.validBlocks
    rw [hkind]
    exact h.quiet.flashBlocks
  · rw [(upload_started hn).capacity]
    exact h.quiet.flashBlocks

section crediting

variable (h : img.Progressed capacity room count c d) (hmap : d.core.config.map.WellFormed)
  (hflash : img.InFlash d.core.config.map capacity) (hi : i < img.numBlocks)
  (hle : i.toNat ≤ count)
  (hv : (img.taken d i token).Credits (img.jobDone d i token) d.core.config v request)

include h hmap hflash hi

/-- The job for a page erases its sector unless one of the first pages lies there. -/
theorem Progressed.erase_jobFor_iff (token : UInt32) :
    (img.jobFor d i token).erase = none ↔ img.Touched d.core.config.map count i := by
  obtain ⟨region, hregion⟩ := Option.isSome_iff_exists.mp (hflash i hi).1
  rw [erase_jobFor hregion, joined_eq_upload hmap hflash hi]
  exact h.erased i hi

include hv

theorem Progressed.numBlocks_credit : v.numBlocks = img.numBlocks := by
  have hfits : (img.joined d i).2 = true := by
    rw [joined_eq_upload hmap hflash hi]
    exact h.fits
  rw [hv.numBlocks]
  exact Upload.numBlocks_joined hfits

theorem Progressed.inRam_credit : v.inRam = false := by
  rw [hv.inRam]
  show (img.joined d i).1.inRam = false
  rw [joined_eq_upload hmap hflash hi]
  exact h.inRam

include hle

/-- The first pages are valid, and the one that was written. -/
theorem Progressed.valid_credit {j : UInt32} (hj : j < img.numBlocks) :
    v.isBlockValid j = true ↔ j.toNat < max count (i.toNat + 1) := by
  have hbefore : (img.taken d i token).isBlockValid j = true ↔ j.toNat < count := by
    show (img.joined d i).1.isBlockValid j = true ↔ _
    rw [joined_eq_upload hmap hflash hi]
    exact h.valid j hj
  rw [hv.valid, Bool.or_eq_true, decide_eq_true_eq, hbefore]
  show j.toNat < count ∨ j = i ↔ _
  rw [← UInt32.toNat_inj]
  omega

/-- Their sectors were erased, and no others. -/
theorem Progressed.erased_credit {j : UInt32} (hj : j < img.numBlocks)
    (hjob : img.IsJob d.core.config.map i capacity (img.jobFor d i token)) :
    v.erasedSectors.contains (img.sectorNo d.core.config.map j) = true ↔
      img.Touched d.core.config.map (max count (i.toNat + 1)) j := by
  have hbefore : (img.taken d i token).erasedSectors.contains
      (img.sectorNo d.core.config.map j) = true ↔ img.Touched d.core.config.map count j := by
    show (img.joined d i).1.erasedSectors.contains _ = true ↔ _
    rw [joined_eq_upload hmap hflash hi]
    exact h.erased j hj
  have hcapacity : (img.taken d i token).erasedSectors.capacity = capacity :=
    (img.capacity_joined d i).trans h.quiet.erasedSectors
  have hdone : img.IsJob d.core.config.map i capacity (img.jobDone d i token) :=
    hjob.withResult _
  have hsome : (img.jobDone d i token).erase.isSome = true ↔
      ¬ img.Touched d.core.config.map count i := by
    rw [← h.erase_jobFor_iff hmap hflash hi token, ← Option.not_isSome_iff_eq_none, not_not]
    exact Iff.rfl
  rw [hv.erasedSectors, contains_erasedWith hmap hdone hcapacity, hbefore, touched_max hi hle,
    hsome]
  constructor
  · rintro (hold | ⟨-, hsame⟩)
    · exact .inl hold
    · exact .inr hsame.symm
  · rintro (hold | hsame)
    · exact .inl hold
    · -- The sector is new, or one of the first pages lies there.
      by_cases htouched : img.Touched d.core.config.map count i
      · obtain ⟨k, hk, hlt, hk'⟩ := htouched
        exact .inl ⟨k, hk, hlt, hk'.trans hsame⟩
      · exact .inr ⟨htouched, hsame.symm⟩

/-- The image is complete once the last page was written. -/
theorem Progressed.complete_credit :
    v.validCount = v.numBlocks ↔ img.count ≤ max count (i.toNat + 1) := by
  have hn := h.numBlocks_credit hmap hflash hi hv
  have hn' : v.numBlocks ≠ 0 := hn ▸ img.numBlocks_ne_zero
  have hvalid : ∀ j < img.numBlocks,
      (v.isBlockValid j = true ↔ j.toNat < max count (i.toNat + 1)) :=
    fun j hj => h.valid_credit hmap hflash hi hle hv hj
  rw [(hv.sound hn').validCount_eq_iff, hn]
  constructor
  · intro hall
    -- The last page is valid only if all of them were written.
    have hpos := img.pos
    have hlast : img.count - 1 < img.count := by omega
    have hlt := (hvalid _ (ofNat_lt hlast)).mp (hall _ (ofNat_lt hlast))
    rw [toNat_ofNat hlast] at hlt
    omega
  · intro hmax j hj
    exact (hvalid j hj).mpr (Nat.lt_of_lt_of_le (lt_count hj) hmax)

/-- Before the last page no reboot is asked for. -/
theorem Progressed.request_eq_none (hmore : max count (i.toNat + 1) < img.count) :
    request = none := by
  rw [hv.request]
  apply if_neg
  rintro ⟨-, hlast⟩
  exact Nat.not_le.mpr hmore ((h.complete_credit hmap hflash hi hle hv).mp hlast)

/-- With the last page comes a normal boot from flash. -/
theorem Progressed.request_eq_some (hcount : count < img.count)
    (hlast : max count (i.toNat + 1) = img.count) :
    request = some ⟨0, 0, d.core.config.rebootDelayMs⟩ := by
  have hisNew : (img.taken d i token).isBlockValid (img.taken d i token).blockNo = false := by
    show (img.joined d i).1.isBlockValid i = false
    rw [joined_eq_upload hmap hflash hi, Bool.eq_false_iff]
    intro hvalid
    have hlt := (h.valid i hi).mp hvalid
    omega
  have hcomplete := (h.complete_credit hmap hflash hi hle hv).mpr (Nat.le_of_eq hlast.symm)
  rw [hv.request, if_pos ⟨hisNew, hcomplete⟩]
  unfold Upload.rebootRequest
  rw [h.inRam_credit hmap hflash hi hv]
  rfl

end crediting

/-- The next page of an image is delivered, or one of the first pages again. With
    the last page comes the reboot, and not before. -/
theorem Progressed.deliver (h : img.Progressed capacity room count c d)
    (hmap : d.core.config.map.WellFormed) (hflash : img.InFlash d.core.config.map capacity)
    (hi : i < img.numBlocks) (hle : i.toNat ≤ count) (token : UInt32)
    (hnew : ∀ a, img.InPage i a →
      c' a = if i.toNat < count then c a &&& img.want a else img.want a)
    (hold : ∀ a, ¬ img.InPage i a → c' a = c a) :
    ∃ d', d.deliver (token, img.sector d.core.config.familyId i) = .ok d'
      ∧ d'.core.config = d.core.config ∧ d'.core.upload.numBlocks = img.numBlocks
      ∧ img.Filled d.core.config.map (max count (i.toNat + 1)) c' d'.machine.memory
      ∧ (max count (i.toNat + 1) < img.count →
        img.Progressed capacity room (max count (i.toNat + 1)) c' d')
      ∧ (count < img.count → max count (i.toNat + 1) = img.count →
        d'.machine.reboots
          = [(⟨0, 0, d.core.config.rebootDelayMs⟩, d'.machine.memory)]) := by
  have hstay := not_turnsAway hflash hi
  have hkeep := h.not_drops hmap hflash hi
  have hjob := isJob_jobFor hmap hi hstay hkeep token
  rw [h.quiet.erasedSectors] at hjob
  obtain ⟨v, request, hv, hdeliver⟩ := deliver_page hmap h.quiet hi hstay hkeep token
  have hn := h.numBlocks_credit hmap hflash hi hv
  have hkind := h.inRam_credit hmap hflash hi hv
  -- Memory comes first, since it does not depend on whether this was the last page.
  have hfilled := h.filled.written hmap hflash hjob hle
    (h.erase_jobFor_iff hmap hflash hi token) hnew hold
  refine ⟨_, hdeliver, rfl, hn, hfilled, ?_, ?_⟩
  · intro hmore
    obtain rfl := h.request_eq_none hmap hflash hi hle hv hmore
    -- The upload is for this image from now on, so the next page goes on with it.
    have hupload : img.upload (img.afterCredit d i token v none) = (v, true) := if_pos hn
    have hset : v.validBlocks = v.flashBlocks := by
      unfold Upload.validBlocks
      rw [hkind]
      rfl
    refine ⟨⟨rfl, rfl, rfl, rfl, hv.sound, ?_, ?_⟩, ?_, ?_, ?_, ?_, hfilled⟩
    · show v.erasedSectors.capacity = capacity
      rw [hv.erasedSectors, Upload.capacity_erasedWith]
      exact (img.capacity_joined d i).trans h.quiet.erasedSectors
    · show v.flashBlocks.capacity = room
      rw [← hset, hv.capacity]
      show (img.joined d i).1.validBlocks.capacity = room
      rw [joined_eq_upload hmap hflash hi]
      exact h.capacity_validBlocks
    · rw [hupload]
    · rw [hupload]
      exact hkind
    · rw [hupload]
      exact fun j hj => h.valid_credit hmap hflash hi hle hv hj
    · rw [hupload]
      exact fun j hj => h.erased_credit hmap hflash hi hle hv hj hjob
  · intro hcount hlast
    obtain rfl := h.request_eq_some hmap hflash hi hle hv hcount hlast
    rfl

end progress

/-! ### All pages, one after the other -/

section pages

variable {count n : Nat} {c : UInt32 → UInt8} {deliveries : List (UInt32 × Sector)}

/-- What is at an address once the first `n` pages were written over `count` pages
    that held something else. -/
def overlay (img : PagedImage) (count n : Nat) (c : UInt32 → UInt8) (a : UInt32) : UInt8 :=
  if img.base.toNat ≤ a.toNat ∧ a.toNat < img.base.toNat + 256 * n then
    if a.toNat < img.base.toNat + 256 * count then c a &&& img.want a else img.want a
  else c a

theorem overlay_zero (img : PagedImage) (count : Nat) (c : UInt32 → UInt8) :
    img.overlay count 0 c = c := by
  funext a
  unfold overlay
  rw [if_neg (by omega)]

/-- The next page is written over what is there. -/
theorem overlay_succ_of_inPage {a : UInt32} (hn : n < img.count)
    (ha : img.InPage (UInt32.ofNat n) a) :
    img.overlay count (n + 1) c a =
      if n < max count n then img.overlay count n c a &&& img.want a else img.want a := by
  obtain ⟨hlow, hhigh⟩ := ha
  rw [toNat_addr (ofNat_lt hn), toNat_ofNat hn] at hlow hhigh
  have hbefore : img.overlay count n c a = c a := if_neg (by omega)
  rw [hbefore, overlay, if_pos (by omega)]
  by_cases hcount : n < count
  · rw [if_pos (by omega), if_pos (by omega)]
  · rw [if_neg (by omega), if_neg (by omega)]

theorem overlay_succ_of_not_inPage {a : UInt32} (hn : n < img.count)
    (ha : ¬ img.InPage (UInt32.ofNat n) a) :
    img.overlay count (n + 1) c a = img.overlay count n c a := by
  unfold InPage at ha
  rw [toNat_addr (ofNat_lt hn), toNat_ofNat hn] at ha
  have hsame : (img.base.toNat ≤ a.toNat ∧ a.toNat < img.base.toNat + 256 * (n + 1)) ↔
      (img.base.toNat ≤ a.toNat ∧ a.toNat < img.base.toNat + 256 * n) := by omega
  simp only [overlay, hsame]

theorem take_sectors_succ (img : PagedImage) (familyId : UInt32) (hn : n < img.count) :
    (img.sectors familyId).take (n + 1)
      = (img.sectors familyId).take n ++ [img.sector familyId (UInt32.ofNat n)] := by
  have hget : (img.sectors familyId)[n]? = some (img.sector familyId (UInt32.ofNat n)) := by
    unfold sectors
    rw [List.getElem?_map, List.getElem?_range hn]
    rfl
  rw [List.take_add_one, hget]
  rfl

/-- Page by page, an image goes over what is there. -/
theorem Progressed.deliverAll (h : img.Progressed capacity room count c d)
    (hmap : d.core.config.map.WellFormed) (hflash : img.InFlash d.core.config.map capacity)
    (hsectors : deliveries.map Prod.snd = (img.sectors d.core.config.familyId).take n)
    (hn : max count n < img.count) :
    ∃ d', d.deliverAll deliveries = .ok d' ∧ d'.core.config = d.core.config
      ∧ (d' = d ∨ d'.core.upload.numBlocks = img.numBlocks)
      ∧ img.Progressed capacity room (max count n) (img.overlay count n c) d' := by
  -- By induction on the number of pages, with the last delivery split off.
  induction n generalizing deliveries with
  | zero =>
    rw [List.take_zero, List.map_eq_nil_iff] at hsectors
    subst hsectors
    rw [overlay_zero, Nat.max_eq_left (Nat.zero_le count)]
    exact ⟨d, rfl, rfl, .inl rfl, h⟩
  | succ n ih =>
    have hlt : n < img.count := by omega
    rw [take_sectors_succ img _ hlt, List.map_eq_append_iff] at hsectors
    obtain ⟨earlier, later, rfl, hearlier, hlater⟩ := hsectors
    obtain ⟨⟨token, sector⟩, rfl, hsector⟩ := List.map_eq_singleton_iff.mp hlater
    obtain rfl : sector = img.sector d.core.config.familyId (UInt32.ofNat n) := hsector
    obtain ⟨d₁, hrun, hconfig, -, hd₁⟩ := ih hearlier (by omega)
    have hnat := toNat_ofNat hlt
    rw [← hconfig] at hmap hflash ⊢
    obtain ⟨d', hdeliver, hconfig', hnumBlocks, -, hmore, -⟩ :=
      hd₁.deliver hmap hflash (ofNat_lt hlt) (by omega) token
        (fun a ha => by rw [hnat]; exact overlay_succ_of_inPage hlt ha)
        (fun a ha => overlay_succ_of_not_inPage hlt ha)
    have hmax : max (max count n) ((UInt32.ofNat n).toNat + 1) = max count (n + 1) := by
      rw [hnat]
      omega
    rw [hmax] at hmore
    exact ⟨d', Device.deliverAll_snoc hrun hdeliver, hconfig', .inr hnumBlocks, hmore hn⟩

/-- All pages of an image are delivered. The device reboots with the last one. -/
theorem Progressed.deliverAll_last {last : UInt32 × Sector}
    (h : img.Progressed capacity room count c d)
    (hmap : d.core.config.map.WellFormed) (hflash : img.InFlash d.core.config.map capacity)
    (hsectors : (deliveries ++ [last]).map Prod.snd = img.sectors d.core.config.familyId)
    (hcount : count < img.count) :
    ∃ d₁ d', d.deliverAll deliveries = .ok d₁ ∧ d₁.machine.reboots = []
      ∧ d₁.deliver last = .ok d'
      ∧ d'.machine.reboots = [(⟨0, 0, d.core.config.rebootDelayMs⟩, d'.machine.memory)]
      ∧ ∀ i < img.numBlocks, ∀ a, img.InPage i a →
        d'.machine.memory.byte a = img.overlay count img.count c a := by
  obtain ⟨n, hn⟩ : ∃ n, img.count = n + 1 := ⟨img.count - 1, by have := img.pos; omega⟩
  have hlt : n < img.count := by omega
  have hall : img.sectors d.core.config.familyId
      = (img.sectors d.core.config.familyId).take n
        ++ [img.sector d.core.config.familyId (UInt32.ofNat n)] := by
    rw [← take_sectors_succ img _ hlt, ← hn, List.take_of_length_le (by simp)]
  rw [hall, List.map_append, List.map_singleton] at hsectors
  obtain ⟨hearlier, hlast⟩ := List.append_inj' hsectors rfl
  obtain ⟨token, sector⟩ := last
  obtain rfl : sector = img.sector d.core.config.familyId (UInt32.ofNat n) :=
    List.singleton_inj.mp hlast
  obtain ⟨d₁, hrun, hconfig, -, hd₁⟩ := h.deliverAll hmap hflash hearlier (by omega)
  have hnat := toNat_ofNat hlt
  rw [← hconfig] at hmap hflash ⊢
  obtain ⟨d', hdeliver, -, -, hfilled, -, hreboot⟩ :=
    hd₁.deliver hmap hflash (ofNat_lt hlt) (by omega) token
      (fun a ha => by rw [hnat]; exact overlay_succ_of_inPage hlt ha)
      (fun a ha => overlay_succ_of_not_inPage hlt ha)
  refine ⟨d₁, d', hrun, hd₁.quiet.reboots, hdeliver, hreboot (by omega) (by omega), ?_⟩
  intro i hi a ha
  have hlti := lt_count hi
  rw [hfilled.content i hi (by omega) a ha, hn]

end pages

/-! ### One image after another -/

/-- What was written of an image counts for another one that has as many pages and
    goes to the same place. -/
theorem Progressed.congr {old : PagedImage} {count : Nat} {c : UInt32 → UInt8}
    (h : old.Progressed capacity room count c d) (hbase : old.base = img.base)
    (hcount : old.count = img.count) : img.Progressed capacity room count c d := by
  -- What counts of an image is where it lies and how long it is; its bytes are in `c`.
  obtain ⟨base, bytes, n, _, _, _, _⟩ := old
  obtain ⟨base', bytes', n', _, _, _, _⟩ := img
  obtain rfl : base = base' := hbase
  obtain rfl : n = n' := hcount
  exact ⟨h.quiet, h.fits, h.inRam, h.valid, h.erased, h.filled.content, h.filled.blank⟩

end PagedImage

/-- The bytes of an image of which the first `k` pages were programmed over those of
    another one: there, only the bits are set that both of them have. -/
def ImageFile.programmedOver (k : Nat) (old new : Bytes) : Bytes :=
  List.zipWith (· &&& ·) (old.take (256 * k)) new ++ new.drop (256 * k)

namespace ImageFile

variable {k : Nat} {old new : Bytes}

theorem length_programmedOver (hlength : old.length = new.length) (hk : 256 * k ≤ new.length) :
    (programmedOver k old new).length = new.length := by
  simp only [programmedOver, List.length_append, List.length_zipWith, List.length_take,
    List.length_drop]
  omega

theorem getD_programmedOver (hlength : old.length = new.length) (hk : 256 * k ≤ new.length)
    (n : Nat) :
    (programmedOver k old new).getD n 0 =
      if n < 256 * k then old.getD n 0 &&& new.getD n 0 else new.getD n 0 := by
  have hzip : (List.zipWith (· &&& ·) (old.take (256 * k)) new).length = 256 * k := by
    simp only [List.length_zipWith, List.length_take]
    omega
  -- The index is in the part that was programmed over, or behind it.
  by_cases hn : n < 256 * k
  · have hold : n < old.length := by omega
    have hnew : n < new.length := by omega
    rw [if_pos hn, programmedOver, List.getD_append _ _ _ _ (by rw [hzip]; exact hn),
      List.getD_eq_getElem _ _ (by rw [hzip]; exact hn), List.getD_eq_getElem _ _ hold,
      List.getD_eq_getElem _ _ hnew, List.getElem_zipWith, List.getElem_take]
  · rw [if_neg hn, programmedOver, List.getD_append_right _ _ _ _ (by rw [hzip]; omega), hzip,
      List.getD_eq_getElem?_getD, List.getElem?_drop, ← List.getD_eq_getElem?_getD]
    congr 1
    omega

end ImageFile

namespace PagedImage

/-- An image after its first `k` pages were programmed over those of another
    one. -/
def programmedOver (old new : PagedImage) (k : Nat) (hcount : old.count = new.count)
    (hk : k ≤ new.count) : PagedImage :=
  { new with
    bytes := ImageFile.programmedOver k old.bytes new.bytes
    length_bytes := by
      have hold := old.length_bytes
      have hnew := new.length_bytes
      rw [ImageFile.length_programmedOver (by omega) (by omega), hnew] }

variable {old new : PagedImage} {config : Config} {ramBlocks flashBlocks erasedSectors : IndexSet}
  {memory : Memory} {k : Nat} {deliveries : List (UInt32 × Sector)} {last : UInt32 × Sector}

/-- Written over nothing, an image is what it wants to be. -/
theorem overlay_of_inPage {c : UInt32 → UInt8} {n : Nat} {a : UInt32}
    (hlow : new.base.toNat ≤ a.toNat) (hhigh : a.toNat < new.base.toNat + 256 * n) :
    new.overlay 0 n c a = new.want a := by
  unfold overlay
  rw [if_pos ⟨hlow, hhigh⟩, if_neg (by omega)]

/-- Written over the first `k` pages of another image, it is the two of them
    programmed over each other. -/
theorem overlay_overlay {c : UInt32 → UInt8} {a : UInt32} (hbase : old.base = new.base)
    (hcount : old.count = new.count) (hk : k ≤ new.count) (hlow : new.base.toNat ≤ a.toNat)
    (hhigh : a.toNat < new.base.toNat + 256 * new.count) :
    new.overlay k new.count (old.overlay 0 k c) a
      = (old.programmedOver new k hcount hk).want a := by
  have hlengthOld := old.length_bytes
  have hlengthNew := new.length_bytes
  have hwant : (old.programmedOver new k hcount hk).want a
      = (ImageFile.programmedOver k old.bytes new.bytes).getD (a.toNat - new.base.toNat) 0 := rfl
  rw [hwant, ImageFile.getD_programmedOver (by omega) (by omega), overlay, if_pos ⟨hlow, hhigh⟩]
  by_cases hfirst : a.toNat < new.base.toNat + 256 * k
  · rw [if_pos hfirst, if_pos (by omega), overlay_of_inPage (by rw [hbase]; exact hlow)
      (by rw [hbase]; exact hfirst), want, want, hbase]
  · rw [if_neg hfirst, if_neg (by omega), want]

theorem quiet_withMemory : Quiet erasedSectors.capacity flashBlocks.capacity
    (Device.withMemory config ramBlocks flashBlocks erasedSectors memory) :=
  ⟨rfl, rfl, rfl, rfl, Upload.sound_onSets _ _ _, rfl, rfl⟩

/-- Deliveries of two runs of sectors, the second of which ends with the last one. -/
theorem exists_split {xs ys : List Sector} (hys : ys ≠ [])
    (h : (deliveries ++ [last]).map Prod.snd = xs ++ ys) :
    ∃ earlier later, deliveries = earlier ++ later ∧ earlier.map Prod.snd = xs
      ∧ (later ++ [last]).map Prod.snd = ys := by
  rw [List.map_eq_append_iff] at h
  obtain ⟨earlier, later, hsplit, hearlier, hlater⟩ := h
  have hne : later ≠ [] := by
    rintro rfl
    exact hys hlater.symm
  rw [← List.dropLast_concat_getLast hne, ← List.append_assoc] at hsplit
  obtain ⟨hdeliveries, hlast⟩ := List.append_inj' hsplit rfl
  refine ⟨earlier, later.dropLast, hdeliveries, hearlier, ?_⟩
  rw [hlast, List.dropLast_concat_getLast hne]
  exact hlater

variable (ramBlocks flashBlocks erasedSectors memory) in
/-- What memory holds when a device reboots that was sent the first `k` sectors of
    one image and then all sectors of another one. -/
theorem reboot_after_unfinished (hbase : old.base = new.base) (hmap : config.map.WellFormed)
    (hold : old.InFlash config.map erasedSectors.capacity)
    (hnew : new.InFlash config.map erasedSectors.capacity)
    (hroomOld : old.numBlocks ≤ flashBlocks.capacity)
    (hroomNew : new.numBlocks ≤ flashBlocks.capacity) (hk : k < old.count)
    (hsectors : (deliveries ++ [last]).map Prod.snd
      = (old.sectors config.familyId).take k ++ new.sectors config.familyId) :
    ∃ d d', (Device.withMemory config ramBlocks flashBlocks erasedSectors memory).deliverAll
          deliveries = .ok d
      ∧ d.machine.reboots = [] ∧ d.deliver last = .ok d'
      ∧ d'.machine.reboots = [(⟨0, 0, config.rebootDelayMs⟩, d'.machine.memory)]
      ∧ d'.machine.memory.load new.base (256 * new.count)
        = if old.count = new.count then ImageFile.programmedOver k old.bytes new.bytes
          else new.bytes := by
  have hpos := new.pos
  have hne : new.sectors config.familyId ≠ [] := by
    apply List.ne_nil_of_length_pos
    rw [length_sectors]
    exact hpos
  obtain ⟨earlier, later, rfl, hearlier, hlater⟩ := exists_split hne hsectors
  have h₀ : old.Progressed erasedSectors.capacity flashBlocks.capacity 0 (fun _ => 0)
      (Device.withMemory config ramBlocks flashBlocks erasedSectors memory) :=
    progressed_start quiet_withMemory old.numBlocks_ne_zero.symm hroomOld _
  obtain ⟨d₁, hrun, rfl, hactive, h₁⟩ := h₀.deliverAll hmap hold hearlier (by omega)
  rw [Nat.max_eq_right (Nat.zero_le k)] at h₁
  by_cases hcount : old.count = new.count
  · -- The second image goes on with the upload of the first one.
    obtain ⟨d, d', hrun', hnone, hdeliver, hreboots, hcontent⟩ :=
      (h₁.congr hbase hcount).deliverAll_last hmap hnew hlater (by omega)
    refine ⟨d, d', ?_, hnone, hdeliver, hreboots, ?_⟩
    · rw [Device.deliverAll_append hrun, hrun']
    · rw [if_pos hcount]
      refine (old.programmedOver new k hcount (by omega)).load_eq_bytes ?_
      intro i hi a ha
      obtain ⟨hlow, hhigh⟩ := InPage.bounds hi ha
      exact (hcontent i hi a ha).trans
        (overlay_overlay hbase hcount (by omega) hlow hhigh)
  · -- The second image starts an upload of its own.
    have hother : d₁.core.upload.numBlocks ≠ new.numBlocks := by
      rcases hactive with hsame | hactive
      · rw [hsame]
        exact new.numBlocks_ne_zero.symm
      · rw [hactive]
        intro heq
        have hnat := congrArg UInt32.toNat heq
        rw [toNat_numBlocks, toNat_numBlocks] at hnat
        exact hcount hnat
    have h₂ : new.Progressed erasedSectors.capacity flashBlocks.capacity 0 (fun _ => 0) d₁ :=
      progressed_start h₁.quiet hother hroomNew _
    obtain ⟨d, d', hrun', hnone, hdeliver, hreboots, hcontent⟩ :=
      h₂.deliverAll_last hmap hnew hlater hpos
    refine ⟨d, d', ?_, hnone, hdeliver, hreboots, ?_⟩
    · rw [Device.deliverAll_append hrun, hrun']
    · rw [if_neg hcount]
      refine new.load_eq_bytes fun i hi a ha => ?_
      obtain ⟨hlow, hhigh⟩ := ha.bounds hi
      rw [hcontent i hi a ha, overlay_of_inPage hlow hhigh]

end PagedImage

/-- All of `n` pages from `base` on lie in flash, in erase sectors that a set of
    `capacity` keeps track of. -/
def AddressMap.TracksPages (map : AddressMap) (capacity base : UInt32) (n : Nat) : Prop :=
  ∀ k < n, ∃ region, map.findOf? .flash (base + UInt32.ofNat k * pageSize) pageSize = some region
    ∧ region.sectorNo (base + UInt32.ofNat k * pageSize) < capacity

theorem AddressMap.TracksPages.inFlash {map : AddressMap} {capacity : UInt32} {img : PagedImage}
    (h : map.TracksPages capacity img.base img.count) : img.InFlash map capacity := by
  intro i hi
  obtain ⟨region, hflash, hlt⟩ := h i.toNat (PagedImage.lt_count hi)
  rw [UInt32.ofNat_toNat] at hflash hlt
  have hregion : img.flash? map i = some region := hflash
  rw [hregion, PagedImage.sectorNo_of_flash hregion]
  exact ⟨rfl, hlt⟩

/-! ### Two images for the board with flash -/

theorem tracksPages_flashBoard :
    flashBoard.map.TracksPages (IndexSet.empty 1).capacity 0x10000000 2 := by
  intro k hk
  have hcases : k = 0 ∨ k = 1 := by omega
  rcases hcases with rfl | rfl
  · exact ⟨⟨.flash, 0x10000000, 0x2000⟩, by decide, by decide⟩
  · exact ⟨⟨.flash, 0x10000000, 0x2000⟩, by decide, by decide⟩

theorem exists_pack_twoPages (b : UInt8) :
    ∃ s₀ s₁, ImageFile.pack (twoPages b) 0x10000000 flashBoard.familyId = .ok [s₀, s₁] := by
  have hlength : (twoPages b).length = 512 := List.length_replicate
  obtain ⟨sectors, hpack⟩ : ∃ sectors,
      ImageFile.pack (twoPages b) 0x10000000 flashBoard.familyId = .ok sectors :=
    ImageFile.exists_pack_eq_ok _ (by rw [hlength]; decide) (by decide) (by rw [hlength]; decide)
  have htwo := ImageFile.length_pack hpack
  rw [hlength] at htwo
  obtain ⟨s₀, s₁, rfl⟩ := List.length_eq_two.mp htwo
  exact ⟨s₀, s₁, hpack⟩

/-- A device is sent the first `k` sectors of one flash image and then all sectors of
    another one. It reboots exactly with the last of them. Flash then holds the
    second image, unless the two have the same number of pages: then the first `k`
    pages have only the bits that both images have. -/
theorem Device.reboots_after_second_image {imageA imageB : Bytes} {base : UInt32}
    {sectorsA sectorsB : List Sector} (config : Config)
    (ramBlocks flashBlocks erasedSectors : IndexSet) (memory : Memory) (k : Nat)
    (deliveries : List (UInt32 × Sector)) (last : UInt32 × Sector)
    (hmap : config.map.WellFormed)
    (hA : ImageFile.pack imageA base config.familyId = .ok sectorsA)
    (hB : ImageFile.pack imageB base config.familyId = .ok sectorsB)
    (hpagesA : config.map.TracksPages erasedSectors.capacity base sectorsA.length)
    (hpagesB : config.map.TracksPages erasedSectors.capacity base sectorsB.length)
    (hroomA : sectorsA.length ≤ flashBlocks.capacity.toNat)
    (hroomB : sectorsB.length ≤ flashBlocks.capacity.toNat) (hk : k < sectorsA.length)
    (hdeliveries : (deliveries ++ [last]).map Prod.snd = sectorsA.take k ++ sectorsB) :
    ∃ d d', (Device.withMemory config ramBlocks flashBlocks erasedSectors memory).deliverAll
          deliveries = .ok d
      ∧ d.machine.reboots = [] ∧ d.deliver last = .ok d'
      ∧ d'.machine.reboots = [(⟨0, 0, config.rebootDelayMs⟩, d'.machine.memory)]
      ∧ d'.machine.memory.load base (256 * sectorsB.length)
        = if sectorsA.length = sectorsB.length
          then ImageFile.programmedOver k (ImageFile.padded imageA) (ImageFile.padded imageB)
          else ImageFile.padded imageB := by
  obtain ⟨imgA, rfl, hbytesA, rfl⟩ := ImageFile.pack_eq_ok hA
  obtain ⟨imgB, hbase, hbytesB, rfl⟩ := ImageFile.pack_eq_ok hB
  simp only [PagedImage.length_sectors] at hpagesA hpagesB hroomA hroomB hk ⊢
  rw [← hbase] at hpagesB ⊢
  rw [← hbytesA, ← hbytesB]
  refine PagedImage.reboot_after_unfinished _ _ _ _ hbase.symm hmap hpagesA.inFlash
    hpagesB.inFlash ?_ ?_ hk hdeliveries
  · rw [UInt32.le_iff_toNat_le, PagedImage.toNat_numBlocks]
    exact hroomA
  · rw [UInt32.le_iff_toNat_le, PagedImage.toNat_numBlocks]
    exact hroomB

/-- Such an image fits the board. -/
theorem exists_image_twoPages {b : UInt8} {s₀ s₁ : Sector}
    (h : ImageFile.pack (twoPages b) 0x10000000 flashBoard.familyId = .ok [s₀, s₁]) :
    ∃ img : PagedImage, img.base = 0x10000000 ∧ img.count = 2
      ∧ img.bytes = ImageFile.padded (twoPages b)
      ∧ [s₀, s₁] = img.sectors flashBoard.familyId
      ∧ img.InFlash flashBoard.map (IndexSet.empty 1).capacity
      ∧ img.numBlocks ≤ (IndexSet.empty 1).capacity := by
  obtain ⟨img, hbase, hbytes, hsectors⟩ := ImageFile.pack_eq_ok h
  have hcount : img.count = 2 := by
    rw [← img.length_sectors flashBoard.familyId, ← hsectors]
    rfl
  refine ⟨img, hbase, hcount, hbytes, hsectors, ?_, ?_⟩
  · apply AddressMap.TracksPages.inFlash
    rw [hbase, hcount]
    exact tracksPages_flashBoard
  · rw [UInt32.le_iff_toNat_le, PagedImage.toNat_numBlocks, hcount]
    decide

theorem length_padded_twoPages (b : UInt8) : (ImageFile.padded (twoPages b)).length = 512 := by
  rw [ImageFile.length_padded, twoPages, List.length_replicate]

theorem getD_padded_twoPages (b : UInt8) : (ImageFile.padded (twoPages b)).getD 0 0 = b := by
  have hlength : 0 < (twoPages b).length := by
    unfold twoPages
    rw [List.length_replicate]
    decide
  unfold ImageFile.padded
  rw [List.getD_append _ _ _ _ hlength, List.getD_eq_getElem _ _ hlength]
  exact List.getElem_replicate _

/-- The sector for an image of one byte at the start of its flash. -/
def oneByteSector : Sector :=
  (Header.page 0x10000000 0 1 flashBoard.familyId).toSector (ImageFile.fillPage [0x2A])

theorem pack_oneByte :
    ImageFile.pack [0x2A] 0x10000000 flashBoard.familyId = .ok [oneByteSector] := by
  have hpieces : pieces pageSize.toNat ([0x2A] : Bytes) = [[0x2A]] := by simp [pieces]
  have hpage : ImageFile.pageSector 0x10000000 flashBoard.familyId 1 ([0x2A], 0)
      = .ok oneByteSector := rfl
  unfold ImageFile.pack
  rw [if_neg (by decide), if_neg (by decide), if_neg (by decide)]
  simp only [hpieces]
  show ([([0x2A], 0)].mapM (ImageFile.pageSector 0x10000000 flashBoard.familyId 1)).mapError
    ImageFile.PackError.fault = _
  rw [List.mapM_cons, hpage]
  rfl

/-- After the first page of a longer image, an image of one byte starts anew. -/
theorem reboots_after_second_image_flashBoard :
    ∃ a₀ a₁, ImageFile.pack (twoPages 0) 0x10000000 flashBoard.familyId = .ok [a₀, a₁]
      ∧ ImageFile.pack [0x2A] 0x10000000 flashBoard.familyId = .ok [oneByteSector]
      ∧ flashBoard.map.WellFormed
      ∧ flashBoard.map.TracksPages (IndexSet.empty 1).capacity 0x10000000 2
      ∧ flashBoard.map.TracksPages (IndexSet.empty 1).capacity 0x10000000 1
      ∧ 2 ≤ (IndexSet.empty 1).capacity.toNat ∧ 1 < [a₀, a₁].length
      ∧ ([((1 : UInt32), a₀)] ++ [(2, oneByteSector)]).map Prod.snd
        = [a₀, a₁].take 1 ++ [oneByteSector]
      ∧ ∃ d d', (Device.withMemory flashBoard (IndexSet.empty 1) (IndexSet.empty 1)
            (IndexSet.empty 1) default).deliverAll [(1, a₀)] = .ok d
        ∧ d.machine.reboots = [] ∧ d.deliver (2, oneByteSector) = .ok d'
        ∧ d'.machine.reboots = [(⟨0, 0, 50⟩, d'.machine.memory)]
        ∧ d'.machine.memory.load 0x10000000 256 = ImageFile.padded [0x2A] := by
  obtain ⟨a₀, a₁, hpack⟩ := exists_pack_twoPages 0
  have hone : flashBoard.map.TracksPages (IndexSet.empty 1).capacity 0x10000000 1 :=
    fun k hk => tracksPages_flashBoard k (Nat.lt_trans hk (by decide))
  have hroom : 2 ≤ (IndexSet.empty 1).capacity.toNat := by decide
  refine ⟨a₀, a₁, hpack, pack_oneByte, wellFormed_flashBoard, tracksPages_flashBoard, hone, hroom,
    Nat.lt_succ_self 1, rfl, ?_⟩
  obtain ⟨d, d', hrun, hnone, hdeliver, hreboots, hload⟩ :=
    Device.reboots_after_second_image flashBoard (IndexSet.empty 1) (IndexSet.empty 1)
      (IndexSet.empty 1) default 1 [(1, a₀)] (2, oneByteSector) wellFormed_flashBoard hpack
      pack_oneByte tracksPages_flashBoard hone hroom (Nat.le_of_succ_le hroom)
      (Nat.lt_succ_self 1) rfl
  rw [if_neg (by simp)] at hload
  exact ⟨d, d', hrun, hnone, hdeliver, hreboots, hload⟩

/-- After the first page of zeros, an image of ones with as many pages is not in flash
    when the device reboots. -/
theorem second_image_not_held :
    ∃ a₀ a₁ b₀ b₁, ImageFile.pack (twoPages 0) 0x10000000 flashBoard.familyId = .ok [a₀, a₁]
      ∧ ImageFile.pack (twoPages 0xFF) 0x10000000 flashBoard.familyId = .ok [b₀, b₁]
      ∧ flashBoard.map.WellFormed
      ∧ flashBoard.map.TracksPages (IndexSet.empty 1).capacity 0x10000000 2
      ∧ 2 ≤ (IndexSet.empty 1).capacity.toNat
      ∧ ∃ d d', (Device.withMemory flashBoard (IndexSet.empty 1) (IndexSet.empty 1)
            (IndexSet.empty 1) default).deliverAll [(1, a₀), (2, b₀)] = .ok d
        ∧ d.deliver (3, b₁) = .ok d'
        ∧ d'.machine.reboots = [(⟨0, 0, 50⟩, d'.machine.memory)]
        ∧ d'.machine.memory.load 0x10000000 512 ≠ ImageFile.padded (twoPages 0xFF) := by
  obtain ⟨a₀, a₁, hA⟩ := exists_pack_twoPages 0
  obtain ⟨b₀, b₁, hB⟩ := exists_pack_twoPages 0xFF
  have hroom : 2 ≤ (IndexSet.empty 1).capacity.toNat := by decide
  refine ⟨a₀, a₁, b₀, b₁, hA, hB, wellFormed_flashBoard, tracksPages_flashBoard, hroom, ?_⟩
  obtain ⟨imgA, hbaseA, hcountA, hbytesA, hsectorsA, hflashA, hroomA⟩ := exists_image_twoPages hA
  obtain ⟨imgB, hbaseB, hcountB, hbytesB, hsectorsB, hflashB, hroomB⟩ := exists_image_twoPages hB
  -- Both images have two pages, so the second one goes on with the upload of the first.
  have hsent : ([((1 : UInt32), a₀), (2, b₀)] ++ [(3, b₁)]).map Prod.snd
      = (imgA.sectors flashBoard.familyId).take 1 ++ imgB.sectors flashBoard.familyId := by
    rw [← hsectorsA, ← hsectorsB]
    rfl
  obtain ⟨d, d', hrun, -, hdeliver, hreboots, hload⟩ :=
    PagedImage.reboot_after_unfinished (IndexSet.empty 1) (IndexSet.empty 1) (IndexSet.empty 1)
      default (hbaseA.trans hbaseB.symm) wellFormed_flashBoard hflashA hflashB hroomA hroomB
      (by rw [hcountA]; decide) hsent
  refine ⟨d, d', hrun, hdeliver, hreboots, ?_⟩
  rw [hcountA, hcountB, if_pos rfl, hbaseB, hbytesA, hbytesB] at hload
  rw [hload]
  -- The first byte shows the difference.
  intro heq
  have hfirst := congrArg (fun bytes => bytes.getD 0 0) heq
  have hlengthA := length_padded_twoPages 0
  have hlengthB := length_padded_twoPages 0xFF
  have hmixed := ImageFile.getD_programmedOver (k := 1) (hlengthA.trans hlengthB.symm)
    (by rw [hlengthB]; decide) 0
  rw [getD_padded_twoPages, getD_padded_twoPages] at hmixed
  simp only [hmixed, getD_padded_twoPages] at hfirst
  exact absurd hfirst (by decide)

end Reflash
