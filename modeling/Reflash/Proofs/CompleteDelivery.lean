import Reflash.Proofs.AbortedUpload
import Reflash.Proofs.EraseDiscipline
import Reflash.Proofs.RebootLatch
import Reflash.Proofs.Session
/-! # Delivering all of an image

  Every sector of an image is delivered at least once, in any order and as often as
  one likes, and the device deals with each of them before the next one comes. The
  image has a place in memory; what the device did before does not matter, as long
  as no reboot is due and it does not hold an upload with as many blocks.

  Until the last missing sector comes, each sector is taken, its page is written and
  the host is told that all went well. With that sector the upload is complete, and
  not before. From then on a sector is still taken, but its job is refused.

  `Tally` says which blocks are valid: those of the sectors that were sent. It is
  about an upload alone, so that it holds in whatever way the worker gets to the
  jobs. `Underway` is what holds of the device between two sectors.
-/

namespace Reflash

/-! ### Sets keep their sizes -/

namespace Upload

/-- The sets of two uploads are of the same sizes. -/
structure SameSizes (u v : Upload) : Prop where
  ramBlocks : v.ramBlocks.capacity = u.ramBlocks.capacity
  flashBlocks : v.flashBlocks.capacity = u.flashBlocks.capacity
  erasedSectors : v.erasedSectors.capacity = u.erasedSectors.capacity

variable {u v w : Upload}

theorem SameSizes.refl (u : Upload) : SameSizes u u := ⟨rfl, rfl, rfl⟩

theorem SameSizes.trans (h : SameSizes u v) (h' : SameSizes v w) : SameSizes u w :=
  ⟨h'.ramBlocks.trans h.ramBlocks, h'.flashBlocks.trans h.flashBlocks,
    h'.erasedSectors.trans h.erasedSectors⟩

theorem sameSizes_withValidBlocks {s : IndexSet} (h : s.capacity = u.validBlocks.capacity) :
    SameSizes u (u.withValidBlocks s) := by
  unfold validBlocks at h
  unfold withValidBlocks
  split
  · rename_i hram
    rw [if_pos hram] at h
    exact ⟨h, rfl, rfl⟩
  · rename_i hram
    rw [if_neg hram] at h
    exact ⟨rfl, h, rfl⟩

theorem sameSizes_start (u : Upload) (inRam : Bool) (numBlocks : UInt32) :
    SameSizes u (u.start inRam numBlocks).1 := by
  unfold start
  extract_lets u₀ u₁
  have hcleared : SameSizes u u₀ := ⟨rfl, rfl, IndexSet.capacity_clear _⟩
  have hsizes : SameSizes u u₁ :=
    hcleared.trans (sameSizes_withValidBlocks (IndexSet.capacity_clear _))
  split
  · exact hsizes
  · exact ⟨hsizes.ramBlocks, hsizes.flashBlocks, hsizes.erasedSectors⟩

theorem sameSizes_joined (u : Upload) (block : Block) (config : Config) :
    SameSizes u (u.joined block config).1 := by
  by_cases hn : u.numBlocks = block.header.numBlocks
  · rw [joined_of_eq hn]
    exact .refl u
  · rw [joined_of_ne hn]
    exact sameSizes_start _ _ _

theorem Accepts.sameSizes {block : Block} {token : UInt32} {config : Config} {fenced : Bool}
    {job : Option Job} (h : Accepts u block token config fenced v job) : SameSizes u v := by
  have hjoined := u.sameSizes_joined block config
  cases h with
  | turnedAway => exact ⟨rfl, rfl, rfl⟩
  | dropped => exact hjoined
  | taken => exact ⟨hjoined.ramBlocks, hjoined.flashBlocks, hjoined.erasedSectors⟩

theorem sameSizes_marked (u : Upload) (map : AddressMap) (erase : Option EraseRange) :
    SameSizes u (u.marked map erase) := by
  have hnoted : SameSizes u { u with erasedSectors := u.erasedWith map erase } :=
    ⟨rfl, rfl, capacity_erasedWith u map erase⟩
  refine hnoted.trans (sameSizes_withValidBlocks ?_)
  rw [IndexSet.capacity_insert]
  rfl

theorem sameSizes_credit {job : Job} {config : Config} {request : Option RebootRequest}
    (hu : u.Sound) (h : u.credit job config = .ok (v, request)) : SameSizes u v := by
  cases hawaits : u.awaits job with
  | false =>
    rw [credit_of_not_awaits config hawaits] at h
    cases h
    exact .refl u
  | true =>
    have hn : u.numBlocks ≠ 0 := by
      simp only [awaits, Bool.and_eq_true, bne_iff_ne] at hawaits
      exact hawaits.1.1
    have horder := hu hn
    rw [credit_of_awaits config hawaits horder.blockNo_lt_room horder.validCount_lt] at h
    have hmarked := u.sameSizes_marked config.map job.erase
    -- The block was valid before or is counted now; the sets are the same either way.
    cases hvalid : u.isBlockValid u.blockNo with
    | true =>
      rw [hvalid] at h
      cases h
      exact hmarked
    | false =>
      rw [hvalid] at h
      cases h
      exact ⟨hmarked.ramBlocks, hmarked.flashBlocks, hmarked.erasedSectors⟩

end Upload

namespace Device

variable {σ : Type} [Machine σ] {d d' : Device σ}

theorem Step.sameSizes {es : Journal} (h : d.Step es d') (hs : d.core.upload.Sound) :
    d.core.upload.SameSizes d'.core.upload := by
  cases h with
  | block _ haccepts => exact haccepts.sameSizes
  | resetDisk => exact ⟨rfl, rfl, rfl⟩
  | credited _ _ hcredit => exact Upload.sameSizes_credit hs hcredit
  | @take origin => cases origin <;> exact .refl _
  | _ => exact .refl _

end Device

/-- The sets of an upload stay as large as they were when the device was made, and so
    does the table of regions stay the same. -/
theorem Watched.run_sameSizes {σ : Type} [Machine σ] {w w' : Watched σ} {moves : List Move}
    (hs : w.device.core.upload.Sound) (h : w.run moves = .ok w') :
    w'.device.core.config = w.device.core.config
      ∧ w.device.core.upload.SameSizes w'.device.core.upload := by
  induction moves generalizing w with
  | nil =>
    cases h
    exact ⟨rfl, .refl _⟩
  | cons m moves ih =>
    obtain ⟨d, hstep, hd⟩ := w.step_ok hs m
    rw [run_cons w _ m moves hstep] at h
    obtain ⟨hconfig, hsizes⟩ := ih (hd.sound hs) h
    exact ⟨hconfig.trans hd.config, (hd.sameSizes hs).trans hsizes⟩

/-! ### The worker and a page -/

namespace Device

variable {σ : Type} [Machine σ] {d : Device σ} {job : Job}

/-- The worker carries out the job for a page according to its plan. -/
theorem carryOut_page {p : Job.Plan} (hphase : d.phase = .holding .disk job)
    (hopen : d.core.disk.fence = none) (hjob : job.WritesPage)
    (hplan : job.plan d.core.config.map d.core.rebooting d.lastWriter = p) :
    d.carryOut = { d with
      lastWriter := p.lastWriter
      machine := Machine.performAll d.machine p.calls
      phase := .done { job with result := some p.status } } := by
  have hfence : (d.core.slot .disk).isFenced = false := by
    show d.core.disk.fence.isSome = false
    rw [hopen]
    rfl
  have haccess : p.access = none := by
    rw [← hplan, Job.access_plan, hjob.access, ite_self]
  rw [carryOut_of_open hphase hfence, doneJob, d.execute_page hjob hplan haccess]

section delivering

variable {token : UInt32} {sector : Sector} {block : Block} {v v' : Upload}
  (hphase : d.phase = .idle) (hdisk : d.core.disk = .empty)
  (hblock : Block.ofSectorFor? sector d.core.config.familyId = .ok block)
  (haccepts : d.core.upload.Accepts block token d.core.config false v (some job))

include hdisk hblock haccepts

omit [Machine σ] in
/-- A block that is taken is queued. -/
theorem writeSector_of_accepts :
    d.core.writeSector token sector = .ok (d.core.afterBlock v (some job), true) := by
  have hfence : d.core.disk.isFenced = false := by rw [hdisk]; rfl
  exact Core.writeSector_of_block hblock (hfence ▸ haccepts.accept_eq) haccepts.result

include hphase

/-- The job for a block that is taken is carried out according to its plan, and those
    who wait for it are told. -/
theorem deliver_of_accepts {p : Job.Plan} {request : Option RebootRequest}
    (hwrites : job.forUpload.WritesPage)
    (hplan : job.forUpload.plan d.core.config.map d.core.rebooting d.lastWriter = p)
    (hcredit : v.credit { job.forUpload with result := some p.status } d.core.config
      = .ok (v', request)) :
    d.deliver (token, sector) = .ok { d with
      core := { d.core with upload := v', rebooting := d.core.rebooting || request.isSome }
      phase := .idle
      lastWriter := p.lastWriter
      machine := Machine.performAll d.machine (p.calls ++ (request.map Call.reboot).toList
        ++ [.complete { job.forUpload with result := some p.status }.response]) } := by
  let queued : Device σ := { d with core := d.core.afterBlock v (some job) }
  let held : Device σ :=
    { d with core := { d.core with upload := v }, phase := .holding .disk job.forUpload }
  have htake : queued.takeJob = held := by
    have hwaits : queued.core.disk.job = some job.forUpload := rfl
    rw [takeJob_of_disk (d := queued) hphase hwaits]
    simp only [queued, held, Core.afterBlock, hdisk, Slot.empty]
  have hopen : held.core.disk.fence = none := by
    show d.core.disk.fence = none
    rw [hdisk]
    rfl
  have hcarry := carryOut_page (d := held) rfl hopen hwrites hplan
  let carried : Device σ := { held with
    phase := .idle, lastWriter := p.lastWriter, machine := Machine.performAll d.machine p.calls }
  let done : Job := { job.forUpload with result := some p.status }
  have hlistener : done.listener = some .upload := rfl
  have hfinish := carried.notify_upload hlistener hcredit
  refine deliver_eq (writeSector_of_accepts hdisk hblock haccepts)
    (show queued.poll = .ok (_, true) from ?_)
  rw [poll, htake]
  show (do return (← held.carryOut.finish, true)) = _
  rw [hcarry]
  simp only [finish]
  rw [show held.machine = d.machine from rfl, hfinish]
  show Except.ok (_, true) = Except.ok (_, true)
  congr 3
  unfold Machine.performAll
  rw [List.foldl_append, List.foldl_append]
  cases request <;> rfl

end delivering

end Device

namespace PagedImage

variable (img : PagedImage) (config : Config) (capacity : UInt32) (inRam : Bool)

/-! ### The upload of an image -/

/-- Where a page lies: in RAM, or in whole erase sectors of flash that are
    tracked. -/
structure Lies (map : AddressMap) (i : UInt32) : Prop where
  kind : img.inRam map i = inRam
  ram : inRam = true → img.flash? map i = none
  flash : inRam = false → ∃ region, img.flash? map i = some region ∧ region.Aligned
    ∧ region.sectorNo (img.addr i) < capacity

/-- The upload that takes the pages of an image, and whether the image fits. -/
def home (u : Upload) : Upload × Bool := u.continueOrStart inRam img.numBlocks

/-- The upload after it took a page. -/
def afterPage (u : Upload) (i token : UInt32) : Upload :=
  { (img.home inRam u).1 with blockNo := i, token }

/-- The job for a page. -/
def pageJob (u : Upload) (i token : UInt32) : Job :=
  (img.home inRam u).1.pageJob (img.block config.familyId i) token (img.flash? config.map i)

/-- The valid blocks of an upload are those of the sectors that were sent. -/
structure Tally (sent : List Sector) (u : Upload) : Prop where
  sound : u.Sound
  capacity : u.erasedSectors.capacity = capacity
  fits : (img.home inRam u).2 = true
  kind : (img.home inRam u).1.inRam = inRam
  valid : ∀ i < img.numBlocks, ((img.home inRam u).1.isBlockValid i = true ↔
    img.sector config.familyId i ∈ sent)

variable {img config capacity inRam} {i j token : UInt32} {u : Upload} {sent : List Sector}

theorem sector_injective {familyId : UInt32}
    (h : img.sector familyId i = img.sector familyId j) : i = j := by
  have hblock := img.ofSectorFor?_sector familyId i
  rw [h, img.ofSectorFor?_sector familyId j] at hblock
  exact (congrArg (fun b : Block => b.header.blockNo) (Except.ok.inj hblock)).symm

/-- All sectors of an image were sent when each of them was. -/
theorem sectors_subset_iff {familyId : UInt32} :
    img.sectors familyId ⊆ sent ↔ ∀ i < img.numBlocks, img.sector familyId i ∈ sent := by
  constructor
  · intro h i hi
    exact h (mem_sectors.mpr ⟨i, hi, rfl⟩)
  · intro h s hs
    obtain ⟨i, hi, rfl⟩ := mem_sectors.mp hs
    exact h i hi

theorem home_of_eq (h : u.numBlocks = img.numBlocks) : img.home inRam u = (u, true) := if_pos h

theorem numBlocks_home (h : (img.home inRam u).2 = true) :
    (img.home inRam u).1.numBlocks = img.numBlocks := by
  by_cases hn : u.numBlocks = img.numBlocks
  · rw [home_of_eq hn]
    exact hn
  · have hstart : img.home inRam u = u.start inRam img.numBlocks := if_neg hn
    rw [hstart] at h ⊢
    rw [(Upload.start_started u inRam img.numBlocks).numBlocks, h, if_pos rfl]

/-- An upload for another number of blocks starts anew, and nothing counts for it. -/
theorem tally_start (hs : u.Sound) (hcapacity : u.erasedSectors.capacity = capacity)
    (hroom : img.numBlocks ≤ (if inRam then u.ramBlocks else u.flashBlocks).capacity)
    (hn : u.numBlocks ≠ img.numBlocks) : img.Tally config capacity inRam [] u := by
  have hstart : img.home inRam u = u.start inRam img.numBlocks := if_neg hn
  have hstarted := Upload.start_started u inRam img.numBlocks
  refine ⟨hs, hcapacity, ?_, ?_, ?_⟩
  · rw [hstart, hstarted.room, hstarted.capacity, decide_eq_true_eq]
    exact hroom
  · rw [hstart, hstarted.inRam]
  · intro i _
    rw [hstart, hstarted.valid]
    simp

/-- An upload of the image is complete when all sectors were sent. -/
theorem Tally.complete_iff (h : img.Tally config capacity inRam sent u)
    (hn : u.numBlocks = img.numBlocks) :
    u.progress = .complete ↔ img.sectors config.familyId ⊆ sent := by
  have hn0 : u.numBlocks ≠ 0 := by
    rw [hn]
    exact img.numBlocks_ne_zero
  rw [(h.sound hn0).progress_eq_complete_iff hn0, hn, sectors_subset_iff]
  refine forall₂_congr fun j hj => ?_
  have hvalid := h.valid j hj
  rw [home_of_eq hn] at hvalid
  exact hvalid

/-- An upload awaits whatever bears the token of the page that it took last. -/
theorem Tally.awaits {job : Job} (h : img.Tally config capacity inRam sent u)
    (hresult : job.result = some .ok) :
    (img.afterPage inRam u i job.token).awaits job = true := by
  unfold Upload.awaits
  rw [show (img.afterPage inRam u i job.token).numBlocks = img.numBlocks from numBlocks_home h.fits,
    hresult]
  simp [numBlocks_ne_zero, afterPage]

section page

variable (h : img.Tally config capacity inRam sent u)
  (hlies : img.Lies capacity inRam config.map i) (hi : i < img.numBlocks)

include hlies

/-- The region of flash that a page lies in is made of whole sectors, and the one of the page
    is tracked. -/
theorem Lies.of_flash {region : Region}
    (hregion : config.map.findOf? .flash (img.addr i) pageSize = some region) :
    region.Aligned ∧ region.sectorNo (img.addr i) < capacity := by
  have hflash : img.flash? config.map i = some region := hregion
  cases hkind : inRam with
  | true => cases hflash.symm.trans (hlies.ram hkind)
  | false =>
    obtain ⟨region', hregion', haligned, hlt⟩ := hlies.flash hkind
    cases hflash.symm.trans hregion'
    exact ⟨haligned, hlt⟩

theorem Lies.joined_eq_home (u : Upload) :
    u.joined (img.block config.familyId i) config = img.home inRam u := by
  have hkind : (Upload.ramOf config.map (img.block config.familyId i)).isSome = inRam := hlies.kind
  unfold Upload.joined
  rw [hkind]
  rfl

include hi

theorem Lies.turnsAway_eq_false :
    Upload.turnsAway (img.block config.familyId i) config false = false := by
  have hn : (img.block config.familyId i).header.numBlocks ≠ 0 := img.numBlocks_ne_zero
  have haddr : (img.block config.familyId i).header.targetAddr % pageSize = 0 :=
    addr_mod_pageSize hi
  -- A page in RAM has a place there, and a page in flash has one in flash.
  cases hkind : inRam with
  | true =>
    have hram : (Upload.ramOf config.map (img.block config.familyId i)).isNone = false := by
      rw [← Option.not_isSome, Bool.not_eq_false']
      exact hlies.kind.trans hkind
    simp [Upload.turnsAway, hn, hram, haddr]
  | false =>
    obtain ⟨region, hregion, -⟩ := hlies.flash hkind
    have hflash : Upload.flashOf config.map (img.block config.familyId i) = some region := hregion
    simp [Upload.turnsAway, hn, hflash, haddr]

include h

theorem Tally.not_drops : ¬ Upload.Drops (img.home inRam u).1 (img.home inRam u).2
    (img.block config.familyId i) config := by
  rintro (hfits | hkind | hno | hlong | ⟨region, hregion, hle⟩)
  · rw [h.fits] at hfits
    cases hfits
  · rw [h.kind] at hkind
    exact hkind hlies.kind
  · exact UInt32.not_lt.mpr hno hi
  · rw [payload_block hi, length_page hi] at hlong
    exact absurd hlong (Nat.lt_irrefl 256)
  · -- A page of flash lies in a sector that is tracked.
    have hcapacity := (u.sameSizes_joined (img.block config.familyId i) config).erasedSectors
    rw [hlies.joined_eq_home, h.capacity] at hcapacity
    rw [hcapacity] at hle
    exact UInt32.not_lt.mpr hle (hlies.of_flash hregion).2

/-- Each page of the image is taken. -/
theorem Tally.accepts (token : UInt32) :
    u.Accepts (img.block config.familyId i) token config false (img.afterPage inRam u i token)
      (some (img.pageJob config inRam u i token)) := by
  have hkeep : ¬ Upload.Drops (u.joined (img.block config.familyId i) config).1
      (u.joined (img.block config.familyId i) config).2 (img.block config.familyId i) config := by
    rw [hlies.joined_eq_home]
    exact h.not_drops hlies hi
  have htaken : u.Accepts (img.block config.familyId i) token config false _ _ :=
    .taken (hlies.turnsAway_eq_false hi) hkeep
  rw [hlies.joined_eq_home] at htaken
  exact htaken

/-- The job for a page writes it in one call, and ends well unless a reboot is due. -/
theorem Tally.plan_pageJob (token : UInt32) (lastWriter : Option Channel) :
    (img.pageJob config inRam u i token).forUpload.plan config.map false lastWriter =
      { status := .ok, calls := [(img.pageJob config inRam u i token).forUpload.pageCall config.map]
        access := none, lastWriter := some .disk } := by
  have hlength : (img.block config.familyId i).payload.length = 256 := by
    rw [payload_block hi, length_page hi]
  have hplaced : (img.pageJob config inRam u i token).forUpload.Placed config.map
      u.erasedSectors.capacity := by
    unfold pageJob
    rw [← hlies.joined_eq_home u]
    refine Upload.placed_of_apart token (fun hram => ?_) (hlies.turnsAway_eq_false hi) ?_
    · exact hlies.ram (hlies.kind.symm.trans hram)
    · rw [hlies.joined_eq_home]
      exact h.not_drops hlies hi
  refine ((h.accepts hlies hi token).writesPage hlength).plan_of_aligned hplaced ?_ lastWriter
  exact fun region hregion => (hlies.of_flash hregion).1

/-- A page that is taken changes nothing about the blocks. -/
theorem Tally.taken (token : UInt32) :
    img.Tally config capacity inRam sent (img.afterPage inRam u i token) := by
  have haccepts := h.accepts hlies hi token
  have hhome : img.home inRam (img.afterPage inRam u i token)
      = (img.afterPage inRam u i token, true) := home_of_eq (numBlocks_home h.fits)
  refine ⟨haccepts.sound h.sound, haccepts.sameSizes.erasedSectors.trans h.capacity, ?_, ?_, ?_⟩
  · rw [hhome]
  · rw [hhome]
    exact h.kind
  · intro j hj
    rw [hhome]
    exact h.valid j hj

/-- A job that the upload awaits is credited to the page that was taken last: its sector
    was sent, and the reboot is called for if it was the last one missing. -/
theorem Tally.credit_of_awaits {job : Job} (token : UInt32)
    (hawaits : (img.afterPage inRam u i token).awaits job = true) :
    ∃ v request, (img.afterPage inRam u i token).credit job config = .ok (v, request)
      ∧ img.Tally config capacity inRam (sent ++ [img.sector config.familyId i]) v
      ∧ v.numBlocks = img.numBlocks
      ∧ (request.isSome = true ↔ ¬ img.sectors config.familyId ⊆ sent
          ∧ img.sectors config.familyId ⊆ sent ++ [img.sector config.familyId i]) := by
  have hn : (img.afterPage inRam u i token).numBlocks = img.numBlocks := numBlocks_home h.fits
  have hsound : (img.afterPage inRam u i token).Sound := (h.taken hlies hi token).sound
  obtain ⟨v, request, hcredit, hv⟩ := Upload.credit_credits config hsound hawaits
  have hvn : v.numBlocks = img.numBlocks := hv.numBlocks.trans hn
  have hhome : img.home inRam v = (v, true) := home_of_eq hvn
  have hvalid : ∀ j < img.numBlocks, (v.isBlockValid j = true ↔
      img.sector config.familyId j ∈ sent ++ [img.sector config.familyId i]) := by
    intro j hj
    have hbefore : (img.afterPage inRam u i token).isBlockValid j = true ↔
        img.sector config.familyId j ∈ sent := h.valid j hj
    rw [hv.valid, Bool.or_eq_true, decide_eq_true_eq, hbefore, List.mem_append,
      List.mem_singleton]
    exact or_congr_right ⟨fun heq => by rw [show j = i from heq], sector_injective⟩
  refine ⟨v, request, hcredit, ⟨hv.sound, ?_, ?_, ?_, ?_⟩, hvn, ?_⟩
  · exact (Upload.sameSizes_credit hsound hcredit).erasedSectors.trans
      ((h.accepts hlies hi token).sameSizes.erasedSectors.trans h.capacity)
  · rw [hhome]
  · rw [hhome]
    exact hv.inRam.trans h.kind
  · intro j hj
    rw [hhome]
    exact hvalid j hj
  · -- The count reaches the number of blocks when all blocks are valid.
    have hcount : v.validCount = v.numBlocks ↔
        img.sectors config.familyId ⊆ sent ++ [img.sector config.familyId i] := by
      rw [(hv.sound (by rw [hvn]; exact img.numBlocks_ne_zero)).validCount_eq_iff, hvn,
        sectors_subset_iff]
      exact forall₂_congr hvalid
    have hmissing : (img.afterPage inRam u i token).isBlockValid i = true ↔
        img.sector config.familyId i ∈ sent := h.valid i hi
    have hblock : (img.afterPage inRam u i token).blockNo = i := rfl
    rw [hv.request, hblock, ← hcount]
    constructor
    · intro hsome
      split at hsome
      · rename_i hlast
        refine ⟨fun hall => ?_, hlast.2⟩
        have hsent := hmissing.mpr (sectors_subset_iff.mp hall i hi)
        rw [hlast.1] at hsent
        cases hsent
      · cases hsome
    · rintro ⟨hnot, hlast⟩
      have hnew : (img.afterPage inRam u i token).isBlockValid i = false := by
        rw [← Bool.not_eq_true]
        intro hsent
        apply hnot
        rw [hcount] at hlast
        -- The sector was sent before, so the last one adds nothing.
        intro s hs
        rcases List.mem_append.mp (hlast hs) with hold | hnew
        · exact hold
        · rw [List.mem_singleton.mp hnew]
          exact hmissing.mp hsent
      rw [if_pos ⟨hnew, hlast⟩]
      rfl

/-- The job for a page that ended well is credited to that page. -/
theorem Tally.credit (token : UInt32) :
    ∃ v request, (img.afterPage inRam u i token).credit
        { (img.pageJob config inRam u i token).forUpload with result := some .ok } config
        = .ok (v, request)
      ∧ img.Tally config capacity inRam (sent ++ [img.sector config.familyId i]) v
      ∧ v.numBlocks = img.numBlocks
      ∧ (request.isSome = true ↔ ¬ img.sectors config.familyId ⊆ sent
          ∧ img.sectors config.familyId ⊆ sent ++ [img.sector config.familyId i]) :=
  h.credit_of_awaits hlies hi token (h.awaits rfl)

end page

/-! ### Between two sectors -/

section underway

variable {σ : Type} [Machine σ] {d : Device σ}

variable (img config capacity inRam sent d) in
/-- A device that deals with the sectors of an image one after the other. -/
structure Underway : Prop where
  sameConfig : d.core.config = config
  phase : d.phase = .idle
  disk : d.core.disk = .empty
  tally : img.Tally config capacity inRam sent d.core.upload
  due : d.core.rebooting = true ↔ img.sectors config.familyId ⊆ sent
  complete : d.core.upload.progress = .complete ↔ img.sectors config.familyId ⊆ sent

omit [Machine σ] in
/-- The machine does not matter for this. -/
theorem Underway.of_core {σ' : Type} {d' : Device σ'}
    (h : img.Underway config capacity inRam sent d)
    (hcore : d'.core = d.core) (hphase : d'.phase = .idle) :
    img.Underway config capacity inRam sent d' := by
  refine ⟨?_, hphase, ?_, ?_, ?_, ?_⟩
  all_goals rw [hcore]
  · exact h.sameConfig
  · exact h.disk
  · exact h.tally
  · exact h.due
  · exact h.complete

omit [Machine σ] in
/-- A device that does not hold an upload of as many blocks has none of the sectors. -/
theorem underway_start (hphase : d.phase = .idle) (hdisk : d.core.disk = .empty)
    (hs : d.core.upload.Sound) (hdue : d.core.rebooting = false)
    (hcomplete : d.core.upload.progress = .complete → d.core.rebooting = true)
    (hroom : img.numBlocks
      ≤ (if inRam then d.core.upload.ramBlocks else d.core.upload.flashBlocks).capacity)
    (hn : d.core.upload.numBlocks ≠ img.numBlocks) :
    img.Underway d.core.config d.core.upload.erasedSectors.capacity inRam [] d := by
  have hmissing : ¬ img.sectors d.core.config.familyId ⊆ [] := by
    intro hall
    have hlength := img.length_sectors d.core.config.familyId
    rw [List.subset_nil.mp hall, List.length_nil] at hlength
    exact Nat.ne_of_lt img.pos hlength
  refine ⟨rfl, hphase, hdisk, tally_start hs rfl hroom hn, ?_, ?_⟩
  · simp [hdue, hmissing]
  · refine ⟨fun h => ?_, fun h => absurd h hmissing⟩
    rw [hcomplete h] at hdue
    cases hdue

variable (img config inRam u) in
/-- The calls that are made for a page, before the host is told. -/
def deliveryCalls (i token : UInt32) (request : Option RebootRequest) : List Call :=
  [(img.pageJob config inRam u i token).forUpload.pageCall config.map]
    ++ (request.map Call.reboot).toList

variable (img config inRam d) in
/-- The device when a page was written and its job was credited. -/
def delivered (i token : UInt32) (v : Upload) (request : Option RebootRequest) : Device σ :=
  { d with
    core := { d.core with upload := v, rebooting := d.core.rebooting || request.isSome }
    phase := .idle
    lastWriter := some .disk
    machine := Machine.performAll d.machine
      (img.deliveryCalls config inRam d.core.upload i token request
        ++ [.complete (.ack token .ok)]) }

theorem isComplete_deliveryCalls {request : Option RebootRequest} :
    ∀ call ∈ img.deliveryCalls config inRam u i token request, call.isComplete = false := by
  intro call hcall
  rcases List.mem_append.mp hcall with hcall | hcall
  · rw [List.mem_singleton.mp hcall]
    unfold Job.pageCall
    split <;> rfl
  · cases request with
    | none => cases hcall
    | some request =>
      rw [List.mem_singleton.mp hcall]
      rfl

section sector

variable (h : img.Underway config capacity inRam sent d)
  (hlies : img.Lies capacity inRam config.map i) (hi : i < img.numBlocks)

include h hlies hi

/-- While a sector is missing, its page is taken, written and credited. -/
theorem Underway.deliver_page (hmissing : ¬ img.sectors config.familyId ⊆ sent) (token : UInt32) :
    ∃ v request, (img.afterPage inRam d.core.upload i token).credit
        { (img.pageJob config inRam d.core.upload i token).forUpload with result := some .ok }
        config = .ok (v, request)
      ∧ v.numBlocks = img.numBlocks
      ∧ (request.isSome = true ↔
        img.sectors config.familyId ⊆ sent ++ [img.sector config.familyId i])
      ∧ d.core.writeSector token (img.sector config.familyId i)
        = .ok (d.core.afterBlock (img.afterPage inRam d.core.upload i token)
          (some (img.pageJob config inRam d.core.upload i token)), true)
      ∧ d.deliver (token, img.sector config.familyId i)
        = .ok (img.delivered config inRam d i token v request)
      ∧ img.Underway config capacity inRam (sent ++ [img.sector config.familyId i])
        (img.delivered config inRam d i token v request) := by
  obtain rfl := h.sameConfig
  have hdue : d.core.rebooting = false := by
    rw [← Bool.not_eq_true, h.due]
    exact hmissing
  have haccepts := h.tally.accepts hlies hi token
  obtain ⟨v, request, hcredit, htally, hvn, hrequest⟩ := h.tally.credit hlies hi token
  have hwrites := haccepts.writesPage (by rw [payload_block hi, length_page hi])
  have hplan := h.tally.plan_pageJob hlies hi token d.lastWriter
  rw [← hdue] at hplan
  have hdeliver := Device.deliver_of_accepts h.phase h.disk (img.ofSectorFor?_sector _ i) haccepts
    hwrites hplan hcredit
  have hsome : request.isSome = true ↔
      img.sectors d.core.config.familyId ⊆ sent ++ [img.sector d.core.config.familyId i] := by
    rw [hrequest]
    exact and_iff_right hmissing
  refine ⟨v, request, hcredit, hvn, hsome,
    Device.writeSector_of_accepts h.disk (img.ofSectorFor?_sector _ i) haccepts, hdeliver,
    ⟨rfl, rfl, h.disk, htally, ?_, ?_⟩⟩
  · show (d.core.rebooting || request.isSome) = true ↔ _
    rw [hdue, Bool.false_or, hsome]
  · exact htally.complete_iff hvn

/-- While a sector is missing, a page is written and reported. -/
theorem Underway.deliver_open (hmissing : ¬ img.sectors config.familyId ⊆ sent) (token : UInt32) :
    ∃ core d' new, d.core.writeSector token (img.sector config.familyId i) = .ok (core, true)
      ∧ d.deliver (token, img.sector config.familyId i) = .ok d'
      ∧ img.Underway config capacity inRam (sent ++ [img.sector config.familyId i]) d'
      ∧ d'.machine = Machine.performAll d.machine (new ++ [.complete (.ack token .ok)])
      ∧ ∀ call ∈ new, call.isComplete = false := by
  obtain ⟨v, request, -, -, -, hwrite, hdeliver, hnext⟩ := h.deliver_page hlies hi hmissing token
  exact ⟨_, _, _, hwrite, hdeliver, hnext, rfl, isComplete_deliveryCalls⟩

/-- Once all sectors were sent, a page is refused. -/
theorem Underway.deliver_due (hall : img.sectors config.familyId ⊆ sent) (token : UInt32) :
    ∃ core d', d.core.writeSector token (img.sector config.familyId i) = .ok (core, true)
      ∧ d.deliver (token, img.sector config.familyId i) = .ok d'
      ∧ img.Underway config capacity inRam (sent ++ [img.sector config.familyId i]) d'
      ∧ d'.machine = Machine.perform d.machine (.complete (.ack token .rebooting))
      ∧ d'.core.upload.validCount = d.core.upload.validCount := by
  obtain rfl := h.sameConfig
  have hdue : d.core.rebooting = true := h.due.mpr hall
  have haccepts := h.tally.accepts hlies hi token
  -- The upload is the one of the image, for in one that starts anew nothing is valid.
  have hn : d.core.upload.numBlocks = img.numBlocks := by
    by_contra hn
    have hvalid := (h.tally.valid i hi).mpr (sectors_subset_iff.mp hall i hi)
    have hstart : img.home inRam d.core.upload = d.core.upload.start inRam img.numBlocks :=
      if_neg hn
    rw [hstart, (Upload.start_started _ _ _).valid] at hvalid
    cases hvalid
  have hafter : img.afterPage inRam d.core.upload i token
      = { d.core.upload with blockNo := i, token } := by
    unfold afterPage
    rw [home_of_eq hn]
  have hwrites := haccepts.writesPage (by rw [payload_block hi, length_page hi])
  have hplan : (img.pageJob d.core.config inRam d.core.upload i token).forUpload.plan
      d.core.config.map d.core.rebooting d.lastWriter
      = { status := .rebooting, calls := [], access := none, lastWriter := d.lastWriter } := by
    unfold Job.plan
    rw [if_pos hdue]
  -- The job did not end well, so it is not credited.
  have hdeliver := Device.deliver_of_accepts h.phase h.disk (img.ofSectorFor?_sector _ i) haccepts
    hwrites hplan (Upload.credit_of_not_awaits _ (by simp [Upload.awaits]))
  refine ⟨_, _, Device.writeSector_of_accepts h.disk (img.ofSectorFor?_sector _ i) haccepts,
    hdeliver, ?_, rfl, ?_⟩
  · have hmem : img.sector d.core.config.familyId i ∈ sent := sectors_subset_iff.mp hall i hi
    have hsame : ∀ {s}, s ∈ sent ++ [img.sector d.core.config.familyId i] ↔ s ∈ sent := by
      intro s
      rw [List.mem_append, List.mem_singleton]
      exact ⟨fun hs => hs.elim id fun heq => heq ▸ hmem, .inl⟩
    have hsubset : img.sectors d.core.config.familyId
        ⊆ sent ++ [img.sector d.core.config.familyId i] := fun s hs => hsame.mpr (hall hs)
    have hprogress : (img.afterPage inRam d.core.upload i token).progress = .complete := by
      rw [hafter]
      exact h.complete.mpr hall
    have htally := h.tally.taken hlies hi token
    refine ⟨rfl, rfl, h.disk, { htally with
      valid := fun j hj => (htally.valid j hj).trans hsame.symm }, ?_, ?_⟩
    · exact iff_of_true (by rw [hdue]; rfl) hsubset
    · exact iff_of_true hprogress hsubset
  · show (img.afterPage inRam d.core.upload i token).validCount = d.core.upload.validCount
    rw [hafter]

end sector

/-- Sectors of the image can be delivered one after the other without end. -/
theorem Underway.deliverAll (hlies : ∀ i < img.numBlocks, img.Lies capacity inRam config.map i)
    {deliveries : List (UInt32 × Sector)} (h : img.Underway config capacity inRam sent d)
    (hsent : ∀ delivery ∈ deliveries, delivery.2 ∈ img.sectors config.familyId) :
    ∃ d', d.deliverAll deliveries = .ok d'
      ∧ img.Underway config capacity inRam (sent ++ deliveries.map Prod.snd) d' := by
  induction deliveries generalizing sent d with
  | nil =>
    rw [List.map_nil, List.append_nil]
    exact ⟨d, rfl, h⟩
  | cons delivery deliveries ih =>
    obtain ⟨token, sector⟩ := delivery
    obtain ⟨i, hi, rfl⟩ := mem_sectors.mp (hsent _ List.mem_cons_self)
    have hnext : ∃ d', d.deliver (token, img.sector config.familyId i) = .ok d'
        ∧ img.Underway config capacity inRam (sent ++ [img.sector config.familyId i]) d' := by
      by_cases hall : img.sectors config.familyId ⊆ sent
      · obtain ⟨-, d', -, hdeliver, h', -⟩ := h.deliver_due (hlies i hi) hi hall token
        exact ⟨d', hdeliver, h'⟩
      · obtain ⟨-, d', -, -, hdeliver, h', -⟩ := h.deliver_open (hlies i hi) hi hall token
        exact ⟨d', hdeliver, h'⟩
    obtain ⟨d', hdeliver, h'⟩ := hnext
    obtain ⟨d'', hrun, h''⟩ := ih h' fun x hx => hsent x (List.mem_cons_of_mem _ hx)
    refine ⟨d'', ?_, ?_⟩
    · unfold Device.deliverAll at hrun ⊢
      rw [List.foldlM_cons, hdeliver]
      exact hrun
    · rw [List.append_assoc] at h''
      exact h''

end underway

end PagedImage

/-! ### Whole deliveries -/

/-- There is a place for `n` pages from `base` on, and room for them in the books: they
    lie in RAM, or in flash that is made of whole erase sectors, all of them tracked. -/
def AddressMap.HasRoom (map : AddressMap) (ramBlocks flashBlocks erasedSectors : IndexSet)
    (base : UInt32) (n : Nat) : Prop :=
  (map.HasPages .ram base n ∧ n ≤ ramBlocks.capacity.toNat)
  ∨ map.TracksPages erasedSectors.capacity base n ∧ n ≤ flashBlocks.capacity.toNat
    ∧ ∀ region ∈ map, region.kind = .flash → region.Aligned

/-- The pages of an image for which there is room all lie in memory of one kind. -/
theorem PagedImage.exists_lies {img : PagedImage} {map : AddressMap}
    {ramBlocks flashBlocks erasedSectors : IndexSet} (hapart : map.Apart)
    (h : map.HasRoom ramBlocks flashBlocks erasedSectors img.base img.count) :
    ∃ inRam, (∀ i < img.numBlocks, img.Lies erasedSectors.capacity inRam map i)
      ∧ img.numBlocks ≤ (if inRam then ramBlocks else flashBlocks).capacity := by
  rcases h with ⟨hpages, hroom⟩ | ⟨hpages, hroom, haligned⟩
  · refine ⟨true, fun i hi => ?_, ?_⟩
    · have hram : img.inRam map i = true := by
        have hpage := hpages i.toNat (lt_count hi)
        rwa [UInt32.ofNat_toNat] at hpage
      exact ⟨hram, fun _ => hapart.findOf?_flash_eq_none hram, nofun⟩
    · rw [UInt32.le_iff_toNat_le, toNat_numBlocks]
      exact hroom
  · refine ⟨false, fun i hi => ?_, ?_⟩
    · obtain ⟨region, hregion, hlt⟩ := hpages i.toNat (lt_count hi)
      rw [UInt32.ofNat_toNat] at hregion hlt
      refine ⟨?_, nofun, fun _ => ⟨region, hregion, ?_, hlt⟩⟩
      · rw [← Bool.not_eq_true]
        intro hram
        have hnone := hapart.findOf?_flash_eq_none hram
        exact Option.some_ne_none region (hregion.symm.trans hnone)
      · exact haligned region (AddressMap.mem_of_findOf? hregion)
          (AddressMap.kind_of_findOf? hregion)
    · rw [UInt32.le_iff_toNat_le, toNat_numBlocks]
      exact hroom

/-- A device in any state that it can get to, with an idle worker and an open and
    empty disk, for which no reboot is due and whose upload has another number of
    blocks, is sent sectors of an image for which there is room. Each of them is
    queued. It is reported as written until all sectors of the image were sent, and the
    upload is complete exactly from then on. Any later one is refused, which changes
    neither memory nor the count. -/
theorem Watched.complete_once_all_sent {σ : Type} [Machine σ] {image : Bytes} {base : UInt32}
    {sectors : List Sector} (config : Config) (ramBlocks flashBlocks erasedSectors : IndexSet)
    (machine : σ) (moves : List Move) (w : Watched (Logged σ))
    (earlier : List (UInt32 × Sector)) (next : UInt32 × Sector) (hapart : config.map.Apart)
    (hpack : ImageFile.pack image base config.familyId = .ok sectors)
    (hroom : config.map.HasRoom ramBlocks flashBlocks erasedSectors base sectors.length)
    (hrun : (fresh config ramBlocks flashBlocks erasedSectors (Logged.new machine)).run moves
      = .ok w)
    (hphase : w.device.phase = .idle) (hdisk : w.device.core.disk = .empty)
    (hdue : w.device.core.rebooting = false)
    (hother : w.device.core.upload.numBlocks ≠ UInt32.ofNat sectors.length)
    (hsent : ∀ delivery ∈ earlier ++ [next], delivery.2 ∈ sectors) :
    ∃ d core d', w.device.deliverAll earlier = .ok d
      ∧ (d.core.upload.status.progress = .complete ↔ sectors ⊆ earlier.map Prod.snd)
      ∧ d.core.writeSector next.1 next.2 = .ok (core, true)
      ∧ d.deliver next = .ok d'
      ∧ (d'.core.upload.status.progress = .complete ↔
        sectors ⊆ (earlier ++ [next]).map Prod.snd)
      ∧ (¬ sectors ⊆ earlier.map Prod.snd → ∃ new,
        d'.machine.calls = .complete (.ack next.1 .ok) :: new ++ d.machine.calls
          ∧ ∀ call ∈ new, call.isComplete = false)
      ∧ (sectors ⊆ earlier.map Prod.snd →
        d'.machine = Machine.perform d.machine (.complete (.ack next.1 .rebooting))
          ∧ d'.core.upload.status.validCount = d.core.upload.status.validCount) := by
  obtain ⟨img, rfl, -, rfl⟩ := ImageFile.pack_eq_ok hpack
  rw [PagedImage.length_sectors] at hroom hother
  obtain ⟨inRam, hlies, hfits⟩ := PagedImage.exists_lies hapart hroom
  -- What is known of the reboot and of the sets holds wherever the device got to.
  obtain ⟨w', hrun', hlatched⟩ :=
    run_latched config ramBlocks flashBlocks erasedSectors machine moves
  cases hrun'.symm.trans hrun
  obtain ⟨rfl, hsizes⟩ := run_sameSizes (Upload.sound_onSets _ _ _) hrun
  have hstart : img.Underway w.device.core.config erasedSectors.capacity inRam [] w.device := by
    have hcapacity : w.device.core.upload.erasedSectors.capacity = erasedSectors.capacity :=
      hsizes.erasedSectors
    rw [← hcapacity]
    refine PagedImage.underway_start hphase hdisk hlatched.sound hdue hlatched.complete ?_ hother
    cases inRam with
    | true => exact hsizes.ramBlocks ▸ hfits
    | false => exact hsizes.flashBlocks ▸ hfits
  obtain ⟨d, hearlier, hd⟩ := hstart.deliverAll hlies fun delivery hmem =>
    hsent delivery (List.mem_append_left _ hmem)
  rw [List.nil_append] at hd
  obtain ⟨token, sector⟩ := next
  obtain ⟨i, hi, rfl⟩ := PagedImage.mem_sectors.mp
    (hsent (token, sector) (List.mem_append_right _ List.mem_cons_self))
  rw [List.map_append, List.map_singleton]
  by_cases hall : img.sectors w.device.core.config.familyId ⊆ earlier.map Prod.snd
  · obtain ⟨core, d', hwrite, hdeliver, hd', hmachine, hcount⟩ :=
      hd.deliver_due (hlies i hi) hi hall token
    exact ⟨d, core, d', hearlier, hd.complete, hwrite, hdeliver, hd'.complete,
      fun hmissing => absurd hall hmissing, fun _ => ⟨hmachine, hcount⟩⟩
  · obtain ⟨core, d', new, hwrite, hdeliver, hd', hmachine, hquiet⟩ :=
      hd.deliver_open (hlies i hi) hi hall token
    refine ⟨d, core, d', hearlier, hd.complete, hwrite, hdeliver, hd'.complete,
      fun _ => ⟨new.reverse, ?_, ?_⟩, fun hsent => absurd hsent hall⟩
    · rw [hmachine, Logged.calls_performAll, List.reverse_append]
      rfl
    · intro call hcall
      exact hquiet call (List.mem_reverse.mp hcall)

/-- The board with flash, to which nothing was sent yet. -/
def untouchedBoard : Watched (Logged MemoryMachine) :=
  .fresh flashBoard (IndexSet.empty 1) (IndexSet.empty 1) (IndexSet.empty 1)
    (Logged.new (MemoryMachine.new default))

namespace Watched

/-- The two sectors of the image are not the same. -/
theorem sectorsOfTwo_not_subset {rest : List Sector}
    (h : ∀ s ∈ rest, s = (pageOfTwo 0x10000100 1).toSector) : ¬ sectorsOfTwo ⊆ rest := by
  intro hsub
  have hsame := h _ (hsub List.mem_cons_self)
  have hread : (.ok (pageOfTwo 0x10000000 0) : Except Unusable Block)
      = .ok (pageOfTwo 0x10000100 1) :=
    calc _ = Block.ofSectorFor? (pageOfTwo 0x10000000 0).toSector flashBoard.familyId :=
          ofSectorFor?_pageOfTwo.symm
      _ = Block.ofSectorFor? (pageOfTwo 0x10000100 1).toSector flashBoard.familyId := by rw [hsame]
      _ = _ := ofSectorFor?_pageOfTwo
  have hheader := congrArg Block.header (Except.ok.inj hread)
  exact absurd (congrArg Header.blockNo hheader) (by decide)

/-- The second page comes twice, under the same token, and then the first one comes: only
    then is the image complete. When the second page comes once more, it is refused. -/
theorem complete_once_all_sent_twoPages :
    flashBoard.map.Apart
      ∧ ImageFile.pack (twoPages 0x2A) 0x10000000 flashBoard.familyId = .ok sectorsOfTwo
      ∧ flashBoard.map.HasRoom (IndexSet.empty 1) (IndexSet.empty 1) (IndexSet.empty 1) 0x10000000 2
      ∧ untouchedBoard.run [] = .ok untouchedBoard ∧ untouchedBoard.device.phase = .idle
      ∧ untouchedBoard.device.core.disk = .empty
      ∧ untouchedBoard.device.core.rebooting = false
      ∧ untouchedBoard.device.core.upload.numBlocks ≠ 2
      ∧ ∃ d d' d'', untouchedBoard.device.deliverAll
            [(7, (pageOfTwo 0x10000100 1).toSector), (7, (pageOfTwo 0x10000100 1).toSector)] = .ok d
        ∧ d.core.upload.status.progress ≠ .complete
        ∧ d.deliver (8, (pageOfTwo 0x10000000 0).toSector) = .ok d'
        ∧ d'.core.upload.status.progress = .complete
        ∧ (∃ new, d'.machine.calls = .complete (.ack 8 .ok) :: new)
        ∧ d'.deliver (9, (pageOfTwo 0x10000100 1).toSector) = .ok d''
        ∧ d''.machine = Machine.perform d'.machine (.complete (.ack 9 .rebooting)) := by
  let page₀ : Sector := (pageOfTwo 0x10000000 0).toSector
  let page₁ : Sector := (pageOfTwo 0x10000100 1).toSector
  have hroom : flashBoard.map.HasRoom (IndexSet.empty 1) (IndexSet.empty 1) (IndexSet.empty 1)
      0x10000000 2 :=
    .inr ⟨tracksPages_flashBoard, by decide, wellFormed_flashBoard.flashAligned⟩
  have hother : untouchedBoard.device.core.upload.numBlocks ≠ 2 := by decide
  obtain ⟨d, core, d', hearlier, hopen, -, hnext, hcomplete, hok, -⟩ :=
    complete_once_all_sent flashBoard (IndexSet.empty 1) (IndexSet.empty 1)
      (IndexSet.empty 1) (MemoryMachine.new default) [] untouchedBoard [(7, page₁), (7, page₁)]
      (8, page₀) wellFormed_flashBoard.apart pack_twoPages hroom rfl rfl rfl rfl hother
      (by simp [sectorsOfTwo, page₀, page₁])
  have hmissing : ¬ sectorsOfTwo ⊆ [(7, page₁), ((7 : UInt32), page₁)].map Prod.snd :=
    sectorsOfTwo_not_subset (by simp [page₁])
  have hall : sectorsOfTwo ⊆ [(7, page₁), (7, page₁), ((8 : UInt32), page₀)].map Prod.snd := by
    simp [sectorsOfTwo, page₀, page₁]
  obtain ⟨new, hcalls, -⟩ := hok hmissing
  -- From here on the device has got all there is.
  obtain ⟨e, core', d'', hearlier', -, -, hlast, -, -, hrefused⟩ :=
    complete_once_all_sent flashBoard (IndexSet.empty 1) (IndexSet.empty 1)
      (IndexSet.empty 1) (MemoryMachine.new default) [] untouchedBoard
      [(7, page₁), (7, page₁), (8, page₀)] (9, page₁) wellFormed_flashBoard.apart pack_twoPages
      hroom rfl rfl rfl rfl hother (by simp [sectorsOfTwo, page₀, page₁])
  obtain rfl : d' = e :=
    Except.ok.inj ((Device.deliverAll_snoc hearlier hnext).symm.trans hearlier')
  exact ⟨wellFormed_flashBoard.apart, pack_twoPages, hroom, rfl, rfl, rfl, rfl, hother, d, d', d'',
    hearlier, fun h => hmissing (hopen.mp h), hnext, hcomplete.mpr hall, ⟨_, hcalls⟩, hlast,
    (hrefused hall).1⟩

end Watched

end Reflash
