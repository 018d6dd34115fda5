import Reflash.Proofs.ImageRuns
/-! # A complete image starts

  The loader has just been started, on any chip, and gets the sectors of an image for
  flash, in any order and as often as one likes. When the last one was written, a reset is
  armed. After it the chip starts from flash, whatever the timer's registers held when the
  loader was started, and the loader starts the image if its first two words are fit for
  it, and goes into update mode if they are not.

  This goes through a reset, which keeps flash and the scratch words of the timer and may
  change everything else.
-/

namespace Reflash

namespace Loader

open Rp2040 (Chip flashRegion timerOf)

namespace Attended

/-! ### From the start to the reset and behind -/

/-- The loader when it has just entered update mode on a chip, with an endpoint that will
    take bytes as the script says. -/
def inUpdateMode (c : Chip) (script : List WriteResult) : Attended Chip :=
  ⟨{ UpdateMode.service c with endpoint := { Endpoint.idle with script } }, .away, []⟩

/-- When the loader has just entered update mode, nothing is in the way of an image. -/
theorem onCourse_inUpdateMode (img : PagedImage) {c : Chip} (script : List WriteResult)
    (hnote : (timerOf c.memory).get RebootTimer.noteRegister = 0) :
    OnCourse img (startUpload c).erasedSectors.capacity
      (inUpdateMode c script).service.device := by
  have hidle : (startUpload c).progress = .idle := if_pos rfl
  refine ⟨rfl, ⟨?_, ?_⟩, ?_, ?_, hnote, fun hcomplete => ?_, fun hdue => ?_⟩
  · exact img.steady_withMemory config (startUpload c).ramBlocks (startUpload c).flashBlocks
      (startUpload c).erasedSectors c.memory
  · exact img.faithful_withMemory config (startUpload c).ramBlocks (startUpload c).flashBlocks
      (startUpload c).erasedSectors c.memory
  · intro job hjob
    cases hjob
  · intro origin job hheld
    cases hheld
  · exact absurd (hidle.symm.trans hcomplete) Progress.noConfusion
  · cases hdue

theorem quiet_inUpdateMode (c : Chip) (script : List WriteResult) :
    (inUpdateMode c script).Quiet := ⟨rfl, rfl, rfl, Nat.zero_le 1⟩

/-- No sector was sent yet. -/
theorem tally_inUpdateMode {img : PagedImage} (c : Chip)
    (hplace : ∀ k < img.count,
      (imageRegion false).covers (img.base + UInt32.ofNat k * pageSize) pageSize = true) :
    img.Tally config (startUpload c).erasedSectors.capacity false [] (startUpload c) :=
  PagedImage.tally_start (fun hn => absurd rfl hn) rfl (numBlocks_le c hplace)
    img.numBlocks_ne_zero.symm

end Attended

/-- An image at the start of the flash of applications that is no larger has its place
    there. -/
theorem covers_of_fits {img : PagedImage} (hbase : img.base = appBase)
    (hfits : 256 * img.count ≤ appSize.toNat) : ∀ k < img.count,
    (imageRegion false).covers (img.base + UInt32.ofNat k * pageSize) pageSize = true := by
  intro k hk
  have haddr := PagedImage.toNat_addr (PagedImage.ofNat_lt hk)
  have hstart : appBase.toNat = 0x10010000 := rfl
  have hsize : appSize.toNat = 0xFF0000 := rfl
  have hregion : (imageRegion false).base.toNat = 0x10010000
      ∧ (imageRegion false).len.toNat = 0xFF0000 := ⟨rfl, rfl⟩
  rw [PagedImage.toNat_ofNat hk, hbase, hstart] at haddr
  refine (Region.covers_iff (by decide)).mpr ?_
  rw [show img.base + UInt32.ofNat k * pageSize = img.addr (UInt32.ofNat k) from rfl, haddr,
    hregion.1, hregion.2, toNat_pageSize]
  omega

/-- The first two words of an image that flash holds are the vector table that is looked
    at. -/
theorem inMemory_of_holds {img : PagedImage} {m : Memory} {table : VectorTable}
    (hbase : img.base = appBase) (hholds : ∀ i < img.numBlocks, img.Holds m i)
    (htable : img.bytes.take 8
      = (Word.bytes table.stack).toList ++ (Word.bytes table.reset).toList) :
    VectorTable.inMemory m appBase = table := by
  have hstart : appBase.toNat = 0x10010000 := rfl
  have hsize : UInt32.size = 4294967296 := rfl
  have hfirst : 0 < img.numBlocks := UInt32.pos_iff_ne_zero.mpr img.numBlocks_ne_zero
  have hlength : ∀ w : UInt32, (Word.bytes w).toList.length = 4 := fun _ => Vector.length_toList
  have hbyte : ∀ k < 8, m.byte (appBase + UInt32.ofNat k)
      = ((Word.bytes table.stack).toList ++ (Word.bytes table.reset).toList).getD k 0 := by
    intro k hk
    have haddr : (appBase + UInt32.ofNat k).toNat = 0x10010000 + k :=
      Memory.toNat_add_ofNat (by omega) hk
    have hpage : img.InPage 0 (appBase + UInt32.ofNat k) := by
      unfold PagedImage.InPage
      rw [PagedImage.toNat_addr hfirst, hbase, haddr]
      have hzero : (0 : UInt32).toNat = 0 := rfl
      omega
    rw [hholds 0 hfirst _ hpage, PagedImage.want, haddr, hbase, hstart, Nat.add_sub_cancel_left,
      ← htable, List.getD_eq_getElem?_getD, List.getD_eq_getElem?_getD, List.getElem?_take_of_lt hk]
  have hstack : m.word appBase = table.stack := by
    refine Memory.word_of_bytes fun k hk => ?_
    rw [hbyte k (by omega), List.getD_append _ _ _ _ (by rw [hlength]; exact hk)]
  have hreset : m.word (appBase + 4) = table.reset := by
    refine Memory.word_of_bytes fun k hk => ?_
    have haddr : appBase + 4 + UInt32.ofNat k = appBase + UInt32.ofNat (4 + k) := by
      rw [UInt32.add_assoc, UInt32.ofNat_add]
      rfl
    rw [haddr, hbyte (4 + k) (by omega), List.getD_append_right _ _ _ _ (by rw [hlength]; omega),
      hlength, Nat.add_sub_cancel_left]
  unfold VectorTable.inMemory
  rw [hstack, hreset]

/-- After a reset that keeps flash and the scratch words, the chip starts from flash, and
    the loader starts the image if its first two words are fit for it. -/
theorem Due.starts {img : PagedImage} {m : Memory} {table : VectorTable} (h : Due img m)
    (hnote : (timerOf m).get RebootTimer.noteRegister = 0) (hbase : img.base = appBase)
    (hplace : ∀ k < img.count,
      (imageRegion false).covers (img.base + UInt32.ofNat k * pageSize) pageSize = true)
    (htable : img.bytes.take 8
      = (Word.bytes table.stack).toList ++ (Word.bytes table.reset).toList)
    {r : Chip} (hflash : ∀ a, flashRegion.contains a = true → r.memory.byte a = m.byte a)
    (hscratch : (timerOf r.memory).scratch = (timerOf m).scratch) :
    (timerOf r.memory).bootTarget = none
      ∧ (table.Valid → ∃ c, startUp r .high = .application c table)
      ∧ (¬ table.Valid → ∃ c, startUp r .high = .updateMode c) := by
  obtain ⟨hholds, t, harmed⟩ := h
  have htarget : (timerOf r.memory).bootTarget = none := by
    rw [RebootTimer.bootTarget_of_scratch hscratch, harmed]
    exact RebootTimer.bootTarget_arm t rfl
  have hclear : (timerOf r.memory).get RebootTimer.noteRegister ≠ RebootTimer.updateMagic := by
    rw [show (timerOf r.memory).get RebootTimer.noteRegister = 0 from
      (RebootTimer.get_of_scratch hscratch 0).trans hnote]
    decide
  have hmemory : VectorTable.inMemory r.memory appBase = table := by
    refine inMemory_of_holds hbase (fun i hi a ha => ?_) htable
    have hcontains : (imageRegion false).contains a = true :=
      Region.contains_of_covers (by decide) (covers_page hplace hi) ha.1 ha.2
    have happ : 0x10010000 ≤ a.toNat ∧ a.toNat < 0x10010000 + 0xFF0000 :=
      Region.contains_iff.mp hcontains
    refine (hflash a (Region.contains_iff.mpr ?_)).trans (hholds i hi a ha)
    show 0x10000000 ≤ a.toNat ∧ a.toNat < 0x10000000 + 0x1000000
    omega
  exact ⟨htarget, startUp_high hclear hmemory, startUp_of_not_valid .high hmemory⟩

/-- From the start of update mode, whatever was in memory and in the registers before: while
    the sectors of an image for the flash of applications come in, in any order and as often
    as one likes, and wherever the interrupt comes, the loader goes on. When it reports the
    image as complete, a reset is armed, and it stays so. If flash and the scratch words are
    kept, the chip starts from flash then. With the pin high the loader starts the image if
    its first two words are a stack pointer and an entry point that it may have, and with
    just these; and it goes into update mode if they are not. -/
theorem Attended.image_starts {c c' : Chip} {pin : PinLevel} {image : Bytes}
    {sectors : List Sector} {table : VectorTable} (hstart : startUp c pin = .updateMode c')
    (hpack : ImageFile.pack image appBase Header.rp2040Family = .ok sectors)
    (hfits : 256 * sectors.length ≤ appSize.toNat)
    (htable : (ImageFile.padded image).take 8
      = (Word.bytes table.stack).toList ++ (Word.bytes table.reset).toList)
    (script : List WriteResult) (actions later : List Action) :
    ∃ v w, (inUpdateMode c' script).run actions = .ok v ∧ v.run later = .ok w
      ∧ ((∀ token command, .asked token command ∈ w.log → command.GoesWith sectors) →
        (inUpdateMode c' script).KeepsUp (actions ++ later) →
        v.service.device.core.upload.progress = .complete →
        w.service.device.core.rebooting = true
          ∧ (∃ t : RebootTimer, timerOf w.service.chip.memory = t.arm ⟨0, 0, Rp2040.rebootDelayMs⟩)
          ∧ ∀ r : Chip,
            (∀ a, flashRegion.contains a = true →
              r.memory.byte a = w.service.chip.memory.byte a) →
            (timerOf r.memory).scratch = (timerOf w.service.chip.memory).scratch →
            (timerOf r.memory).bootTarget = none
              ∧ (table.Valid → ∃ c₂, startUp r .high = .application c₂ table)
              ∧ (¬ table.Valid → ∃ c₂, startUp r .high = .updateMode c₂)) := by
  obtain ⟨img, hbase, hbytes, rfl⟩ := ImageFile.pack_eq_ok hpack
  have hplace : ∀ k < img.count,
      (imageRegion false).covers (img.base + UInt32.ofNat k * pageSize) pageSize = true :=
    covers_of_fits hbase (by rwa [PagedImage.length_sectors] at hfits)
  have hlies : ∀ i < img.numBlocks, img.Lies (startUpload c').erasedSectors.capacity false map i :=
    fun i hi => lies_page c' hplace hi
  have himage : ∀ i < img.numBlocks, ∀ a, img.InPage i a → IsImageAddr a :=
    fun i hi a ha => isImageAddr_of_inPage hplace hi ha
  have hfresh : (inUpdateMode c' script).Runs config := ⟨Upload.sound_reset (startUpload c'), rfl⟩
  obtain ⟨v, hv, hvruns, -⟩ := run_chip hfresh actions
  obtain ⟨w, hw, -, -⟩ := run_chip hvruns later
  refine ⟨v, w, hv, hw, fun hgoes hpace hcomplete => ?_⟩
  -- The image is complete after the first part of the run, and stays in flash in the second.
  obtain ⟨hvcourse, -⟩ := onCourse_run hlies himage
    (onCourse_inUpdateMode img script (note_of_updateMode hstart)) hv
    (fun token command hasked => hgoes token command ((log_run hw).subset hasked))
    fun earlier rest x hsplit hx => hpace earlier (rest ++ later) x
      (by rw [hsplit, List.append_assoc]) hx
  obtain ⟨hwcourse, hstays⟩ := onCourse_run hlies himage hvcourse hw hgoes
    fun earlier rest x hsplit hx => hpace (actions ++ earlier) rest x
      (by rw [hsplit, List.append_assoc]) ((run_append hv).trans hx)
  have hdue := hstays (hvcourse.complete hcomplete)
  have hready := hwcourse.due hdue
  exact ⟨hdue, hready.armed, fun r hflash hscratch =>
    hready.starts hwcourse.note hbase hplace (hbytes ▸ htable) hflash hscratch⟩

/-! A small application. With 256 zeros it takes two pages. -/

/-- A stack that ends with RAM, and an entry point. -/
def smallTable : VectorTable := ⟨0x20042000, 0x10010101⟩

/-- An application that is nothing but these and some zeros. -/
def smallImage (zeros : Nat) : Bytes :=
  (Word.bytes smallTable.stack).toList ++ (Word.bytes smallTable.reset).toList
    ++ List.replicate zeros 0

theorem take_padded_smallImage (zeros : Nat) : (ImageFile.padded (smallImage zeros)).take 8
    = (Word.bytes smallTable.stack).toList ++ (Word.bytes smallTable.reset).toList := by
  unfold ImageFile.padded smallImage
  rw [List.append_assoc]
  exact List.take_left' rfl

theorem exists_smallImage {zeros : Nat} (hfew : zeros ≤ 504) :
    ∃ img : PagedImage, img.base = appBase ∧ img.count = (zeros + 263) / 256
      ∧ ImageFile.pack (smallImage zeros) appBase Header.rp2040Family
        = .ok (img.sectors config.familyId) := by
  have hlength : (smallImage zeros).length = 8 + zeros := by
    unfold smallImage
    rw [List.length_append, List.length_replicate]
    rfl
  have hstart : appBase.toNat = 0x10010000 := rfl
  have hsize : UInt32.size = 4294967296 := rfl
  obtain ⟨sectors, hpack⟩ : ∃ sectors, ImageFile.pack (smallImage zeros) appBase
      Header.rp2040Family = .ok sectors :=
    ImageFile.exists_pack_eq_ok _ (by omega) (by decide) (by omega)
  have hcount := ImageFile.length_pack hpack
  obtain ⟨img, hbase, -, rfl⟩ := ImageFile.pack_eq_ok hpack
  rw [PagedImage.length_sectors, hlength] at hcount
  exact ⟨img, hbase, by omega, hpack⟩

/-- The two pages of an image come in the wrong order. -/
def backwards (first second : Sector) : List Action :=
  Attended.ask (.forSector 1 second) ++ [.take, .carryOut] ++ [.finish]
    ++ (Attended.ask (.forSector 0 first) ++ [.take, .carryOut] ++ [.finish])

/-- Then the image is complete. -/
theorem run_backwards {img : PagedImage} (hcount : img.count = 2)
    (hplace : ∀ k < img.count,
      (imageRegion false).covers (img.base + UInt32.ofNat k * pageSize) pageSize = true)
    (c : Chip) :
    ∃ v, (Attended.inUpdateMode c []).run
        (backwards (img.sector config.familyId 0) (img.sector config.familyId 1)) = .ok v
      ∧ v.view.asked.map Prod.snd = [.forSector 0 (img.sector config.familyId 0),
          .forSector 1 (img.sector config.familyId 1)]
      ∧ v.service.device.core.upload.progress = .complete := by
  have hfirst : 0 < img.numBlocks := PagedImage.ofNat_lt (show 0 < img.count by omega)
  have hsecond : 1 < img.numBlocks := PagedImage.ofNat_lt (show 1 < img.count by omega)
  have hlies : ∀ i < img.numBlocks, img.Lies (startUpload c).erasedSectors.capacity false map i :=
    fun i hi => lies_page c hplace hi
  have hsectors := img.sectors_of_two hcount config.familyId
  obtain ⟨w, request, hrun, hw, hrequest⟩ := (Attended.quiet_inUpdateMode c []).deliver rfl rfl
    (Attended.tally_inUpdateMode c hplace) (hlies 1 hsecond) hsecond rfl rfl 1
  -- The first page is missing, so no reboot is due yet.
  have hnone : request.isSome = false := by
    rw [← Bool.not_eq_true]
    intro hsome
    have hsub := (hrequest.mp hsome).2
    rw [hsectors] at hsub
    have hsame := List.mem_singleton.mp (hsub List.mem_cons_self)
    exact absurd (PagedImage.sector_injective hsame) (by decide)
  obtain ⟨v, request', hrun', hv, -⟩ := hw.quiet.deliver (hw.sameConfig.trans rfl)
    (hw.sameFence.trans rfl) hw.tally (hlies 0 hfirst) hfirst hw.phase (hw.due.trans hnone) 0
  obtain ⟨token, hasked⟩ := hw.asked
  obtain ⟨token', hasked'⟩ := hv.asked
  refine ⟨v, Attended.run_trans hrun hrun', ?_, ?_⟩
  · rw [hasked', hasked]
    rfl
  · refine (hv.tally.complete_iff hv.numBlocks).mpr ?_
    rw [hsectors]
    simp

/-- The pages of such an application come in the wrong order, and after the reset it is
    started. -/
theorem Attended.image_starts_twoPages :
    ∃ (c : Chip) (first second : Sector) (v : Attended Chip),
      startUp .unused .low = .updateMode c
      ∧ ImageFile.pack (smallImage 256) appBase Header.rp2040Family = .ok [first, second]
      ∧ 256 * [first, second].length ≤ appSize.toNat
      ∧ (ImageFile.padded (smallImage 256)).take 8
        = (Word.bytes smallTable.stack).toList ++ (Word.bytes smallTable.reset).toList
      ∧ (inUpdateMode c []).run (backwards first second) = .ok v
      ∧ (∀ token command, .asked token command ∈ v.log → command.GoesWith [first, second])
      ∧ (inUpdateMode c []).KeepsUp (backwards first second)
      ∧ v.service.device.core.upload.progress = .complete
      ∧ ∃ c', startUp v.service.chip .high = .application c' smallTable := by
  obtain ⟨c, hstart⟩ := startUp_low .unused
  obtain ⟨img, hbase, hcount, hpack⟩ := exists_smallImage (show 256 ≤ 504 by decide)
  have hsectors := img.sectors_of_two hcount config.familyId
  have hfits : 256 * (img.sectors config.familyId).length ≤ appSize.toNat := by
    rw [hsectors]
    show 256 * 2 ≤ appSize.toNat
    decide
  have hplace := covers_of_fits hbase (by rwa [PagedImage.length_sectors] at hfits)
  obtain ⟨v, hrun, hasked, hcomplete⟩ := run_backwards hcount hplace c
  have hgoes : ∀ token command, .asked token command ∈ v.log →
      command.GoesWith (img.sectors config.familyId) := by
    intro token command hmem
    have hlogged : (token, command) ∈ v.view.asked := List.mem_filterMap.mpr ⟨_, hmem, rfl⟩
    have hmem' := List.mem_map_of_mem (f := Prod.snd) hlogged
    rw [hasked] at hmem'
    rw [hsectors]
    simp only [List.mem_cons, List.not_mem_nil, or_false] at hmem'
    rcases hmem' with rfl | rfl
    · exact Command.goesWith_forSector 0 (by simp)
    · exact Command.goesWith_forSector 1 (by simp)
  have hfew : v.view.asked.length + 1 < UInt32.size := by
    rw [← List.length_map Prod.snd, hasked]
    show 2 + 1 < UInt32.size
    decide
  have hpace := keepsUp_of_few (c := c) hrun hfew
  obtain ⟨v', w, hv', hw, hboots⟩ := image_starts hstart hpack hfits (take_padded_smallImage 256) []
    (backwards (img.sector config.familyId 0) (img.sector config.familyId 1)) []
  rw [hrun] at hv'
  cases hv'
  cases hw
  obtain ⟨-, -, hreset⟩ := hboots hgoes (by rw [List.append_nil]; exact hpace) hcomplete
  obtain ⟨-, happlication, -⟩ := hreset v.service.chip (fun _ _ => rfl) rfl
  have hvalid : smallTable.Valid := smallTable.isBootable_iff.mp (by decide)
  rw [hsectors] at hpack hgoes hfits
  exact ⟨c, _, _, v, hstart, hpack, hfits, take_padded_smallImage 256, hrun, hgoes, hpace,
    hcomplete, happlication hvalid⟩

/-! Where the tokens go round. -/

/-- The loader has the job of the second page of two when so many questions come in that
    the sector of the first page gets the token of that job. -/
def confusion (first second : Sector) : List Action :=
  Attended.ask (.forSector 1 second) ++ [.take, .carryOut]
    ++ (List.replicate (2 ^ 32 - 1) (Attended.ask .getStatus)).flatten
    ++ Attended.ask (.forSector 0 first) ++ [.finish]

/-- Then the sector of the second page comes in again. -/
def overrun (first second : Sector) : List Action :=
  confusion first second ++ (Attended.ask (.forSector 1 second) ++ [.take, .carryOut]) ++ [.finish]

section overrun

variable {img : PagedImage} {capacity i j a : UInt32} {job : Job} {w : Attended Chip}

/-- A page that was never written stays blank when another one is. -/
theorem byte_pageCall_of_blank (hlies : ∀ i < img.numBlocks, img.Lies capacity false map i)
    {c : Chip} (hjob : img.IsJob map i capacity job) (hj : j < img.numBlocks) (hne : i ≠ j)
    (ha : img.InPage j a) (himage : IsImageAddr a) (hblank : c.memory.byte a = 0xFF) :
    (Machine.perform c (job.pageCall map)).memory.byte a = 0xFF := by
  obtain ⟨old, hbyte, hold⟩ := PagedImage.byte_written_flash (m := c.memory) wellFormed_map hjob
    (hlies i hjob.lt).kind a
  have hother : ¬ img.InPage i a := fun hi => hne (hi.eq hjob.lt hj ha)
  rw [c.byte_pageCall himage hjob, hbyte, if_neg hother]
  rcases hold with ⟨-, -, rfl⟩ | ⟨-, rfl⟩
  · rfl
  · exact hblank

/-- The first page counts as sent, and it was never written. -/
structure Confused (img : PagedImage) (capacity : UInt32) (w : Attended Chip) : Prop where
  quiet : w.Quiet
  sameConfig : w.service.device.core.config = config
  isOpen : w.service.device.core.disk.fence = none
  phase : w.service.device.phase = .idle
  due : w.service.device.core.rebooting = false
  tally : img.Tally config capacity false [img.sector config.familyId 0]
    w.service.device.core.upload
  blank : ∀ a, img.InPage 0 a → w.service.chip.memory.byte a = 0xFF
  asked : ∀ token command, (token, command) ∈ w.view.asked →
    command.GoesWith (img.sectors config.familyId)

variable (hcount : img.count = 2)
  (hplace : ∀ k < img.count,
    (imageRegion false).covers (img.base + UInt32.ofNat k * pageSize) pageSize = true)

include hcount hplace

/-- What is done for the second page is credited to the first one. -/
theorem run_confusion {c : Chip} (hblank : ∀ a, img.InPage 0 a → c.memory.byte a = 0xFF) :
    ∃ v, (Attended.inUpdateMode c []).run
        (confusion (img.sector config.familyId 0) (img.sector config.familyId 1)) = .ok v
      ∧ Confused img (startUpload c).erasedSectors.capacity v := by
  have hfirst : 0 < img.numBlocks := PagedImage.ofNat_lt (show 0 < img.count by omega)
  have hsecond : 1 < img.numBlocks := PagedImage.ofNat_lt (show 1 < img.count by omega)
  have hlies : ∀ i < img.numBlocks, img.Lies (startUpload c).erasedSectors.capacity false map i :=
    fun i hi => lies_page c hplace hi
  have htally := Attended.tally_inUpdateMode c hplace
  have hmember : ∀ i < img.numBlocks, img.sector config.familyId i ∈ img.sectors config.familyId :=
    fun i hi => PagedImage.mem_sectors.mpr ⟨i, hi, rfl⟩
  -- The second page is written, and the questions come in.
  obtain ⟨w₁, hrun₁, h₁⟩ := (Attended.quiet_inUpdateMode c []).page rfl rfl htally
    (hlies 1 hsecond) hsecond rfl rfl 1
  obtain ⟨w₂, hrun₂, h₂⟩ := h₁.quiet.askStatus h₁.completions (2 ^ 32 - 1)
  have hcore₂ := h₂.core.trans h₁.core
  have htoken : w₂.service.nextToken = 1 := by
    rw [h₂.token, h₁.token, List.length_replicate]
    show (1 + 1 + UInt32.ofNat (2 ^ 32 - 1) : UInt32) = 1
    decide
  -- The sector of the first page gets the token of the job that the worker has.
  have htally₂ : img.Tally config (startUpload c).erasedSectors.capacity false []
      w₂.service.device.core.upload := by
    rw [hcore₂]
    exact htally.taken (hlies 1 hsecond) hsecond _
  obtain ⟨w₃, hrun₃, h₃⟩ := h₂.quiet.sector (by rw [hcore₂]; rfl) (by rw [hcore₂]; rfl) htally₂
    (hlies 0 hfirst) hfirst 0
  let done : Job :=
    { (img.pageJob config false (startUpload c) 1 1).forUpload with result := some .ok }
  have hawaits :
      (img.afterPage false w₂.service.device.core.upload 0 w₂.service.nextToken).awaits done
        = true := by
    rw [htoken]
    exact htally₂.awaits rfl
  obtain ⟨u, request, hcredit, hu, -, hrequest⟩ := htally₂.credit_of_awaits (hlies 0 hfirst) hfirst
    w₂.service.nextToken hawaits
  -- The second sector is missing still, so no reboot is asked for.
  obtain rfl : request = none := by
    cases request with
    | none => rfl
    | some r =>
      have hmem := (hrequest.mp rfl).2 (hmember 1 hsecond)
      have hsame := PagedImage.sector_injective (List.mem_singleton.mp hmem)
      exact absurd hsame (by decide)
  have hconfig₃ : w₃.service.device.core.config = config := by
    rw [h₃.core, hcore₂]
    rfl
  obtain ⟨w₄, hrun₄, h₄⟩ := h₃.quiet.credit h₃.completions
    (h₃.phase.trans (h₂.phase.trans h₁.phase)) rfl (by rw [hconfig₃, h₃.core]; exact hcredit)
  have hchip : w₄.service.chip = Machine.perform c (done.pageCall map) :=
    h₄.chip.trans (h₃.chip.trans (h₂.chip.trans h₁.chip))
  have hjob : img.IsJob map 1 (startUpload c).erasedSectors.capacity done :=
    (htally.isJob (hlies 1 hsecond) hsecond wellFormed_map 1).withResult _
  obtain ⟨token₁, hasked₁⟩ := h₁.asked
  refine ⟨w₄, ?_, h₄.quiet, ?_, ?_, h₄.phase, ?_, ?_, fun a ha => ?_, fun token command hmem => ?_⟩
  · exact Attended.run_trans (Attended.run_trans (Attended.run_trans hrun₁ hrun₂) hrun₃) hrun₄
  · rw [h₄.core]
    exact hconfig₃
  · rw [h₄.core, h₃.core, hcore₂]
    rfl
  · rw [h₄.core, h₃.core, hcore₂]
    rfl
  · rw [h₄.core]
    exact hu
  · rw [hchip]
    exact byte_pageCall_of_blank hlies hjob hfirst (by decide) ha
      (isImageAddr_of_inPage hplace hfirst ha) (hblank a ha)
  · rw [h₄.asked] at hmem
    rcases h₃.mem_asked hmem with hsector | hmem
    · obtain rfl : command = _ := List.mem_singleton.mp hsector
      exact Command.goesWith_forSector 0 (hmember 0 hfirst)
    · rcases h₂.mem_asked hmem with hquestion | hmem
      · obtain rfl : command = _ := List.eq_of_mem_replicate hquestion
        exact .getStatus
      · rw [hasked₁] at hmem
        cases List.mem_singleton.mp hmem
        exact Command.goesWith_forSector 1 (hmember 1 hsecond)

/-- The second page is sent again, and that makes the image complete. -/
theorem run_overrun {c : Chip} (hblank : ∀ a, img.InPage 0 a → c.memory.byte a = 0xFF) :
    ∃ v, (Attended.inUpdateMode c []).run
        (overrun (img.sector config.familyId 0) (img.sector config.familyId 1)) = .ok v
      ∧ (∀ token command, (token, command) ∈ v.view.asked →
        command.GoesWith (img.sectors config.familyId))
      ∧ v.service.device.core.upload.progress = .complete
      ∧ v.service.device.core.rebooting = true
      ∧ ∀ a, img.InPage 0 a → v.service.chip.memory.byte a = 0xFF := by
  have hfirst : 0 < img.numBlocks := PagedImage.ofNat_lt (show 0 < img.count by omega)
  have hsecond : 1 < img.numBlocks := PagedImage.ofNat_lt (show 1 < img.count by omega)
  have hlies : ∀ i < img.numBlocks, img.Lies (startUpload c).erasedSectors.capacity false map i :=
    fun i hi => lies_page c hplace hi
  obtain ⟨w, hrun, hw⟩ := run_confusion hcount hplace hblank
  obtain ⟨v, request, hrun₁, h₁, hrequest⟩ := hw.quiet.deliver hw.sameConfig hw.isOpen hw.tally
    (hlies 1 hsecond) hsecond hw.phase hw.due 1
  have hall : img.sectors config.familyId
      ⊆ [img.sector config.familyId 0] ++ [img.sector config.familyId 1] := by
    rw [img.sectors_of_two hcount]
    exact List.Subset.refl _
  have hmissing : ¬ img.sectors config.familyId ⊆ [img.sector config.familyId 0] := by
    intro hmem
    have hsame := List.mem_singleton.mp (hmem (PagedImage.mem_sectors.mpr ⟨1, hsecond, rfl⟩))
    exact absurd (PagedImage.sector_injective hsame) (by decide)
  have hasks : request.isSome = true := hrequest.mpr ⟨hmissing, hall⟩
  obtain ⟨token₁, hasked₁⟩ := h₁.asked
  refine ⟨v, ?_, fun token command hmem => ?_, ?_, h₁.due.trans hasks, fun a ha => ?_⟩
  · unfold overrun
    rw [List.append_assoc]
    exact Attended.run_trans hrun hrun₁
  · rw [hasked₁] at hmem
    rcases List.mem_cons.mp hmem with hlast | hmem
    · cases hlast
      exact Command.goesWith_forSector 1 (PagedImage.mem_sectors.mpr ⟨1, hsecond, rfl⟩)
    · exact hw.asked token command hmem
  · exact (h₁.tally.complete_iff h₁.numBlocks).mpr hall
  · have himage : IsImageAddr a := isImageAddr_of_inPage hplace hfirst ha
    have hjob := hw.tally.isJob (hlies 1 hsecond) hsecond wellFormed_map w.service.nextToken
    obtain ⟨r, rfl⟩ := Option.isSome_iff_exists.mp hasks
    rw [h₁.chip]
    refine (Chip.byte_armReset _ himage.below r).trans ?_
    exact byte_pageCall_of_blank hlies hjob hfirst (by decide) ha himage (hw.blank a ha)

end overrun

/-- The first two words of erased flash are no vector table. -/
theorem not_valid_of_blank {m : Memory}
    (hblank : ∀ k < 4, m.byte (appBase + UInt32.ofNat k) = 0xFF) :
    ¬ (VectorTable.inMemory m appBase).Valid := by
  have hstack : m.word appBase = 0xFFFFFFFF := by
    refine Memory.word_of_bytes fun k hk => (hblank k hk).trans ?_
    revert k
    decide
  intro hvalid
  have hle : (m.word appBase).toNat ≤ 0x20042000 := hvalid.stack_le
  rw [hstack] at hle
  exact absurd hle (by decide)

/-- A flash part that was never used is blank. -/
theorem byte_unused {a : UInt32} (hlow : 0x10000000 ≤ a.toNat) (hhigh : a.toNat < 0x11000000) :
    Chip.unused.memory.byte a = 0xFF := by
  have hrom : Rp2040.romRegion.contains a = false := by
    rw [← Bool.not_eq_true, Region.contains_iff]
    show ¬ (0 ≤ a.toNat ∧ a.toNat < 0 + 0x4000)
    omega
  have hflash : flashRegion.contains a = true := by
    rw [Region.contains_iff]
    show 0x10000000 ≤ a.toNat ∧ a.toNat < 0x10000000 + 0x1000000
    omega
  show (if Rp2040.romRegion.contains a then Rp2040.Chip.romByte a
    else if flashRegion.contains a then 0xFF else 0) = _
  rw [hrom, hflash]
  rfl

/-- Of an application of two pages the first one is never written then, and after the reset
    there is nothing to start. -/
theorem Attended.image_lost_when_tokens_go_round :
    ∃ (c : Chip) (first second : Sector) (v : Attended Chip),
      startUp .unused .low = .updateMode c
      ∧ ImageFile.pack (smallImage 256) appBase Header.rp2040Family = .ok [first, second]
      ∧ 256 * [first, second].length ≤ appSize.toNat
      ∧ (ImageFile.padded (smallImage 256)).take 8
        = (Word.bytes smallTable.stack).toList ++ (Word.bytes smallTable.reset).toList
      ∧ smallTable.Valid
      ∧ (inUpdateMode c []).run (overrun first second) = .ok v
      ∧ (∀ token command, .asked token command ∈ v.log → command.GoesWith [first, second])
      ∧ v.service.device.core.upload.progress = .complete
      ∧ v.service.device.core.rebooting = true
      ∧ ∃ c', startUp v.service.chip .high = .updateMode c' := by
  obtain ⟨c, hstart⟩ := startUp_low .unused
  obtain ⟨img, hbase, hcount, hpack⟩ := exists_smallImage (show 256 ≤ 504 by decide)
  have hsectors := img.sectors_of_two hcount config.familyId
  have hfits : 256 * (img.sectors config.familyId).length ≤ appSize.toNat := by
    rw [hsectors]
    show 256 * 2 ≤ appSize.toNat
    decide
  have hplace := covers_of_fits hbase (by rwa [PagedImage.length_sectors] at hfits)
  have hfirst : 0 < img.numBlocks := PagedImage.ofNat_lt (show 0 < img.count by omega)
  have hstartAddr : (img.addr 0).toNat = 0x10010000 := by
    rw [PagedImage.toNat_addr hfirst, hbase]
    rfl
  obtain ⟨v, hrun, hgoes, hcomplete, hdue, hblank⟩ := run_overrun (c := c) hcount hplace
    fun a ha => by
      unfold PagedImage.InPage at ha
      rw [hstartAddr] at ha
      exact (byte_of_updateMode hstart (by omega)).trans (byte_unused (by omega) (by omega))
  have hvalid : smallTable.Valid := smallTable.isBootable_iff.mp (by decide)
  have hupdate := startUp_of_not_valid (c := v.service.chip) .high rfl
    (not_valid_of_blank fun k hk => hblank _ ?_)
  · rw [hsectors] at hpack hfits hgoes
    exact ⟨c, _, _, v, hstart, hpack, hfits, take_padded_smallImage 256, hvalid, hrun,
      fun token command hmem => hgoes token command (List.mem_filterMap.mpr ⟨_, hmem, rfl⟩),
      hcomplete, hdue, hupdate⟩
  · have haddr : (appBase + UInt32.ofNat k).toNat = 0x10010000 + k :=
      Memory.toNat_add_ofNat (n := 4) (by decide) hk
    unfold PagedImage.InPage
    rw [hstartAddr, haddr]
    omega

end Loader

end Reflash
