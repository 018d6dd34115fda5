import Reflash.Loader.Startup
import Reflash.Proofs.CompleteDelivery
/-! # Images in the memory of a chip

  A chip carries out what the loader asks of it by changing its memory. Its registers lie
  in the same memory, so that flushing the cache and arming a reset are changes as well;
  but no image may use their addresses. Where images may lie, a page that is written is
  all that changes.

  The rest is about one page of an image and the books of its upload, as `Reliable` has
  them: the job for a page that the upload takes is harmless, and what memory holds when
  it is credited is what the books say.
-/

namespace Reflash

/-! ### One page and the books -/

namespace PagedImage

variable {img : PagedImage} {config : Config} {capacity : UInt32} {inRam : Bool}
  {i token : UInt32} {u v : Upload} {sent : List Sector} {m m' : Memory} {map : AddressMap}

/-- The books say nothing about other addresses than those of the image. -/
theorem Reliable.congr (h : img.Reliable map u m)
    (hvalid : ∀ j, u.isBlockValid j = true → j < img.numBlocks)
    (hsame : ∀ j < img.numBlocks, ∀ a, img.InPage j a → m'.byte a = m.byte a) :
    img.Reliable map u m' := by
  refine ⟨h.inRam, h.erased, ?_, ?_, h.base_le, h.lowest⟩
  · intro j hj a ha
    rw [hsame j (hvalid j hj) a ha]
    exact h.holds j hj a ha
  · intro j hj hflash herased a ha
    rw [hsame j hj a ha]
    exact h.ready j hj hflash herased a ha

section page

variable (h : img.Tally config capacity inRam sent u)
  (hlies : img.Lies capacity inRam config.map i) (hi : i < img.numBlocks)
  (hmap : config.map.WellFormed)

include h hlies hi hmap

/-- The job for a page that is taken is one for that page. -/
theorem Tally.isJob (token : UInt32) :
    img.IsJob config.map i capacity (img.pageJob config inRam u i token).forUpload := by
  have hcapacity : (img.home inRam u).1.erasedSectors.capacity = capacity := by
    rw [← hlies.joined_eq_home, (u.sameSizes_joined _ config).erasedSectors, h.capacity]
  rw [← hcapacity]
  exact isJob_pageJob hmap hi (hlies.turnsAway_eq_false hi) (h.not_drops hlies hi)

/-- The job erases the sector of its page unless that was done for the upload. -/
theorem Tally.erase_pageJob (token : UInt32) (hflash : img.inRam config.map i = false) :
    (img.pageJob config inRam u i token).erase = none ↔
      (img.home inRam u).1.erasedSectors.contains (img.sectorNo config.map i) = true := by
  obtain ⟨region, hregion, -⟩ := (h.isJob hlies hi hmap token).flash hflash
  have herase : (img.pageJob config inRam u i token).erase
      = (img.home inRam u).1.eraseFor region (img.addr i) := by
    unfold pageJob
    rw [hregion]
    rfl
  rw [herase, Upload.eraseFor, sectorNo_of_flash hregion]
  split
  · rename_i hcontains
    exact ⟨fun _ => hcontains, fun _ => rfl⟩
  · rename_i hcontains
    exact ⟨fun hnone => absurd hnone (Option.some_ne_none _), fun hyes => absurd hyes hcontains⟩

/-- The job is harmless to what the books say. -/
theorem Tally.harmless (token : UInt32)
    (hreliable : img.Reliable config.map (img.home inRam u).1 m) :
    img.Harmless config.map i (img.pageJob config inRam u i token).forUpload
      (img.afterPage inRam u i token) m := by
  have hjob := h.isJob hlies hi hmap token
  constructor
  · -- The job erases nothing: its sector was erased for the upload, so its page is ready.
    intro hflash hnone
    obtain ⟨region, hregion, -⟩ := hjob.flash hflash
    exact hreliable.ready i hi (by rw [hregion]; rfl)
      ((h.erase_pageJob hlies hi hmap token hflash).mp hnone)
  · -- The job erases its sector: that was not done for the upload.
    intro _ hsome
    cases hflash : img.inRam config.map i with
    | true => simp [hjob.ram hflash] at hsome
    | false =>
      rw [Bool.eq_false_iff]
      intro hcontains
      have hnone := (h.erase_pageJob hlies hi hmap token hflash).mpr hcontains
      have hsome' : (img.pageJob config inRam u i token).erase.isSome = true := hsome
      rw [hnone] at hsome'
      cases hsome'

/-- The upload waits for the job as for one for its page. -/
theorem Tally.forBlock (token : UInt32) :
    img.ForBlock config.map i
      { (img.pageJob config inRam u i token).forUpload with result := some .ok }
      (img.afterPage inRam u i token) :=
  ⟨rfl, hlies.kind.trans h.kind.symm, fun hflash hnone =>
    (h.erase_pageJob hlies hi hmap token hflash).mp hnone⟩

/-- When the job for a page was carried out and credited, the books are right about
    memory. If the page was the last one missing, the image is in memory. -/
theorem Tally.reliable_credit {request : Option RebootRequest}
    (hreliable : u.numBlocks ≠ 0 → img.Reliable config.map u m)
    (hwritten : ∀ j < img.numBlocks, ∀ a, img.InPage j a → m'.byte a
      = (img.written config.map m i (img.pageJob config inRam u i token).forUpload).byte a)
    (hcredit : (img.afterPage inRam u i token).credit
      { (img.pageJob config inRam u i token).forUpload with result := some .ok } config
        = .ok (v, request)) :
    img.Reliable config.map v m' ∧ ∀ r, request = some r → img.Boots config r m' := by
  have hjob := h.isJob hlies hi hmap token
  have hn : (img.afterPage inRam u i token).numBlocks = img.numBlocks := numBlocks_home h.fits
  have hn0 : (img.afterPage inRam u i token).numBlocks ≠ 0 := by
    rw [hn]
    exact img.numBlocks_ne_zero
  have hsound : (img.afterPage inRam u i token).Sound := (h.accepts hlies hi token).sound h.sound
  have hvalid : ∀ j, (img.afterPage inRam u i token).isBlockValid j = true → j < img.numBlocks := by
    rw [← hn]
    exact (hsound hn0).valid_lt
  -- The books are right when the page was looked at, and an upload that starts has none.
  have hhome : img.Reliable config.map (img.home inRam u).1 m := by
    by_cases hsame : u.numBlocks = img.numBlocks
    · rw [home_of_eq hsame]
      exact hreliable (hsame ▸ img.numBlocks_ne_zero)
    · have hstart : img.home inRam u = u.start inRam img.numBlocks := if_neg hsame
      rw [hstart]
      exact reliable_of_started (Upload.start_started u inRam img.numBlocks)
  have htaken : img.Reliable config.map (img.afterPage inRam u i token) m :=
    ⟨hhome.inRam, hhome.erased, hhome.holds, hhome.ready, hhome.base_le, hhome.lowest⟩
  have hharmless := h.harmless hlies hi hmap token hhome
  have hafter := htaken.written hmap hn0 hvalid hjob hharmless
  have hawaits : (img.afterPage inRam u i token).awaits
      { (img.pageJob config inRam u i token).forUpload with result := some .ok } = true :=
    h.awaits rfl
  obtain ⟨v', request', hcredit', hv⟩ := Upload.credit_credits config hsound hawaits
  rw [hcredit] at hcredit'
  cases hcredit'
  have hcapacity : (img.afterPage inRam u i token).erasedSectors.capacity = capacity :=
    (h.accepts hlies hi token).sameSizes.erasedSectors.trans h.capacity
  have hcredited := hafter.credit rfl hmap hcapacity (hjob.withResult _)
    (hharmless.wrote hmap hjob) (h.forBlock hlies hi hmap token) rfl hv
  have hvn : v.numBlocks = img.numBlocks := hv.numBlocks.trans hn
  have hreliable' : img.Reliable config.map v m' := by
    refine hcredited.congr (fun j hj => ?_) hwritten
    rw [← hvn]
    exact (hv.sound (by rw [hvn]; exact img.numBlocks_ne_zero)).valid_lt j hj
  exact ⟨hreliable', fun r hr => hreliable'.boots hvn hv hr⟩

end page

end PagedImage

/-! ### The memory that images may use -/

namespace Loader

open Rp2040

/-- Images may use an address. -/
def IsImageAddr (a : UInt32) : Prop :=
  appRegion.contains a = true ∨ imageRamRegion.contains a = true

theorem isImageAddr_iff {a : UInt32} : IsImageAddr a ↔
    0x10010000 ≤ a.toNat ∧ a.toNat < 0x11000000 ∨ 0x20000000 ≤ a.toNat ∧ a.toNat < 0x20030000 := by
  unfold IsImageAddr
  rw [Region.contains_iff, Region.contains_iff]
  rfl

/-- The register that turns the cache off does not lie at an address. -/
def OffCache (a : UInt32) : Prop := a.toNat < 0x14003000 ∨ 0x14003004 ≤ a.toNat

theorem IsImageAddr.offCache {a : UInt32} (h : IsImageAddr a) : OffCache a := by
  have hbounds := isImageAddr_iff.mp h
  unfold OffCache
  omega

theorem IsImageAddr.below {a : UInt32} (h : IsImageAddr a) : a.toNat < 0x40000000 := by
  have hbounds := isImageAddr_iff.mp h
  omega

theorem timerAddr_bounds (r : TimerRegister) :
    0x40000000 ≤ (timerAddr r).toNat ∧ (timerAddr r).toNat + 4 ≤ UInt32.size := by
  cases r with
  | control => decide
  | load => decide
  | resetSelect => decide
  | scratch i => revert i; decide

variable {a : UInt32}

/-- Turning the cache off changes no other byte. -/
theorem byte_setCache (ha : OffCache a) (m : Memory) (w : UInt32) :
    (m.setWord cacheControlClear w).byte a = m.byte a := by
  have hcache : cacheControlClear.toNat = 0x14003000 := rfl
  have hsize : UInt32.size = 4294967296 := rfl
  unfold OffCache at ha
  exact m.byte_setWord a w (by omega) (by omega)

/-- Writing a register of the reboot timer changes no byte of memory. -/
theorem byte_setTimer (ha : a.toNat < 0x40000000) (r : TimerRegister) (m : Memory) (w : UInt32) :
    (m.setWord (timerAddr r) w).byte a = m.byte a := by
  obtain ⟨hlow, hhigh⟩ := timerAddr_bounds r
  exact m.byte_setWord a w hhigh (by omega)

end Loader

namespace Rp2040.Chip

open Loader (IsImageAddr OffCache byte_setCache byte_setTimer)

variable {a : UInt32} (c : Chip)

theorem flashBase_add_offset (addr : UInt32) : flashBase + flashOffset addr = addr := by
  unfold flashOffset
  rw [UInt32.add_comm, UInt32.sub_add_cancel]

/-- Arming a reset changes no byte of memory. -/
theorem byte_armReset (ha : a.toNat < 0x40000000) (r : RebootRequest) :
    (c.armReset r).memory.byte a = c.memory.byte a := by
  show ((RebootTimer.updates r).foldl updateTimer c.memory).byte a = _
  generalize c.memory = m
  induction RebootTimer.updates r generalizing m with
  | nil => rfl
  | cons update updates ih =>
    rw [List.foldl_cons, ih]
    exact byte_setTimer ha _ m _

/-- An empty run is not erased, which comes to the same. -/
theorem byte_eraseFlash (addr len : UInt32) :
    (c.eraseFlash (flashOffset addr) len).memory.byte a = (c.memory.erase addr len).byte a := by
  unfold eraseFlash
  split
  · rename_i hempty
    subst hempty
    show c.memory.byte a = if a - addr < 0 then 0xFF else c.memory.byte a
    rw [if_neg UInt32.not_lt_zero]
  · show (c.memory.erase (flashBase + flashOffset addr) len).byte a = _
    rw [flashBase_add_offset]

theorem byte_programFlash (addr : UInt32) (bytes : Bytes) :
    (c.programFlash (flashOffset addr) bytes).memory.byte a
      = (c.memory.program addr bytes).byte a := by
  unfold programFlash
  split
  · rename_i hempty
    rw [List.isEmpty_iff.mp hempty]
    exact UInt8.and_neg_one.symm
  · show (c.memory.program (flashBase + flashOffset addr) bytes).byte a = _
    rw [flashBase_add_offset]

/-- An update of flash changes memory as it changes flash. -/
theorem byte_updateFlash (ha : OffCache a) (update : FlashUpdate) :
    (c.updateFlash update).memory.byte a = (c.memory.updateFlash update).byte a := by
  obtain ⟨erase, program⟩ := update
  unfold updateFlash
  -- Turning the cache off again comes last.
  refine (byte_setCache ha _ _).trans ((byte_setCache ha _ _).trans ?_)
  cases erase with
  | none =>
    cases program with
    | none => rfl
    | some page => exact byte_programFlash _ page.1 page.2
  | some range =>
    cases program with
    | none => exact byte_eraseFlash _ range.addr range.len
    | some page =>
      refine (byte_programFlash _ page.1 page.2).trans ?_
      exact congrArg (Change.apply (.program page.1 page.2.toArray) a)
        (byte_eraseFlash _ range.addr range.len)

/-- The call that writes a page of an image does to the image what it does to memory. -/
theorem byte_pageCall {img : PagedImage} {map : AddressMap} {capacity i : UInt32} {job : Job}
    (ha : IsImageAddr a) (hjob : img.IsJob map i capacity job) :
    (Machine.perform c (job.pageCall map)).memory.byte a
      = (img.written map c.memory i job).byte a := by
  unfold Job.pageCall PagedImage.written PagedImage.inRam
  rw [← hjob.addr, ← hjob.payload]
  split
  · rfl
  · exact c.byte_updateFlash ha.offCache _

end Rp2040.Chip

end Reflash
