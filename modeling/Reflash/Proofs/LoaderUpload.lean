import Reflash.Proofs.ChipMemory
import Reflash.Proofs.SerialLine
/-! # An image goes to the loader

  The loader has just been started, on any chip, and gets the sectors of an image one
  after the other, each in a command of its own. The image lies in the flash that is left
  for applications or in the RAM that images may use. Each sector is acknowledged, and
  the memory of the chip holds the image when the last one was: a reboot is due then, and
  it was asked for once.

  `Filling` is what holds between two commands, however the frames come in.
-/

namespace Reflash

namespace Loader

open Rp2040 (Chip)

/-! ### The loader's map -/

theorem wellFormed_map : map.WellFormed := by
  have haligned : ∀ r ∈ map, r.kind = .flash →
      r.base.toNat % 4096 = 0 ∧ r.len.toNat % 4096 = 0 := by decide
  refine ⟨AddressMap.apart_of_ends (by decide), by decide, ?_⟩
  intro r hr hkind
  exact ⟨(haligned r hr hkind).1, (haligned r hr hkind).2⟩

/-- The region for images in RAM, or for those in flash. -/
def imageRegion (inRam : Bool) : Region := if inRam then imageRamRegion else appRegion

/-- The reboot into an image. -/
def rebootInto (inRam : Bool) (base : UInt32) : RebootRequest :=
  if inRam then ⟨base, config.ramStack, config.rebootDelayMs⟩ else ⟨0, 0, config.rebootDelayMs⟩

/-- The sets of an upload when the loader enters update mode on a chip. -/
def startUpload (c : Chip) : Upload := UpdateMode.readSets Rp2040.freshUpload c.memory

theorem capacity_setAt (m : Memory) (addr : UInt32) (words : Nat) :
    (UpdateMode.setAt m addr words).capacity = UInt32.ofNat (words * 32) := by
  simp [UpdateMode.setAt, IndexSet.capacity]

section place

variable {img : PagedImage} {inRam : Bool} {i : UInt32} (c : Chip)
  (hplace : ∀ k < img.count,
    (imageRegion inRam).covers (img.base + UInt32.ofNat k * pageSize) pageSize = true)

include hplace

theorem covers_page (hi : i < img.numBlocks) :
    (imageRegion inRam).covers (img.addr i) pageSize = true := by
  have hcovers := hplace i.toNat (PagedImage.lt_count hi)
  rwa [UInt32.ofNat_toNat] at hcovers

theorem isImageAddr_of_inPage {a : UInt32} (hi : i < img.numBlocks) (ha : img.InPage i a) :
    IsImageAddr a := by
  have hcontains : (imageRegion inRam).contains a = true :=
    Region.contains_of_covers (by decide) (covers_page hplace hi) ha.1 ha.2
  cases inRam with
  | true => exact .inr hcontains
  | false => exact .inl hcontains

/-- An image with a place is no larger than its region. -/
theorem count_le : 256 * img.count ≤ (imageRegion inRam).len.toNat := by
  have hpos := img.pos
  have hlast : img.count - 1 < img.count := by omega
  have hi := PagedImage.ofNat_lt hlast
  have haddr := PagedImage.toNat_addr hi
  rw [PagedImage.toNat_ofNat hlast] at haddr
  have hfirst : 0 < img.numBlocks := UInt32.pos_iff_ne_zero.mpr img.numBlocks_ne_zero
  have hend := (Region.covers_iff (by decide)).mp (covers_page hplace hi)
  have hstart := (Region.covers_iff (by decide)).mp (covers_page hplace hfirst)
  have hzero := PagedImage.toNat_addr hfirst
  have hnone : (0 : UInt32).toNat = 0 := rfl
  rw [toNat_pageSize] at hend hstart
  omega

theorem lies_page (hi : i < img.numBlocks) :
    img.Lies (startUpload c).erasedSectors.capacity inRam map i := by
  have hcovers := covers_page hplace hi
  have hcapacity : (startUpload c).erasedSectors.capacity
      = UInt32.ofNat (Rp2040.erasedSectorWords * 32) := capacity_setAt _ _ _
  cases inRam with
  | true =>
    have hram : img.inRam map i = true :=
      AddressMap.findOf?_isSome_iff.mpr ⟨imageRamRegion, by decide, rfl, hcovers⟩
    exact ⟨hram, fun _ => PagedImage.flash_of_inRam wellFormed_map hram, nofun⟩
  | false =>
    have hfound : (img.flash? map i).isSome = true :=
      AddressMap.findOf?_isSome_iff.mpr ⟨appRegion, by decide, rfl, hcovers⟩
    obtain ⟨region, hregion⟩ := Option.isSome_iff_exists.mp hfound
    -- There is one region of flash, and it is the one of applications.
    have hflash : region = appRegion :=
      wellFormed_map.oneFlash region (AddressMap.mem_of_findOf? hregion) appRegion (by decide)
        (AddressMap.kind_of_findOf? hregion) rfl
    refine ⟨PagedImage.inRam_of_flash wellFormed_map hfound, nofun,
      fun _ => ⟨region, hregion, PagedImage.aligned_of_flash wellFormed_map hregion, ?_⟩⟩
    have hle := PagedImage.base_le_of_flash hregion
    subst hflash
    have hno := Region.toNat_sectorNo hle
    obtain ⟨hlow, hhigh⟩ := (Region.covers_iff (by decide)).mp hcovers
    have hbase : (imageRegion false).base.toNat = 0x10010000 := rfl
    have hlen : (imageRegion false).len.toNat = 0xFF0000 := rfl
    have hstart : appRegion.base.toNat = 0x10010000 := rfl
    have hrange : (UInt32.ofNat (Rp2040.erasedSectorWords * 32)).toNat = 7712 := by decide
    rw [hcapacity, UInt32.lt_iff_toNat_lt, hno, hrange]
    rw [toNat_pageSize] at hhigh
    omega

theorem numBlocks_le : img.numBlocks
    ≤ (if inRam then (startUpload c).ramBlocks else (startUpload c).flashBlocks).capacity := by
  have hcount := count_le hplace
  rw [UInt32.le_iff_toNat_le, PagedImage.toNat_numBlocks]
  cases inRam with
  | true =>
    have hram : (startUpload c).ramBlocks.capacity.toNat = 1280 := by
      show (IndexSet.empty Rp2040.ramBlockWords).capacity.toNat = 1280
      decide
    have hlen : (imageRegion true).len.toNat = 0x30000 := rfl
    rw [if_pos rfl, hram]
    omega
  | false =>
    have hflash : (startUpload c).flashBlocks.capacity.toNat = 123360 := by
      show (UpdateMode.setAt _ _ _).capacity.toNat = 123360
      rw [capacity_setAt]
      decide
    have hlen : (imageRegion false).len.toNat = 0xFF0000 := rfl
    rw [if_neg (by decide), hflash]
    omega

end place

/-! ### Between two commands -/

/-- A chip of which every call is written down. A reset that is armed is one, whoever asks
    for it. -/
instance {σ : Type} [Hardware σ] : Hardware (Logged σ) where
  warn l note := { l with machine := Hardware.warn l.machine note }
  armReset l request := ⟨Hardware.armReset l.machine request, .reboot request :: l.calls⟩

/-- What the worker does in one go is what it does step by step. -/
theorem wrapUp_of_poll {σ : Type} [Hardware σ] {d d' : Device (Board σ)} {busy : Bool}
    (h : d.poll = .ok (d', busy)) : d.wrapUp = .ok d' := by
  by_cases hidle : d.takeJob.phase = .idle
  · obtain ⟨hphase, hnone, -⟩ := Device.takeJob_of_idle hidle
    rw [Device.poll_of_empty hphase (hnone .disk) (hnone .control)] at h
    cases h
    exact Device.wrapUp_of_empty hphase hnone
  · rw [Device.poll_of_busy hidle] at h
    unfold Device.wrapUp
    cases hwrap : d.takeJob.carryOut.finish with
    | error fault =>
      rw [hwrap] at h
      cases h
    | ok e =>
      rw [hwrap] at h
      cases h
      rfl

/-- A worker that is left with the job for a sector delivers it. -/
theorem wrapUp_of_deliver {σ : Type} [Hardware σ] {d d' : Device (Board σ)} {token : UInt32}
    {sector : Sector} {core : Core} {queued : Bool}
    (hwrite : d.core.writeSector token sector = .ok (core, queued))
    (hdeliver : d.deliver (token, sector) = .ok d') : { d with core }.wrapUp = .ok d' := by
  simp only [Device.deliver, hwrite, bind, Except.bind, pure, Except.pure] at hdeliver
  cases hpoll : Device.poll { d with core } with
  | error fault =>
    rw [hpoll] at hdeliver
    cases hdeliver
  | ok polled =>
    rw [hpoll] at hdeliver
    cases hdeliver
    exact wrapUp_of_poll hpoll

/-- What holds of a loader on a chip that was sent the first `n` sectors of an image. -/
structure Filling (img : PagedImage) (inRam : Bool) (capacity : UInt32) (n : Nat)
    (s : Service (Logged Chip)) : Prop where
  ready : s.Ready
  token : s.nextToken = UInt32.ofNat (n + 1)
  underway : img.Underway config capacity inRam ((img.sectors config.familyId).take n) s.device
  numBlocks : n ≠ 0 → s.device.core.upload.numBlocks = img.numBlocks
  reliable : s.device.core.upload.numBlocks ≠ 0 →
    img.Reliable map s.device.core.upload s.chip.machine.memory
  reboots : s.chip.calls.filter Call.isReboot
    = if n < img.count then [] else [.reboot (rebootInto inRam img.base)]

variable {img : PagedImage} {inRam : Bool} {capacity : UInt32} {n : Nat}
  {s t : Service (Logged Chip)}

theorem subset_take_iff {familyId : UInt32} :
    img.sectors familyId ⊆ (img.sectors familyId).take n ↔ img.count ≤ n := by
  constructor
  · intro hall
    by_contra hlt
    rw [Nat.not_le] at hlt
    have hmem := hall (PagedImage.mem_sectors.mpr ⟨_, PagedImage.ofNat_lt hlt, rfl⟩)
    rw [PagedImage.sectors, ← List.map_take, List.take_range, List.mem_map] at hmem
    obtain ⟨k, hk, hsame⟩ := hmem
    have hk' : k < n := Nat.lt_of_lt_of_le (List.mem_range.mp hk) (Nat.min_le_left _ _)
    have hno := congrArg UInt32.toNat (PagedImage.sector_injective hsame)
    rw [PagedImage.toNat_ofNat hlt, PagedImage.toNat_ofNat (Nat.lt_trans hk' hlt)] at hno
    exact Nat.ne_of_lt hk' hno
  · intro hle
    rw [List.take_of_length_le (by rw [PagedImage.length_sectors]; exact hle)]
    exact List.Subset.refl _

/-- The loader when it has just been started on a chip, with an endpoint that will take
    bytes as the script says. -/
def started (c : Chip) (script : List WriteResult) : Service (Logged Chip) :=
  { Service.fresh (Logged.new c) (startUpload c) with endpoint := { Endpoint.idle with script } }

theorem ready_started (c : Chip) {script : List WriteResult} (hscript : .failed ∉ script) :
    (started c script).Ready :=
  ⟨⟨rfl, rfl, rfl, rfl, rfl, rfl⟩, rfl, hscript⟩

/-- A loader that has just been started was sent nothing. -/
theorem filling_started (c : Chip) {script : List WriteResult} (hscript : .failed ∉ script)
    (hplace : ∀ k < img.count,
      (imageRegion inRam).covers (img.base + UInt32.ofNat k * pageSize) pageSize = true) :
    Filling img inRam (startUpload c).erasedSectors.capacity 0 (started c script) := by
  have hzero : (startUpload c).numBlocks = 0 := rfl
  have hidle : (startUpload c).progress = .idle := if_pos hzero
  refine ⟨ready_started c hscript, rfl, ?_, fun hn => absurd rfl hn,
    fun hn => absurd hzero hn, ?_⟩
  · rw [List.take_zero]
    let device : Device (Board (Logged Chip)) :=
      .fresh (.fresh config (startUpload c)) ⟨Logged.new c, [], false⟩
    refine PagedImage.underway_start (d := device) rfl rfl (fun hn => absurd hzero hn) rfl
      (fun hcomplete => ?_) (numBlocks_le c hplace) img.numBlocks_ne_zero.symm
    exact absurd (hidle.symm.trans hcomplete) Progress.noConfusion
  · rw [if_pos img.pos]
    rfl

/-- After the last sector the image is in memory. -/
theorem Filling.holds (h : Filling img inRam capacity n s) (hn : img.count ≤ n) {i : UInt32}
    (hi : i < img.numBlocks) : img.Holds s.chip.machine.memory i := by
  have hnumBlocks := h.numBlocks (Nat.ne_of_gt (Nat.lt_of_lt_of_le img.pos hn))
  have hvalid := h.underway.tally.valid i hi
  rw [PagedImage.home_of_eq hnumBlocks] at hvalid
  refine (h.reliable (hnumBlocks ▸ img.numBlocks_ne_zero)).holds i (hvalid.mpr ?_)
  exact subset_take_iff.mpr hn (PagedImage.mem_sectors.mpr ⟨i, hi, rfl⟩)

/-! ### One sector more -/

/-- A sector that is queued is a command that waits for its job. -/
theorem handle_forSector {c core : Core} {token : UInt32} (lba : Nat) {sector : Sector}
    (h : c.writeSector token sector = .ok (core, true)) :
    c.handle (Command.forSector lba sector) token = .ok (core, .pending) := by
  have hsize : sector.toList.toArray.size = 512 := by simp
  have hsame : (⟨sector.toList.toArray, hsize⟩ : Sector) = sector := by
    apply Vector.toArray_inj.mp
    exact Array.toArray_toList
  simp only [Command.forSector, Core.handle, dif_pos hsize, hsame, h]
  rfl

section calls

variable {i token : UInt32} {u : Upload} {request : Option RebootRequest}

/-- The first answer that waits. -/
theorem Board.complete_of_nil {σ : Type} [Hardware σ] {b : Board σ} (response : Response)
    (h : b.completions = []) : b.complete response = ⟨b.chip, [response], true⟩ := by
  unfold Board.complete
  rw [h]
  rfl

/-- The call for a page goes to the chip. -/
theorem Board.perform_pageCall {σ : Type} [Hardware σ] (b : Board σ) (job : Job)
    (map : AddressMap) : Machine.perform b (job.pageCall map)
      = { b with chip := Machine.perform b.chip (job.pageCall map) } := by
  unfold Job.pageCall
  split <;> rfl

/-- A page that is written and credited leaves its answer to be sent. -/
theorem machine_delivered {σ : Type} [Hardware σ] {d : Device (Board σ)} {v : Upload}
    (h : d.machine.completions = []) :
    (img.delivered config inRam d i token v request).machine
      = ⟨Machine.performAll d.machine.chip
          (img.deliveryCalls config inRam d.core.upload i token request),
        [.ack token .ok], true⟩ := by
  have hquiet : Machine.performAll d.machine
        (img.deliveryCalls config inRam d.core.upload i token request)
      = { d.machine with
          chip := Machine.performAll d.machine.chip
            (img.deliveryCalls config inRam d.core.upload i token request) } :=
    Board.performAll_quiet PagedImage.isComplete_deliveryCalls
  unfold PagedImage.delivered
  show Machine.performAll d.machine (_ ++ [Call.complete (.ack token .ok)]) = _
  unfold Machine.performAll at hquiet ⊢
  rw [List.foldl_append, hquiet]
  exact Board.complete_of_nil _ h

/-- Of the calls for a page only the request for a reboot is one. -/
theorem filter_deliveryCalls :
    (img.deliveryCalls config inRam u i token request).reverse.filter Call.isReboot
      = (request.map Call.reboot).toList := by
  have hpage : ((img.pageJob config inRam u i token).forUpload.pageCall config.map).isReboot
      = false := by
    unfold Job.pageCall
    split <;> rfl
  rw [PagedImage.deliveryCalls, List.reverse_append, List.filter_append, List.reverse_singleton,
    List.filter_singleton, hpage]
  cases request <;> rfl

/-- The calls for a page do to the image what its job does to memory. -/
theorem byte_deliveryCalls (c : Chip) {a : UInt32} (ha : IsImageAddr a)
    (hjob : img.IsJob map i capacity (img.pageJob config inRam u i token).forUpload) :
    (Machine.performAll c (img.deliveryCalls config inRam u i token request)).memory.byte a
      = (img.written map c.memory i (img.pageJob config inRam u i token).forUpload).byte a := by
  rw [← c.byte_pageCall ha hjob]
  cases request with
  | none => rfl
  | some request => exact Chip.byte_armReset _ ha.below request

end calls

/-- An image of which it is known where it lies is started in one way only. -/
theorem request_eq (hlies : ∀ i < img.numBlocks, img.Lies capacity inRam map i)
    {request : RebootRequest} {m : Memory} (h : img.Boots config request m) :
    request = rebootInto inRam img.base := by
  have hfirst : 0 < img.numBlocks := UInt32.pos_iff_ne_zero.mpr img.numBlocks_ne_zero
  have hkind := (hlies 0 hfirst).kind
  rcases h.request with ⟨hram, rfl⟩ | ⟨hflash, rfl⟩
  · obtain rfl : true = inRam := (hram 0 hfirst).symm.trans hkind
    rfl
  · obtain rfl : false = inRam :=
      (PagedImage.inRam_of_flash wellFormed_map (hflash 0 hfirst)).symm.trans hkind
    rfl

section sector

variable (h : Filling img inRam capacity n s) (hn : n < img.count)
  (hlies : ∀ i < img.numBlocks, img.Lies capacity inRam map i)
  (himage : ∀ i < img.numBlocks, ∀ a, img.InPage i a → IsImageAddr a)

include h hn hlies himage

/-- The next sector is written and acknowledged, however its frame comes in. -/
theorem Filling.sector (lba : Nat) (events : List LineEvent) :
    ∃ t, s.carry (Frame.wrap (Encode.command
        (Command.forSector lba (img.sector config.familyId (UInt32.ofNat n))))) events = .ok t
      ∧ t.endpoint.sent = Frame.wrap (Encode.response (.ack (UInt32.ofNat (n + 1)) .ok))
      ∧ Filling img inRam capacity (n + 1) t.collected := by
  have hi := PagedImage.ofNat_lt hn
  have hmissing : ¬ img.sectors config.familyId ⊆ (img.sectors config.familyId).take n := by
    rw [subset_take_iff]
    exact Nat.not_le.mpr hn
  obtain ⟨v, request, hcredit, hvn, hrequest, hwrite, hdeliver, hnext⟩ :=
    h.underway.deliver_page (hlies _ hi) hi hmissing s.nextToken
  rw [← img.take_sectors_succ config.familyId hn, subset_take_iff] at hrequest
  rw [← img.take_sectors_succ config.familyId hn] at hnext
  have hmachine :
      (img.delivered config inRam s.device (UInt32.ofNat n) s.nextToken v request).machine
      = ⟨Machine.performAll s.chip (img.deliveryCalls config inRam s.device.core.upload
          (UInt32.ofNat n) s.nextToken request), [.ack s.nextToken .ok], true⟩ :=
    machine_delivered h.ready.completions
  obtain ⟨t, hcarry, ht⟩ := h.ready.carry_pending (Command.fits_forSector lba _)
    (handle_forSector lba hwrite)
    (show Response.Fits .device (.ack s.nextToken .ok) from trivial)
    (wrapUp_of_deliver hwrite hdeliver) (by rw [hmachine]) events
  have hcore := ht.core
  have hchip := ht.chip
  rw [hmachine] at hchip
  have hupload : t.device.core.upload = v := congrArg Core.upload hcore
  -- What memory holds and what the books say is so.
  have hbooks : img.Reliable map v t.chip.machine.memory ∧ ∀ r, request = some r →
      img.Boots config r t.chip.machine.memory := by
    have htally := h.underway.tally
    refine htally.reliable_credit (hlies _ hi) hi wellFormed_map h.reliable
      (fun j hj a ha => ?_) hcredit
    rw [hchip, Logged.machine_performAll]
    exact byte_deliveryCalls _ (himage j hj a ha) (htally.isJob (hlies _ hi) hi wellFormed_map _)
  refine ⟨t, hcarry, ?_, ht.ready, ?_, ?_, ?_, ?_, ?_⟩
  · rw [ht.sent, h.token]
  · refine ht.token.trans ?_
    rw [h.token]
    exact (UInt32.ofNat_add (n + 1) 1).symm
  · exact hnext.of_core hcore ht.ready.phase
  · exact fun _ => (congrArg Upload.numBlocks hupload).trans hvn
  · intro _
    show img.Reliable map t.device.core.upload t.chip.machine.memory
    rw [hupload]
    exact hbooks.1
  · show t.chip.calls.filter Call.isReboot = _
    rw [hchip, Logged.calls_performAll, List.filter_append, filter_deliveryCalls, h.reboots,
      if_pos hn, List.append_nil]
    cases request with
    | none =>
      have hmore : n + 1 < img.count := by
        rw [← Nat.not_le, ← hrequest]
        exact Bool.false_ne_true
      rw [if_pos hmore]
      rfl
    | some request =>
      rw [if_neg (Nat.not_lt.mpr (hrequest.mp rfl)), request_eq hlies (hbooks.2 request rfl)]
      rfl

end sector

/-! ### How it went -/

/-- What a loader reports that has got all blocks of an image. -/
def completeReport (numBlocks : UInt32) (inRam : Bool) : Response :=
  .status ⟨.complete, numBlocks, numBlocks, inRam⟩ none true

/-- A loader that was sent all sectors says so, and does nothing else. -/
theorem Filling.status (h : Filling img inRam capacity img.count s) (events : List LineEvent) :
    ∃ t, s.carry (Frame.wrap (Encode.command .getStatus)) events = .ok t
      ∧ t.endpoint.sent = Frame.wrap (Encode.response (completeReport img.numBlocks inRam))
      ∧ t.device.core = s.device.core ∧ t.chip = s.chip := by
  have hall : img.sectors config.familyId ⊆ (img.sectors config.familyId).take img.count :=
    subset_take_iff.mpr (Nat.le_refl _)
  have hnumBlocks := h.numBlocks (Nat.ne_of_gt img.pos)
  have hkind : s.device.core.upload.inRam = inRam := by
    have hkind := h.underway.tally.kind
    rwa [PagedImage.home_of_eq hnumBlocks] at hkind
  have hprogress := h.underway.complete.mpr hall
  have hcount : s.device.core.upload.validCount = img.numBlocks :=
    (Upload.validCount_of_complete hprogress).trans hnumBlocks
  have hstatus : s.device.core.statusResponse = completeReport img.numBlocks inRam := by
    unfold Core.statusResponse Upload.status completeReport
    rw [hprogress, hcount, hnumBlocks, hkind, h.underway.disk, h.underway.due.mpr hall]
    rfl
  have hfits : Response.Fits .device (completeReport img.numBlocks inRam) := trivial
  have hhandle : s.device.core.handle .getStatus s.nextToken
      = .ok (s.device.core, .reply (completeReport img.numBlocks inRam)) := by
    rw [Core.handle, hstatus]
  obtain ⟨t, hcarry, ht⟩ := h.ready.carry_answered
    (show Command.Fits .device .getStatus from trivial) hhandle rfl hfits events
  exact ⟨t, hcarry, ht.sent, ht.core, ht.chip⟩

end Loader

end Reflash
