import Reflash.Proofs.PackedImage
import Reflash.Proofs.PageJob
import Reflash.Proofs.Run
/-! # The jobs for the pages of an image

  A device makes one kind of job for a page of an image: it stores the page in
  RAM, or it programs the page in flash and may erase its sector first. `IsJob`
  says so, and `written` is what memory holds after such a job.

  Two properties of a page matter for flash. Memory `Holds` a page if the image
  is there, and a page is `Ready` if programming it leaves the image there: no bit
  that the image wants is clear. No job for a page of the image makes a page
  unready, since it only programs what the image wants. A page that is held stays
  so unless its sector is erased.
-/

namespace Reflash

namespace PagedImage

variable (img : PagedImage) (map : AddressMap) (i : UInt32)

/-! ### Where a page lies -/

/-- Whether a page lies in RAM. -/
def inRam : Bool := (map.findOf? .ram (img.addr i) pageSize).isSome

/-- The region of flash that a page lies in. -/
def flash? : Option Region := map.findOf? .flash (img.addr i) pageSize

/-- The erase sector of a page of flash. -/
def sectorNo : UInt32 :=
  match img.flash? map i with
  | some region => region.sectorNo (img.addr i)
  | none => 0

variable {img map i} {j a capacity : UInt32} {region region' : Region}

theorem sectorNo_of_flash (h : img.flash? map i = some region) :
    img.sectorNo map i = region.sectorNo (img.addr i) := by simp only [sectorNo, h]

theorem covers_of_flash (h : img.flash? map i = some region) :
    region.covers (img.addr i) pageSize = true := AddressMap.covers_of_findOf? h

theorem base_le_of_flash (h : img.flash? map i = some region) : region.base ≤ img.addr i :=
  AddressMap.base_le_of_findOf? h

theorem contains_of_flash (h : img.flash? map i = some region) (ha : img.InPage i a) :
    region.contains a = true :=
  Region.contains_of_covers (by decide) (covers_of_flash h) ha.1 ha.2

/-- All pages of flash lie in the same region. -/
theorem flash_eq (hmap : map.WellFormed) (h : img.flash? map i = some region)
    (h' : img.flash? map j = some region') : region = region' :=
  hmap.eq_of_findOf? h h'

theorem aligned_of_flash (hmap : map.WellFormed) (h : img.flash? map i = some region) :
    region.Aligned := hmap.aligned_of_findOf? h

theorem flash_of_inRam (hmap : map.WellFormed) (h : img.inRam map i = true) :
    img.flash? map i = none := hmap.findOf?_flash_eq_none h

/-- Two pages of flash have the same sector if they lie between the same multiples
    of its size. -/
theorem sectorNo_eq_iff (hmap : map.WellFormed) (h : img.flash? map i = some region)
    (h' : img.flash? map j = some region') :
    img.sectorNo map i = img.sectorNo map j ↔
      (img.addr i).toNat / 4096 = (img.addr j).toNat / 4096 := by
  obtain rfl := flash_eq hmap h h'
  rw [sectorNo_of_flash h, sectorNo_of_flash h']
  exact Region.sectorNo_eq_iff (aligned_of_flash hmap h) (base_le_of_flash h) (base_le_of_flash h')

/-- No address of a page in RAM lies in the sector of a page of flash. -/
theorem not_same_sector (hmap : map.WellFormed) (h : img.flash? map i = some region)
    (hram : img.inRam map j = true) (ha : img.InPage j a) :
    a.toNat / 4096 ≠ (img.addr i).toNat / 4096 := by
  intro hsame
  have haligned := aligned_of_flash hmap h
  have hcontains := contains_of_flash h (inPage_addr i)
  have hsector := Region.covers_sector haligned hcontains
  have hstart := Region.toNat_sectorBase haligned (base_le_of_flash h)
  -- The whole sector belongs to flash, and so would the address.
  have haflash : region.contains a = true :=
    Region.contains_of_covers (by decide) hsector (by omega) (by rw [toNat_eraseSize]; omega)
  obtain ⟨ram, hmem, hkind, hcovers⟩ := AddressMap.findOf?_isSome_iff.mp hram
  have haram : ram.contains a = true :=
    Region.contains_of_covers (by decide) hcovers ha.1 ha.2
  have hflashKind := AddressMap.kind_of_findOf? h
  rw [hmap.eq_of_contains (AddressMap.mem_of_findOf? h) hmem haflash haram, hkind] at hflashKind
  cases hflashKind

/-! ### The jobs -/

variable (img map i capacity) in
/-- A job that a device makes for a page. The sectors of flash that it keeps track
    of are those below `capacity`. -/
structure IsJob (job : Job) : Prop where
  lt : i < img.numBlocks
  writes : job.WritesPage
  listener : job.listener = some .upload
  addr : job.addr = img.addr i
  payload : job.payload = img.page i
  ram : img.inRam map i = true → job.erase = none
  flash : img.inRam map i = false → ∃ region, img.flash? map i = some region
    ∧ region.sectorNo (img.addr i) < capacity ∧ job.exitXip = true
    ∧ (job.erase = none ∨ job.erase = some ⟨region.sectorBase (img.addr i), eraseSize⟩)

theorem IsJob.withResult {job : Job} (h : img.IsJob map i capacity job) (result : Option Status) :
    img.IsJob map i capacity { job with result } :=
  ⟨h.lt, ⟨h.writes.access, h.writes.execute, h.writes.transfer, h.writes.guarded, h.writes.length,
    h.writes.source⟩, h.listener, h.addr, h.payload, h.ram, h.flash⟩

/-- The job for a block that was taken is one for its page. -/
theorem isJob_pageJob {config : Config} {v : Upload} {token : UInt32}
    (hmap : config.map.WellFormed) (hi : i < img.numBlocks) {fits : Bool}
    (hstay : Upload.turnsAway (img.block config.familyId i) config false = false)
    (hkeep : ¬ v.Drops fits (img.block config.familyId i) config) :
    img.IsJob config.map i v.erasedSectors.capacity
      (v.pageJob (img.block config.familyId i) token
        (Upload.flashOf config.map (img.block config.familyId i))).forUpload := by
  have hpage : (img.block config.familyId i).payload = img.page i := payload_block hi
  have hlength : (img.block config.familyId i).payload.length = 256 := by
    rw [hpage, length_page hi]
  have hwrites : (v.pageJob (img.block config.familyId i) token
      (Upload.flashOf config.map (img.block config.familyId i))).WritesPage :=
    Job.writesPage_pageJob hlength
  have hpayload : (v.pageJob (img.block config.familyId i) token
      (Upload.flashOf config.map (img.block config.familyId i))).payload = img.page i :=
    (Job.payload_pageJob hlength).trans hpage
  refine ⟨hi, ⟨hwrites.access, hwrites.execute, hwrites.transfer, hwrites.guarded, hwrites.length,
    hwrites.source⟩, rfl, rfl, hpayload, ?_, ?_⟩
  · intro hram
    have hnone : Upload.flashOf config.map (img.block config.familyId i) = none :=
      flash_of_inRam hmap hram
    rw [hnone]
    rfl
  · intro hram
    -- A block that lies in neither RAM nor flash would have been turned away.
    have hnotRam : (Upload.ramOf config.map (img.block config.familyId i)).isNone = true := by
      rw [← Option.not_isSome]
      exact congrArg (! ·) hram
    cases hflash : Upload.flashOf config.map (img.block config.familyId i) with
    | none => simp [Upload.turnsAway, hnotRam, hflash] at hstay
    | some region =>
      refine ⟨region, hflash, ?_, rfl, ?_⟩
      · rw [← UInt32.not_le]
        exact fun hle => hkeep (.inr (.inr (.inr (.inr ⟨region, hflash, hle⟩))))
      · show v.eraseFor region (img.addr i) = none ∨ v.eraseFor region (img.addr i) = _
        unfold Upload.eraseFor
        split
        · exact .inl rfl
        · exact .inr rfl

/-- What memory holds after a job for a page. -/
def written (img : PagedImage) (map : AddressMap) (m : Memory) (i : UInt32) (job : Job) : Memory :=
  if img.inRam map i then m.store (img.addr i) (img.page i)
  else m.updateFlash ⟨job.erase, some (img.addr i, img.page i)⟩

/-- Carrying out a job for a page writes the page, and nothing else. -/
theorem execute_isJob (d : Device MemoryMachine) {job : Job} (hmap : d.core.config.map.WellFormed)
    (hjob : img.IsJob d.core.config.map i capacity job) (hdue : d.core.rebooting = false) :
    d.execute job = ({ d with
      lastWriter := some .disk
      machine := { d.machine with
        memory := img.written d.core.config.map d.machine.memory i job } }, job, .ok) := by
  -- RAM is stored to; flash is erased, if need be, and programmed.
  cases hram : img.inRam d.core.config.map i with
  | true =>
    have hplan := hjob.writes.plan_ram (by rw [hjob.addr]; exact hram) (hjob.ram hram) d.lastWriter
    rw [d.execute_page hjob.writes (hdue ▸ hplan) rfl]
    simp only [written, hram, if_true, ← hjob.addr, ← hjob.payload]
    rfl
  | false =>
    obtain ⟨region, hflash, -, hexit, herase⟩ := hjob.flash hram
    have hnone : d.core.config.map.findOf? .ram job.addr pageSize = none := by
      rw [hjob.addr]
      exact Option.not_isSome_iff_eq_none.mp (Bool.eq_false_iff.mp hram)
    have hplan := hjob.writes.plan_flash hnone (by rw [hjob.addr]; exact hflash)
      (aligned_of_flash hmap hflash) hexit (by rw [hjob.addr]; exact addr_mod_pageSize hjob.lt)
      (by rw [hjob.addr]; exact herase) d.lastWriter
    rw [d.execute_page hjob.writes (hdue ▸ hplan) rfl]
    simp only [written, hram, Bool.false_eq_true, if_false, ← hjob.addr, ← hjob.payload]
    rfl

/-! ### Pages that are ready -/

/-- Programming a page leaves the image there. -/
def Ready (img : PagedImage) (m : Memory) (i : UInt32) : Prop :=
  ∀ a, img.InPage i a → m.byte a &&& img.want a = img.want a

theorem Holds.ready {m : Memory} (h : img.Holds m i) : img.Ready m i := by
  intro a ha
  rw [h a ha, UInt8.and_self]

section writing

variable {m : Memory} {job : Job}

theorem erased_and (b : UInt8) : (0xFF : UInt8) &&& b = b := by
  rw [UInt8.and_comm]
  exact UInt8.and_neg_one

theorem byte_written_ram (hjob : img.IsJob map i capacity job) (hram : img.inRam map i = true)
    (a : UInt32) :
    (img.written map m i job).byte a = if img.InPage i a then img.want a else m.byte a := by
  unfold written
  rw [if_pos hram]
  exact byte_store_page hjob.lt m a

/-- What memory holds when a page of flash was written: first its sector may be
    erased, then the page is programmed. -/
theorem byte_written_flash (hmap : map.WellFormed) (hjob : img.IsJob map i capacity job)
    (hram : img.inRam map i = false) (a : UInt32) :
    ∃ old, (img.written map m i job).byte a = (if img.InPage i a then old &&& img.want a else old)
      ∧ (job.erase.isSome = true ∧ a.toNat / 4096 = (img.addr i).toNat / 4096 ∧ old = 0xFF
        ∨ ¬ (job.erase.isSome = true ∧ a.toNat / 4096 = (img.addr i).toNat / 4096)
          ∧ old = m.byte a) := by
  obtain ⟨region, hflash, -, -, hnone | hsome⟩ := hjob.flash hram
  · refine ⟨m.byte a, ?_, .inr ⟨by simp [hnone], rfl⟩⟩
    unfold written
    rw [if_neg (by rw [hram]; decide), hnone]
    exact byte_program_page hjob.lt m a
  · have hstart := Region.toNat_sectorBase (aligned_of_flash hmap hflash) (base_le_of_flash hflash)
    -- The erased range is the sector in which the page lies.
    have hsame : (region.sectorBase (img.addr i)).toNat / 4096 = (img.addr i).toNat / 4096 := by
      omega
    refine ⟨(m.erase (region.sectorBase (img.addr i)) eraseSize).byte a, ?_, ?_⟩
    · unfold written
      rw [if_neg (by rw [hram]; decide), hsome]
      exact byte_program_page hjob.lt _ a
    · have herased : (m.erase (region.sectorBase (img.addr i)) 4096).byte a
          = if a.toNat / 4096 = (region.sectorBase (img.addr i)).toNat / 4096 then 0xFF
            else m.byte a := m.byte_erase_sector a (by omega)
      rw [hsame] at herased
      by_cases ha : a.toNat / 4096 = (img.addr i).toNat / 4096
      · exact .inl ⟨by simp [hsome], ha, herased.trans (if_pos ha)⟩
      · exact .inr ⟨fun h => ha h.2, herased.trans (if_neg ha)⟩

/-- A page that is stored, or ready, or in a sector that is erased first is held
    afterwards. -/
theorem written_holds (hmap : map.WellFormed) (hjob : img.IsJob map i capacity job)
    (h : img.inRam map i = false → job.erase = none → img.Ready m i) :
    img.Holds (img.written map m i job) i := by
  intro a ha
  cases hram : img.inRam map i with
  | true => rw [byte_written_ram hjob hram, if_pos ha]
  | false =>
    obtain ⟨old, hbyte, ⟨-, -, rfl⟩ | ⟨hno, rfl⟩⟩ := byte_written_flash (m := m) hmap hjob hram a
    · rw [hbyte, if_pos ha, erased_and]
    · have hnone : job.erase = none := by
        rw [← Option.not_isSome_iff_eq_none]
        exact fun hsome => hno ⟨hsome, ha.sector_eq hjob.lt⟩
      rw [hbyte, if_pos ha, h hram hnone a ha]

/-- A job that erases no sector of a page leaves the page held. -/
theorem written_keeps (hmap : map.WellFormed) (hjob : img.IsJob map i capacity job)
    (hj : j < img.numBlocks) (h : img.Holds m j)
    (hsector : img.inRam map i = false → job.erase.isSome = true →
      (img.flash? map j).isSome = true → img.sectorNo map j ≠ img.sectorNo map i)
    (hplace : img.inRam map j = true ∨ (img.flash? map j).isSome = true) :
    img.Holds (img.written map m i job) j := by
  intro a ha
  cases hram : img.inRam map i with
  | true =>
    rw [byte_written_ram hjob hram]
    split
    · rfl
    · exact h a ha
  | false =>
    obtain ⟨region, hflash, -⟩ := hjob.flash hram
    obtain ⟨old, hbyte, ⟨hsome, hsame, -⟩ | ⟨-, rfl⟩⟩ :=
      byte_written_flash (m := m) hmap hjob hram a
    · -- The byte would be erased, so the page lies in the sector.
      exfalso
      rcases hplace with hramj | hflashj
      · exact not_same_sector hmap hflash hramj ha hsame
      · obtain ⟨region', hflash'⟩ := Option.isSome_iff_exists.mp hflashj
        refine hsector hram hsome hflashj ((sectorNo_eq_iff hmap hflash' hflash).mpr ?_)
        rw [← ha.sector_eq hj, hsame]
    · rw [hbyte, h a ha]
      split
      · exact UInt8.and_self
      · rfl

/-- A job for a page of the image leaves all pages ready. -/
theorem written_ready (hmap : map.WellFormed) (hjob : img.IsJob map i capacity job)
    (h : img.Ready m j) : img.Ready (img.written map m i job) j := by
  intro a ha
  cases hram : img.inRam map i with
  | true =>
    rw [byte_written_ram hjob hram]
    split
    · exact UInt8.and_self
    · exact h a ha
  | false =>
    obtain ⟨old, hbyte, hold⟩ := byte_written_flash (m := m) hmap hjob hram a
    have hready : old &&& img.want a = img.want a := by
      rcases hold with ⟨-, -, rfl⟩ | ⟨-, rfl⟩
      · exact erased_and _
      · exact h a ha
    rw [hbyte]
    split
    · rw [hready, UInt8.and_self]
    · exact hready

/-- A job that erases a sector leaves all pages in it ready. -/
theorem written_erased (hmap : map.WellFormed) (hjob : img.IsJob map i capacity job)
    (hram : img.inRam map i = false) (herase : job.erase.isSome = true) (hj : j < img.numBlocks)
    (hflash' : (img.flash? map j).isSome = true)
    (hsector : img.sectorNo map j = img.sectorNo map i) :
    img.Ready (img.written map m i job) j := by
  intro a ha
  obtain ⟨region, hflash, -⟩ := hjob.flash hram
  obtain ⟨region', hflash'⟩ := Option.isSome_iff_exists.mp hflash'
  have hsame : a.toNat / 4096 = (img.addr i).toNat / 4096 := by
    rw [ha.sector_eq hj]
    exact (sectorNo_eq_iff hmap hflash' hflash).mp hsector
  obtain ⟨old, hbyte, ⟨-, -, rfl⟩ | ⟨hno, -⟩⟩ := byte_written_flash (m := m) hmap hjob hram a
  · rw [hbyte]
    split
    · rw [erased_and, UInt8.and_self]
    · exact erased_and _
  · exact absurd ⟨herase, hsame⟩ hno

end writing

end PagedImage

end Reflash
