import Reflash.Device
import Reflash.Proofs.Sector
import Reflash.Proofs.Upload
/-! # What the job for a page does

  The job that an upload makes for a block writes one page. If the page lies in
  RAM, its bytes are stored. If it lies in flash, its erase sector is erased where
  the job says so, and then the page is programmed, in one update. Both end well,
  unless a reboot is due: then nothing is carried out.
-/

namespace Reflash

/-- The payload of a block that a device takes fills a page. -/
theorem Block.length_payload {sector : Sector} {familyId : UInt32} {block : Block}
    (h : Block.ofSectorFor? sector familyId = .ok block) : block.payload.length = 256 := by
  have hsize : block.header.payloadSize = pageSize := by
    unfold ofSectorFor? at h
    cases hsector : ofSector? sector with
    | error e => rw [hsector] at h; cases h
    | ok b =>
      rw [hsector] at h
      by_cases hfor : isFor familyId b.header = true
      · have hb : b = block := by
          simpa [bind, Except.bind, pure, Except.pure, hfor] using h
        subst hb
        simp only [isFor, Bool.and_eq_true, decide_eq_true_eq] at hfor
        exact hfor.2
      · simp [bind, Except.bind, hfor, throw, throwThe, MonadExceptOf.throw] at h
  unfold payload
  rw [hsize, List.length_take, Vector.length_toList]
  rfl

namespace Job

/-! ### The job -/

/-- A job of the disk that writes a page and does nothing else but erase. -/
structure WritesPage (job : Job) : Prop where
  access : job.access = none
  execute : job.execute = false
  transfer : job.transfer = some .write
  guarded : job.guarded = false
  length : job.length = pageSize
  source : job.source = .disk

/-- A page that is all overlaid is what it is overlaid with. -/
theorem overlay_page {old : Page} {bytes : Bytes} (h : bytes.length = 256) :
    (overlay old bytes).toList = bytes := by
  show bytes.take 256 ++ old.toList.drop bytes.length = bytes
  rw [List.take_of_length_le (Nat.le_of_eq h), List.drop_of_length_le (by simp [h]),
    List.append_nil]

theorem writesPage_pageJob {v : Upload} {block : Block} {token : UInt32} {flash : Option Region}
    (h : block.payload.length = 256) : (v.pageJob block token flash).WritesPage := by
  refine ⟨rfl, rfl, rfl, rfl, ?_, rfl⟩
  show UInt32.ofNat block.payload.length = pageSize
  rw [h]
  rfl

theorem payload_pageJob {v : Upload} {block : Block} {token : UInt32} {flash : Option Region}
    (h : block.payload.length = 256) : (v.pageJob block token flash).payload = block.payload := by
  have hlength : (UInt32.ofNat block.payload.length).toNat = 256 := by rw [h]; rfl
  show (overlay (Vector.replicate 256 0) block.payload).toList.take
    (UInt32.ofNat block.payload.length).toNat = block.payload
  rw [hlength, overlay_page h, List.take_of_length_le (Nat.le_of_eq h)]

theorem WritesPage.length_payload {job : Job} (h : job.WritesPage) : job.payload.length = 256 := by
  unfold payload
  rw [h.length, List.length_take, Vector.length_toList]
  rfl

/-! ### Its plan -/

variable {job : Job} {map : AddressMap} {region : Region} {capacity : UInt32}

/-- If its ranges are fit, a job for a page makes the calls that move it. -/
theorem WritesPage.plan_of_checkedMoves (hjob : job.WritesPage) {moves : List Call}
    (hmoves : job.checkedMoves map = .ok moves) (lastWriter : Option Channel) :
    job.plan map false lastWriter =
      { status := .ok, calls := moves, access := none, lastWriter := some .disk } := by
  have hopening : job.openingCalls = [] := by
    simp [openingCalls, hjob.access, hjob.execute]
  have hrefused : job.isRefused lastWriter = false := by simp [isRefused, hjob.guarded]
  have hmutation : job.isMutation = true := by simp [isMutation, hjob.transfer]
  simp [plan, hrefused, hmutation, hmoves, hopening, hjob.access, hjob.source]

/-- A page of RAM is stored. -/
theorem WritesPage.plan_ram (hjob : job.WritesPage)
    (hram : (map.findOf? .ram job.addr pageSize).isSome = true) (herase : job.erase = none)
    (lastWriter : Option Channel) :
    job.plan map false lastWriter =
      { status := .ok, calls := [.writeRam job.addr job.payload], access := none
        lastWriter := some .disk } := by
  have htarget : job.target map = .ok .ram := by
    simp only [target, hjob.transfer, hjob.length, hram, if_true]
    rfl
  have hmoves : job.checkedMoves map = .ok [.writeRam job.addr job.payload] := by
    simp [checkedMoves, herase, htarget, moves, bind, Except.bind, pure, Except.pure]
  exact hjob.plan_of_checkedMoves hmoves lastWriter

/-- The erase sector of a page of flash may be erased. -/
theorem checkErase_sector (hregion : map.findOf? .flash job.addr pageSize = some region)
    (haligned : region.Aligned) :
    checkErase map true ⟨region.sectorBase job.addr, eraseSize⟩
      = .ok ⟨region.sectorBase job.addr, eraseSize⟩ := by
  have hcovers := AddressMap.covers_of_findOf? hregion
  have hcontains := AddressMap.contains_of_findOf? hregion
  have hfound : (map.findOf? .flash (region.sectorBase job.addr) eraseSize).isSome = true :=
    AddressMap.findOf?_isSome_iff.mpr ⟨region, AddressMap.mem_of_findOf? hregion,
      AddressMap.kind_of_findOf? hregion, Region.covers_sector haligned hcontains⟩
  have hstart : region.sectorBase job.addr % eraseSize = 0 := by
    rw [← UInt32.toNat_inj, UInt32.toNat_mod,
      Region.toNat_sectorBase haligned (Region.base_le_of_covers hcovers)]
    exact Nat.mul_mod_left _ _
  have hisNone : (map.findOf? .flash (region.sectorBase job.addr) eraseSize).isNone = false := by
    rw [← Option.not_isSome, hfound]
    rfl
  have hend : eraseSize % eraseSize = 0 := by decide
  have hsize : eraseSize ≠ 0 := by decide
  simp [checkErase, hisNone, hstart, hend, hsize]

/-- A page of flash is programmed, after its sector was erased if the job says
    so. -/
theorem WritesPage.plan_flash (hjob : job.WritesPage)
    (hram : map.findOf? .ram job.addr pageSize = none)
    (hregion : map.findOf? .flash job.addr pageSize = some region) (haligned : region.Aligned)
    (hexit : job.exitXip = true) (haddr : job.addr % pageSize = 0)
    (herase : job.erase = none ∨ job.erase = some ⟨region.sectorBase job.addr, eraseSize⟩)
    (lastWriter : Option Channel) :
    job.plan map false lastWriter =
      { status := .ok, calls := [.updateFlash ⟨job.erase, some (job.addr, job.payload)⟩]
        access := none, lastWriter := some .disk } := by
  have htarget : job.target map = .ok .flash := by
    simp only [target, hjob.transfer, hjob.length, hram, hregion, hexit, haddr]
    rfl
  have hchecked : job.erase.mapM (checkErase map job.exitXip) = .ok job.erase := by
    rcases herase with hnone | hsome
    · rw [hnone]
      rfl
    · rw [hsome, hexit]
      simp [checkErase_sector hregion haligned]
  have hmoves : job.checkedMoves map
      = .ok [.updateFlash ⟨job.erase, some (job.addr, job.payload)⟩] := by
    simp [checkedMoves, hchecked, htarget, moves, bind, Except.bind, pure, Except.pure]
  exact hjob.plan_of_checkedMoves hmoves lastWriter

/-! ### Where it writes -/

/-- A job for a page that lies in RAM, or in a sector of flash that is tracked. In
    flash it may erase that sector. -/
inductive Placed (map : AddressMap) (capacity : UInt32) (job : Job) : Prop where
  | ram : (map.findOf? .ram job.addr pageSize).isSome = true → job.erase = none →
      Placed map capacity job
  | flash (region : Region) : map.findOf? .ram job.addr pageSize = none →
      map.findOf? .flash job.addr pageSize = some region →
      region.sectorNo job.addr < capacity → job.exitXip = true → job.addr % pageSize = 0 →
      (job.erase = none ∨ job.erase = some ⟨region.sectorBase job.addr, eraseSize⟩) →
      Placed map capacity job

/-- The call that a job for a page makes. -/
def pageCall (map : AddressMap) (job : Job) : Call :=
  if (map.findOf? .ram job.addr pageSize).isSome then .writeRam job.addr job.payload
  else .updateFlash ⟨job.erase, some (job.addr, job.payload)⟩

theorem pageCall_of_flash (h : map.findOf? .ram job.addr pageSize = none) :
    job.pageCall map = .updateFlash ⟨job.erase, some (job.addr, job.payload)⟩ := by
  rw [pageCall, if_neg (by simp [h])]

/-- Where a job has a place, its plan is that one call, if flash is made of whole
    erase sectors there. -/
theorem WritesPage.plan_of_aligned (hjob : job.WritesPage) (hplaced : job.Placed map capacity)
    (haligned : ∀ region, map.findOf? .flash job.addr pageSize = some region → region.Aligned)
    (lastWriter : Option Channel) :
    job.plan map false lastWriter =
      { status := .ok, calls := [job.pageCall map], access := none, lastWriter := some .disk } := by
  cases hplaced with
  | ram hram herase =>
    rw [hjob.plan_ram hram herase, pageCall, if_pos hram]
  | flash region hram hregion _ hexit hpage herase =>
    rw [hjob.plan_flash hram hregion (haligned region hregion) hexit hpage herase,
      pageCall_of_flash hram]

/-- Where a job has a place, its plan is that one call. -/
theorem WritesPage.plan_placed (hjob : job.WritesPage) (hplaced : job.Placed map capacity)
    (hmap : map.WellFormed) (lastWriter : Option Channel) :
    job.plan map false lastWriter =
      { status := .ok, calls := [job.pageCall map], access := none, lastWriter := some .disk } :=
  hjob.plan_of_aligned hplaced (fun _ hregion => hmap.aligned_of_findOf? hregion) lastWriter

end Job

/-! ### Carrying it out -/

namespace Device

variable {σ : Type} [Machine σ] {job : Job}

/-- A job that writes a page comes back as it was, and the device changes as its
    plan says. -/
theorem execute_page (d : Device σ) (hjob : job.WritesPage) {p : Job.Plan}
    (hplan : job.plan d.core.config.map d.core.rebooting d.lastWriter = p)
    (haccess : p.access = none) :
    d.execute job = ({ d with
      lastWriter := p.lastWriter, machine := Machine.performAll d.machine p.calls }, job, p.status)
    := by
  have hreads : p.reads job = false := by simp [Job.Plan.reads, hjob.transfer]
  simp only [execute, hplan, haccess, Job.carriedOut, hreads, Bool.false_eq_true, if_false]

/-- A job that has a place makes its one call when it is carried out. -/
theorem execute_placed (d : Device σ) {capacity : UInt32} (hjob : job.WritesPage)
    (hplaced : job.Placed d.core.config.map capacity)
    (hmap : d.core.config.map.WellFormed) (hdue : d.core.rebooting = false) :
    d.execute job = ({ d with
      lastWriter := some .disk
      machine := Machine.perform d.machine (job.pageCall d.core.config.map) }, job, .ok) := by
  have hplan := hjob.plan_placed hplaced hmap d.lastWriter
  rw [← hdue] at hplan
  rw [d.execute_page hjob hplan rfl]
  rfl

/-- Once a reboot is due, nothing is carried out. -/
theorem execute_of_rebooting (d : Device σ) (job : Job) (h : d.core.rebooting = true) :
    d.execute job = (d, job, .rebooting) := by
  have hplan : job.plan d.core.config.map d.core.rebooting d.lastWriter
      = { status := .rebooting, calls := [], access := none, lastWriter := d.lastWriter } := by
    simp [Job.plan, h]
  have hreads : ∀ p : Job.Plan, p.status = .rebooting → p.reads job = false := by
    intro p hp
    simp [Job.Plan.reads, hp]
  simp only [execute, hplan, Job.carriedOut, hreads, Bool.false_eq_true, if_false]
  rfl

end Device

end Reflash
