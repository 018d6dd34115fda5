import Reflash.Bench.Panel
import Reflash.Proofs.RebootLatch
/-! # Every call is in bounds

  A job may be put together in any way: any effects, any addresses, any lengths. What the
  machine is asked for on its behalf is in bounds nevertheless. All addresses are checked
  before the first byte moves, and a range that goes beyond one region is refused, even if
  it ends at the top of the address space.

  `checkErase` and `target` are the two checks. `inBounds_of_checkErase` and
  `aimed_of_target` say what is known of a range that passed, and `inBounds_plan` that
  nothing else gets into the calls of a plan.
-/

namespace Reflash

/-! ### What a call may ask for -/

/-- A range of flash that may be erased: whole sectors of one region, at least one. -/
structure EraseRange.InBounds (map : AddressMap) (range : EraseRange) : Prop where
  inFlash : map.HasIn .flash range.addr range.len.toNat
  nonempty : 0 < range.len.toNat
  addr : range.addr.toNat % 4096 = 0
  len : range.len.toNat % 4096 = 0
  noWrap : range.addr.toNat + range.len.toNat ≤ UInt32.size

namespace Job

/-- Bytes that may be stored in RAM for a job: those of its page that count, all in one
    region. -/
structure Stores (job : Job) (map : AddressMap) (addr : UInt32) (bytes : Bytes) : Prop where
  inRam : map.HasIn .ram addr bytes.length
  noWrap : addr.toNat + bytes.length ≤ UInt32.size
  inPage : job.length.toNat ≤ 256
  bytes : bytes = job.data.toList.take job.length.toNat

/-- Bytes that may be programmed for a job: those of its page that count, whole pages of
    flash in one region. -/
structure Programs (job : Job) (map : AddressMap) (addr : UInt32) (bytes : Bytes) : Prop where
  inFlash : map.HasIn .flash addr bytes.length
  noWrap : addr.toNat + bytes.length ≤ UInt32.size
  addr : addr.toNat % 256 = 0
  length : bytes.length % 256 = 0
  inPage : job.length.toNat ≤ 256
  bytes : bytes = job.data.toList.take job.length.toNat

/-- Memory that may be read for a job: as much as it asks for and its page has room for,
    all in one region. -/
structure Loads (job : Job) (map : AddressMap) (addr len : UInt32) : Prop where
  inRegion : map.Has addr len.toNat
  noWrap : addr.toNat + len.toNat ≤ UInt32.size
  inPage : len.toNat ≤ 256
  length : len = job.length

end Job

/-- What the machine may be asked for when a job is carried out. -/
def Call.InBounds (map : AddressMap) (job : Job) : Call → Prop
  | .read addr len => job.Loads map addr len
  | .writeRam addr bytes => job.Stores map addr bytes
  | .updateFlash update => job.exitXip = true ∧ (∀ range ∈ update.erase, range.InBounds map)
      ∧ ∀ page ∈ update.program, job.Programs map page.1 page.2
  | .exec _ | .eject => True
  -- These are asked for when a job is told of, and not when it is carried out.
  | .reboot _ | .complete _ => False

/-! ### The two checks -/

theorem mod_eraseSize_eq_zero {n : UInt32} : n % eraseSize = 0 ↔ n.toNat % 4096 = 0 := by
  rw [← UInt32.toNat_inj, UInt32.toNat_mod, toNat_eraseSize]
  rfl

theorem mod_pageSize_eq_zero {n : UInt32} : n % pageSize = 0 ↔ n.toNat % 256 = 0 := by
  rw [← UInt32.toNat_inj, UInt32.toNat_mod, toNat_pageSize]
  rfl

namespace Job

variable {job : Job} {map : AddressMap} {exitXip : Bool}

/-- A range passes the check if flash has it and it is made of whole sectors. It is refused
    for its place before it is refused for its size. -/
theorem checkErase_eq (map : AddressMap) (exitXip : Bool) (range : EraseRange) :
    checkErase map exitXip range =
      if ¬ (exitXip = true ∧ map.HasIn .flash range.addr range.len.toNat) then
        .error .invalidAddress
      else if 0 < range.len.toNat ∧ range.addr.toNat % 4096 = 0 ∧ range.len.toNat % 4096 = 0 then
        .ok range
      else .error .badAlignment := by
  have hplace : (!exitXip || (map.findOf? .flash range.addr range.len).isNone) = true
      ↔ ¬ (exitXip = true ∧ map.HasIn .flash range.addr range.len.toNat) := by
    rw [← AddressMap.isSome_findOf?]
    cases exitXip <;> cases map.findOf? .flash range.addr range.len <;> simp
  have hempty : range.len = 0 ↔ ¬ 0 < range.len.toNat := by
    rw [← UInt32.toNat_inj, UInt32.toNat_zero]
    omega
  unfold checkErase
  simp only [hplace, Bool.or_eq_true, decide_eq_true_eq, bne_iff_ne, hempty, ne_eq,
    mod_eraseSize_eq_zero]
  split
  · rfl
  · split
    · rw [if_neg (by tauto)]
    · rw [if_pos (by tauto)]

/-- A range that passed the check is in bounds. -/
theorem inBounds_of_checkErase {range checked : EraseRange} (hmap : map.Bounded)
    (h : checkErase map exitXip range = .ok checked) :
    exitXip = true ∧ checked.InBounds map := by
  rw [checkErase_eq] at h
  split at h
  · cases h
  · rename_i hplace
    obtain ⟨hxip, hflash⟩ := not_not.mp hplace
    split at h
    · rename_i haligned
      cases h
      obtain ⟨hpos, haddr, hlen⟩ := haligned
      exact ⟨hxip, hflash, hpos, haddr, hlen, hmap.of_has hflash.has⟩
    · cases h

/-- Where the bytes of a job go, and what was checked before that. -/
inductive Aimed (job : Job) (map : AddressMap) : Target → Prop
  | nowhere : job.transfer = none → Aimed job map .nowhere
  | ram : job.transfer = some .write → job.length.toNat ≤ 256 →
      map.HasIn .ram job.addr job.length.toNat → Aimed job map .ram
  | flash : job.transfer = some .write → job.length.toNat ≤ 256 → job.exitXip = true →
      map.HasIn .flash job.addr job.length.toNat → job.addr.toNat % 256 = 0 →
      job.length.toNat % 256 = 0 → Aimed job map .flash
  | page : job.transfer = some .read → job.length.toNat ≤ 256 →
      map.Has job.addr job.length.toNat → Aimed job map .page

/-- The target of a job that writes, if a page has room for its bytes. RAM comes before
    flash, and a place in neither is refused before an alignment is. -/
theorem target_of_write (hwrite : job.transfer = some .write) (hroom : job.length.toNat ≤ 256)
    (map : AddressMap) :
    job.target map =
      if map.HasIn .ram job.addr job.length.toNat then .ok .ram
      else if job.exitXip = true ∧ map.HasIn .flash job.addr job.length.toNat then
        if job.addr.toNat % 256 = 0 ∧ job.length.toNat % 256 = 0 then .ok .flash
        else .error .badAlignment
      else .error .invalidAddress := by
  have hlong : ¬ 256 < job.length := fun hlt => Nat.not_lt.mpr hroom (UInt32.lt_iff_toNat_lt.mp hlt)
  unfold target
  simp only [hwrite, if_neg hlong, AddressMap.isSome_findOf?, Bool.and_eq_true, Bool.or_eq_true,
    bne_iff_ne, ne_eq, mod_pageSize_eq_zero]
  split
  · rfl
  · split
    · split
      · rw [if_neg (by tauto)]
      · rw [if_pos (by tauto)]
    · rfl

/-- The target of a job that reads, if a page has room for its bytes. -/
theorem target_of_read (hread : job.transfer = some .read) (hroom : job.length.toNat ≤ 256)
    (map : AddressMap) :
    job.target map =
      if map.Has job.addr job.length.toNat then .ok .page else .error .invalidAddress := by
  have hlong : ¬ 256 < job.length := fun hlt => Nat.not_lt.mpr hroom (UInt32.lt_iff_toNat_lt.mp hlt)
  unfold target
  simp only [hread, if_neg hlong, AddressMap.isSome_find?]

/-- Whatever a job is like, its bytes go where they may. -/
theorem aimed_of_target {target : Target} (h : job.target map = .ok target) :
    job.Aimed map target := by
  cases hdirection : job.transfer with
  | none =>
    simp only [Job.target, hdirection] at h
    cases h
    exact .nowhere hdirection
  | some direction =>
    have hroom : job.length.toNat ≤ 256 := by
      by_contra hlong
      have hlt : 256 < job.length := UInt32.lt_iff_toNat_lt.mpr (Nat.not_le.mp hlong)
      simp only [Job.target, hdirection, if_pos hlt] at h
      cases h
    cases direction with
    | read =>
      rw [target_of_read hdirection hroom] at h
      split at h
      · cases h
        exact .page hdirection hroom ‹_›
      · cases h
    | write =>
      rw [target_of_write hdirection hroom] at h
      split at h
      · cases h
        exact .ram hdirection hroom ‹_›
      · split at h
        · rename_i hflash
          split at h
          · rename_i haligned
            cases h
            exact .flash hdirection hroom hflash.1 hflash.2 haligned.1 haligned.2
          · cases h
        · cases h

/-- The bytes of a job are as many as it says, if a page has room for them. -/
theorem length_payload (h : job.length.toNat ≤ 256) : job.payload.length = job.length.toNat := by
  unfold payload
  rw [List.length_take, Vector.length_toList]
  omega

/-! ### The calls of a plan -/

/-- What is erased for a job passed the check. -/
theorem inBounds_of_erase {erase : Option EraseRange} (hmap : map.Bounded)
    (h : job.erase.mapM (checkErase map job.exitXip) = .ok erase) :
    ∀ range ∈ erase, job.exitXip = true ∧ range.InBounds map := by
  intro range hrange
  obtain rfl := Option.mem_def.mp hrange
  cases hasked : job.erase with
  | none =>
    rw [hasked] at h
    cases h
  | some asked =>
    rw [hasked] at h
    cases hcheck : checkErase map job.exitXip asked with
    | error status => simp [hcheck] at h
    | ok checked =>
      obtain rfl : checked = range := by simpa [hcheck] using h
      exact inBounds_of_checkErase hmap hcheck

theorem Aimed.stores (hmap : map.Bounded) (h : job.Aimed map .ram) :
    job.Stores map job.addr job.payload := by
  cases h with
  | ram _ hroom hram =>
    have hlength := length_payload hroom
    rw [← hlength] at hram
    exact ⟨hram, hmap.of_has hram.has, hroom, rfl⟩

theorem Aimed.programs (hmap : map.Bounded) (h : job.Aimed map .flash) :
    job.exitXip = true ∧ job.Programs map job.addr job.payload := by
  cases h with
  | flash _ hroom hxip hflash haddr hlength =>
    rw [← length_payload hroom] at hflash hlength
    exact ⟨hxip, hflash, hmap.of_has hflash.has, haddr, hlength, hroom, rfl⟩

theorem Aimed.loads (hmap : map.Bounded) (h : job.Aimed map .page) :
    job.Loads map job.addr job.length := by
  cases h with
  | page _ hroom hread => exact ⟨hread, hmap.of_has hread, hroom, rfl⟩

/-- Every call that a job leads to is in bounds. -/
theorem inBounds_plan (hmap : map.Bounded) (job : Job) (rebooting : Bool)
    (lastWriter : Option Channel) :
    ∀ call ∈ (job.plan map rebooting lastWriter).calls, call.InBounds map job := by
  intro call hcall
  rcases plan_calls_cases hcall with hopening | ⟨erase, target, herase, htarget, hmoved⟩
  · rcases openingCalls_cases hopening with rfl | ⟨entry, rfl⟩ <;> trivial
  · have hchecked := inBounds_of_erase hmap herase
    have haimed := aimed_of_target htarget
    rcases moves_cases hmoved with ⟨hsome, rfl⟩ | ⟨rfl, rfl⟩ | ⟨rfl, rfl⟩
    · have hprogram : ∀ page ∈ (if target = .flash then some (job.addr, job.payload) else none),
          job.exitXip = true ∧ job.Programs map page.1 page.2 := by
        intro page hpage
        split at hpage
        · rename_i hflash
          subst hflash
          obtain rfl := Option.mem_some_iff.mp hpage
          exact haimed.programs hmap
        · cases hpage
      have hxip : job.exitXip = true := by
        rcases hsome with hsome | rfl
        · obtain ⟨range, hrange⟩ := Option.isSome_iff_exists.mp hsome
          exact (hchecked range hrange).1
        · exact (haimed.programs hmap).1
      exact ⟨hxip, fun range hrange => (hchecked range hrange).2,
        fun page hpage => (hprogram page hpage).2⟩
    · exact haimed.stores hmap
    · exact haimed.loads hmap

end Job

/-! ### Carrying a job out -/

/-- Whatever the state of the device and whatever the job, what the machine is asked for
    while the job is carried out is in bounds, if no region goes beyond the last address. -/
theorem Device.execute_inBounds {σ : Type} [Machine σ] (d : Device (Logged σ)) (job : Job)
    (hmap : d.core.config.map.Bounded) :
    ∃ calls, (d.execute job).1.machine.calls = calls.reverse ++ d.machine.calls
      ∧ (d.execute job).1.machine.machine = Machine.performAll d.machine.machine calls
      ∧ ∀ call ∈ calls, call.InBounds d.core.config.map job :=
  ⟨(job.plan d.core.config.map d.core.rebooting d.lastWriter).calls,
    Logged.calls_performAll _ _, Logged.machine_performAll _ _,
    Job.inBounds_plan hmap job d.core.rebooting d.lastWriter⟩

/-- Two regions that overlap and end with the last address. -/
def topMap : AddressMap := [⟨.flash, 0xFFFF0000, 0x10000⟩, ⟨.ram, 0xFFFFF000, 0x1000⟩]

/-- The last two sectors are to be erased, and the page before RAM begins to be
    programmed. -/
def topJob : Job :=
  { Job.idle .disk 0 with
    exitXip := true, erase := some ⟨0xFFFFE000, 0x2000⟩, transfer := some .write
    addr := 0xFFFFEF00, length := 256 }

/-- A device with these regions. -/
def topDevice : Device (Logged Recorder) :=
  Device.fresh (.fresh ⟨topMap, 0, 0, 0⟩ default) (Logged.new ⟨[]⟩)

/-- A job may erase to the very top of the address space and program a page below it. -/
theorem Device.execute_inBounds_top :
    topDevice.core.config.map.Bounded
      ∧ (topDevice.execute topJob).1.machine.calls
        = [.updateFlash ⟨some ⟨0xFFFFE000, 0x2000⟩, some (0xFFFFEF00, List.replicate 256 0)⟩]
      ∧ ∃ calls, (topDevice.execute topJob).1.machine.calls = calls.reverse ++ []
        ∧ (topDevice.execute topJob).1.machine.machine = Machine.performAll ⟨[]⟩ calls
        ∧ ∀ call ∈ calls, call.InBounds topMap topJob :=
  ⟨by decide, by decide +kernel, topDevice.execute_inBounds topJob (by decide)⟩

end Reflash
