import Reflash.Proofs.Attribution
import Reflash.Proofs.CompletedImage
/-! # Which sectors of flash are noted as erased

  The job for a page of flash erases the sector of the page, unless that was done
  for the upload. Whether it was is decided when the job is made, and taken down
  only when a job is told of; in between, other jobs may be accepted, displaced,
  refused or overtaken. The blocks may lie anywhere, and a block may come twice
  with two addresses.

  `Upload.Tended` says which sectors are noted: those of the jobs that counted, and
  those of the jobs that were made without an erase. `Device.Orderly` says that the
  jobs which are still to run and erase their sector are for sectors that are not
  noted. Every step keeps both, where the tokens are distinct and none is zero.
-/

namespace Reflash

/-! ### The sector of a job -/

namespace Job

/-- The sector of a job is noted as erased, if the job writes to flash. -/
def Ready (map : AddressMap) (u : Upload) (job : Job) : Prop :=
  ∀ region, map.findOf? .flash job.addr pageSize = some region →
    u.erasedSectors.contains (region.sectorNo job.addr) = true

/-- The sector of a job is not noted as erased. -/
def Unready (map : AddressMap) (u : Upload) (job : Job) : Prop :=
  ∀ region, map.findOf? .flash job.addr pageSize = some region →
    u.erasedSectors.contains (region.sectorNo job.addr) = false

variable {map : AddressMap} {capacity : UInt32} {job : Job} {u v : Upload}

/-- A job that erases something writes to flash. -/
theorem Placed.erase_eq_some {range : EraseRange} (h : job.Placed map capacity)
    (herase : job.erase = some range) :
    ∃ region, map.findOf? .flash job.addr pageSize = some region
      ∧ region.sectorNo job.addr < capacity ∧ range = ⟨region.sectorBase job.addr, eraseSize⟩ := by
  cases h with
  | ram _ hnone => simp [hnone] at herase
  | flash region _ hregion hlt _ _ hrange =>
    rcases hrange with hnone | hsome
    · simp [hnone] at herase
    · exact ⟨region, hregion, hlt, Option.some.inj (herase.symm.trans hsome)⟩

end Job

namespace Upload

variable {map : AddressMap} {capacity : UInt32} {job : Job} {u v : Upload} {s : UInt32}

/-- What is noted when a job is credited is the sector that it erased. -/
theorem contains_erasedWith_iff (hmap : map.WellFormed) (hjob : job.Placed map capacity)
    (hcapacity : u.erasedSectors.capacity = capacity) :
    (u.erasedWith map job.erase).contains s = true ↔ u.erasedSectors.contains s = true
      ∨ ∃ region, map.findOf? .flash job.addr pageSize = some region
        ∧ job.erase.isSome = true ∧ s = region.sectorNo job.addr := by
  cases herase : job.erase with
  | none => simp [erasedWith]
  | some range =>
    obtain ⟨region, hregion, hlt, rfl⟩ := hjob.erase_eq_some herase
    have haligned := hmap.aligned_of_findOf? hregion
    have hbase := AddressMap.base_le_of_findOf? hregion
    have hroom : (region.sectorNo job.addr).toNat < u.erasedSectors.room :=
      IndexSet.lt_room_of_lt_capacity (by rw [hcapacity]; exact hlt)
    simp only [erasedWith, hmap.findOf?_sectorBase hregion,
      Region.sectorNo_sectorBase haligned hbase, IndexSet.contains_insert, hroom, and_true,
      Bool.or_eq_true, decide_eq_true_eq, hregion, Option.some.injEq, Option.isSome_some,
      true_and, exists_eq_left', @eq_comm _ s]

/-- Joining an upload notes no sector. -/
theorem contains_of_joined {block : Block} {config : Config}
    (h : (u.joined block config).1.erasedSectors.contains s = true) :
    u.numBlocks = block.header.numBlocks ∧ u.erasedSectors.contains s = true := by
  by_cases hn : u.numBlocks = block.header.numBlocks
  · rw [joined_of_eq hn] at h
    exact ⟨hn, h⟩
  · rw [joined_of_ne hn, (start_started _ _ _).erasedSectors] at h
    simp at h

theorem capacity_joined (u : Upload) (block : Block) (config : Config) :
    (u.joined block config).1.erasedSectors.capacity = u.erasedSectors.capacity := by
  by_cases hn : u.numBlocks = block.header.numBlocks
  · rw [joined_of_eq hn]
  · rw [joined_of_ne hn, (start_started _ _ _).erasedSectors, IndexSet.capacity_clear]

section taking

variable {block : Block} {token : UInt32} {config : Config}

/-- The job for a block that is taken has a place, if its page does not lie both in
    RAM and in flash. -/
theorem placed_of_apart (token : UInt32)
    (hapart : (ramOf config.map block).isSome = true → flashOf config.map block = none)
    (hstay : turnsAway block config false = false)
    (hkeep : ¬ Drops (u.joined block config).1 (u.joined block config).2 block config) :
    ((u.joined block config).1.pageJob block token (flashOf config.map block)).forUpload.Placed
      config.map u.erasedSectors.capacity := by
  simp only [turnsAway, Bool.or_false, Bool.or_eq_false_iff, Bool.and_eq_false_iff] at hstay
  obtain ⟨⟨-, hplace⟩, haligned⟩ := hstay
  cases hram : (ramOf config.map block).isSome with
  | true =>
    refine .ram hram ?_
    show Option.bind (flashOf config.map block) _ = none
    rw [hapart hram]
    rfl
  | false =>
    have hnone : ramOf config.map block = none := Option.not_isSome_iff_eq_none.mp (by simp [hram])
    cases hflash : flashOf config.map block with
    | none => simp [hnone, hflash] at hplace
    | some region =>
      refine .flash region hnone hflash ?_ rfl ?_ ?_
      · rw [← capacity_joined u block config]
        exact UInt32.not_le.mp fun hle => hkeep (.inr (.inr (.inr (.inr ⟨region, hflash, hle⟩))))
      · have hpage : block.header.targetAddr % pageSize = 0 := by simpa [hflash] using haligned
        exact hpage
      · show (u.joined block config).1.eraseFor region block.header.targetAddr = none
          ∨ (u.joined block config).1.eraseFor region block.header.targetAddr
            = some ⟨region.sectorBase block.header.targetAddr, eraseSize⟩
        unfold eraseFor
        split
        · exact .inl rfl
        · exact .inr rfl

/-- The job for a block that is taken has a place. -/
theorem placed_pageJob (token : UInt32) (hmap : config.map.WellFormed)
    (hstay : turnsAway block config false = false)
    (hkeep : ¬ Drops (u.joined block config).1 (u.joined block config).2 block config) :
    ((u.joined block config).1.pageJob block token (flashOf config.map block)).forUpload.Placed
      config.map u.erasedSectors.capacity :=
  placed_of_apart token hmap.findOf?_flash_eq_none hstay hkeep

/-- The job for a block erases its sector unless that is noted as erased. -/
theorem ready_pageJob
    (h : ((u.joined block config).1.pageJob block token
      (flashOf config.map block)).forUpload.erase = none) :
    Job.Ready config.map (u.joined block config).1
      ((u.joined block config).1.pageJob block token (flashOf config.map block)).forUpload := by
  intro region hregion
  have hflash : flashOf config.map block = some region := hregion
  have herase : (u.joined block config).1.eraseFor region block.header.targetAddr = none := by
    rw [hflash] at h
    exact h
  unfold eraseFor at herase
  split at herase
  · assumption
  · cases herase

theorem unready_pageJob
    (h : ((u.joined block config).1.pageJob block token
      (flashOf config.map block)).forUpload.erase.isSome = true) :
    Job.Unready config.map (u.joined block config).1
      ((u.joined block config).1.pageJob block token (flashOf config.map block)).forUpload := by
  intro region hregion
  have hflash : flashOf config.map block = some region := hregion
  have herase : ((u.joined block config).1.eraseFor region block.header.targetAddr).isSome
      = true := by
    rw [hflash] at h
    exact h
  unfold eraseFor at herase
  split at herase
  · cases herase
  · exact Bool.eq_false_iff.mpr ‹_›

end taking

end Upload

/-! ### Jobs that counted -/

namespace Journal

variable {i : UInt32} {job : Job} {e : Entry} {journal : Journal}

/-- A job was accepted for block `i`, ended well and was told of before the next
    one was accepted. It is the job that a block counts for. -/
def CountedBy (i : UInt32) (job : Job) (journal : Journal) : Prop :=
  ∃ later mid earlier,
    journal = later ++ .told job.endedWell :: (mid ++ .accepted i job :: earlier)
      ∧ .carriedOut job.endedWell ∈ mid ∧ ∀ e ∈ mid, Entry.isAccepted e = false

theorem WrittenInTime.exists_countedBy (h : WrittenInTime i journal) :
    ∃ job, CountedBy i job journal := by
  obtain ⟨later, mid, earlier, job, hjournal, hcarried, hmid⟩ := h
  exact ⟨job, later, mid, earlier, hjournal, hcarried, hmid⟩

theorem CountedBy.accepted_mem (h : CountedBy i job journal) : .accepted i job ∈ journal := by
  obtain ⟨later, mid, earlier, rfl, -⟩ := h
  simp

theorem not_countedBy_nil : ¬ CountedBy i job [] := by
  rintro ⟨later, mid, earlier, hjournal, -⟩
  simp at hjournal

/-- A job that counted did so before the last entry, or it is told of there while
    it is the one that is awaited. -/
theorem CountedBy.of_cons (h : CountedBy i job (e :: journal)) :
    (e = .told job.endedWell ∧ .accepted i job ∈ journal
      ∧ journal.awaited = (i, job.token)) ∨ CountedBy i job journal := by
  obtain ⟨later, mid, earlier, hjournal, hcarried, hmid⟩ := h
  cases later with
  | nil =>
    obtain ⟨rfl, rfl⟩ := List.cons.inj hjournal
    left
    rw [awaited_append hmid, awaited_accepted]
    exact ⟨rfl, by simp, rfl⟩
  | cons e' later =>
    obtain ⟨rfl, rfl⟩ := List.cons.inj hjournal
    exact .inr ⟨later, mid, earlier, rfl, hcarried, hmid⟩

end Journal

namespace Upload

/-! ### What is noted as erased -/

/-- The sector of a job is noted if the job counted, or if it was made without an
    erase. -/
structure Tended (u : Upload) (map : AddressMap) (capacity : UInt32) (journal : Journal) :
    Prop where
  size : u.erasedSectors.capacity = capacity
  placed : ∀ i job, .accepted i job ∈ journal →
    job.listener = some .upload ∧ job.WritesPage ∧ job.Placed map capacity
  ready : u.numBlocks ≠ 0 → ∀ i job, .accepted i job ∈ journal.current → job.erase = none →
    job.Ready map u
  noted : u.numBlocks ≠ 0 → ∀ i job, journal.current.CountedBy i job → job.Ready map u

variable {u v : Upload} {map : AddressMap} {capacity : UInt32} {journal : Journal} {e : Entry}

/-- Of an upload that was just started, or is not there, nothing is to be
    noted. -/
theorem tended_of_boundary (hsize : u.erasedSectors.capacity = capacity)
    (hplaced : ∀ i job, .accepted i job ∈ journal →
      job.listener = some .upload ∧ job.WritesPage ∧ job.Placed map capacity)
    (he : e.isBoundary = true) : u.Tended map capacity (e :: journal) := by
  have hcurrent : Journal.current (e :: journal) = [] := Journal.current_of_boundary he
  refine ⟨hsize, fun i job hmem => ?_, fun _ i job hmem => ?_, fun _ i job hcounted => ?_⟩
  · rcases List.mem_cons.mp hmem with rfl | hmem
    · cases he
    · exact hplaced i job hmem
  · rw [hcurrent] at hmem
    cases hmem
  · rw [hcurrent] at hcounted
    exact absurd hcounted Journal.not_countedBy_nil

/-- Sectors that are noted stay so while no upload is started. -/
theorem Tended.note (hu : u.Tended map capacity journal)
    (hsize : v.erasedSectors.capacity = u.erasedSectors.capacity)
    (hn : v.numBlocks ≠ 0 → u.numBlocks ≠ 0)
    (hmore : ∀ s, u.erasedSectors.contains s = true → v.erasedSectors.contains s = true)
    (hboundary : e.isBoundary = false) (haccepted : e.isAccepted = false)
    (hcounted : v.numBlocks ≠ 0 → ∀ i job, e = .told job.endedWell →
      .accepted i job ∈ journal.current → journal.current.awaited = (i, job.token) →
      job.Ready map v) : v.Tended map capacity (e :: journal) := by
  have hcurrent : Journal.current (e :: journal) = e :: journal.current :=
    Journal.current_cons hboundary
  have hstays : ∀ job : Job, job.Ready map u → job.Ready map v :=
    fun _ hready region hregion => hmore _ (hready region hregion)
  have hold : ∀ i job, ∀ es : Journal, .accepted i job ∈ e :: es → .accepted i job ∈ es := by
    intro i job es hmem
    rcases List.mem_cons.mp hmem with rfl | hmem
    · cases haccepted
    · exact hmem
  refine ⟨hsize.trans hu.size, fun i job hmem => hu.placed i job (hold i job _ hmem), ?_,
    ?_⟩
  · intro hv i job hmem hnone
    rw [hcurrent] at hmem
    exact hstays job (hu.ready (hn hv) i job (hold i job _ hmem) hnone)
  · intro hv i job hcount
    rw [hcurrent] at hcount
    rcases hcount.of_cons with ⟨htold, hmem, hawaited⟩ | hcount
    · exact hcounted hv i job htold hmem hawaited
    · exact hstays job (hu.noted (hn hv) i job hcount)

/-- An entry that tells of no job of the disk leaves everything noted. -/
theorem Tended.cons (hu : u.Tended map capacity journal) (hboundary : e.isBoundary = false)
    (haccepted : e.isAccepted = false)
    (htold : ∀ job, e = .told job → job.listener ≠ some .upload) :
    u.Tended map capacity (e :: journal) := by
  refine hu.note rfl id (fun _ => id) hboundary haccepted ?_
  intro _ i job he hmem _
  have hjob := (hu.placed i job ((List.takeWhile_prefix _).subset hmem)).1
  exact absurd hjob (htold job.endedWell he)

theorem Tended.joined (hu : u.Tended map capacity journal) (block : Block) (config : Config) :
    (u.joined block config).1.Tended map capacity (u.startEntry block ++ journal) := by
  by_cases hn : u.numBlocks = block.header.numBlocks
  · unfold startEntry
    rw [if_pos hn, joined_of_eq hn]
    exact hu
  · unfold startEntry
    rw [if_neg hn]
    exact tended_of_boundary ((capacity_joined _ _ _).trans hu.size) hu.placed rfl

/-- What is to be noted is, when a block is looked at. -/
theorem Tended.accepts {block : Block} {token : UInt32} {config : Config} {fenced : Bool}
    {job : Option Job} (hu : u.Tended config.map capacity journal) (hmap : config.map.WellFormed)
    (hpayload : block.payload.length = 256) (h : Accepts u block token config fenced v job) :
    v.Tended config.map capacity
      (u.entries block config fenced (job.map Job.forUpload) ++ journal) := by
  cases h with
  | turnedAway haway =>
    unfold entries
    rw [if_pos haway]
    exact tended_of_boundary hu.size hu.placed rfl
  | dropped hstay =>
    unfold entries
    rw [if_neg (by simp [hstay])]
    exact hu.joined block config
  | taken hstay hkeep =>
    unfold entries
    rw [if_neg (by simp [hstay])]
    have hj := hu.joined block config
    have hopen : turnsAway block config false = false := by
      cases fenced with
      | false => exact hstay
      | true => simp [turnsAway] at hstay
    have hplaced := placed_pageJob token hmap hopen hkeep
    rw [hu.size] at hplaced
    let new := ((u.joined block config).1.pageJob block token (flashOf config.map block)).forUpload
    have hpage : new.WritesPage := (Job.writesPage_pageJob hpayload).forUpload
    show Tended _ config.map capacity (.accepted block.header.blockNo new
      :: (u.startEntry block ++ journal))
    have hcurrent : Journal.current (.accepted block.header.blockNo new
        :: (u.startEntry block ++ journal))
          = .accepted block.header.blockNo new :: Journal.current (u.startEntry block ++ journal) :=
      Journal.current_cons rfl
    refine ⟨hj.size, ?_, ?_, ?_⟩
    · intro i job hmem
      rcases List.mem_cons.mp hmem with heq | hmem
      · cases heq
        exact ⟨rfl, hpage, hplaced⟩
      · exact hj.placed i job hmem
    · rw [hcurrent]
      intro hn i job hmem hnone
      rcases List.mem_cons.mp hmem with heq | hmem
      · cases heq
        exact ready_pageJob hnone
      · exact hj.ready hn i job hmem hnone
    · rw [hcurrent]
      intro hn i job hcounted
      rcases hcounted.of_cons with ⟨htold, -⟩ | hcounted
      · cases htold
      · exact hj.noted hn i job hcounted

/-- What is to be noted is, when a job of the disk is told of. -/
theorem Tended.credit {job : Job} {config : Config} {request : Option RebootRequest}
    (hu : u.Tended config.map capacity journal) (hbooks : u.Books journal)
    (hmap : config.map.WellFormed) (hplaced : job.Placed config.map capacity)
    (h : u.credit job config = .ok (v, request)) :
    v.Tended config.map capacity (.told job :: journal) := by
  -- A job that counts is the one that the upload waits for, and ended well.
  have hawaited : u.numBlocks ≠ 0 → ∀ i other, Entry.told job = .told (Job.endedWell other) →
      journal.current.awaited = (i, other.token) → u.awaits job = true := by
    intro hn i other htold hlast
    obtain rfl := Entry.told.inj htold
    have htoken := congrArg Prod.snd ((hbooks.awaited hn).trans hlast)
    simp only at htoken
    simp [awaits, hn, htoken, Job.endedWell]
  rcases cases_of_credit hbooks.sound h with ⟨hawaits, rfl, -⟩ | ⟨-, hv⟩
  · refine hu.note rfl id (fun _ => id) rfl rfl ?_
    intro hn i other htold _ hlast
    rw [hawaited hn i other htold hlast] at hawaits
    cases hawaits
  · have hcontains : ∀ s, v.erasedSectors.contains s = true ↔ u.erasedSectors.contains s = true
        ∨ ∃ region, config.map.findOf? .flash job.addr pageSize = some region
          ∧ job.erase.isSome = true ∧ s = region.sectorNo job.addr := by
      intro s
      rw [hv.erasedSectors]
      exact contains_erasedWith_iff hmap hplaced hu.size
    refine hu.note ?_ ?_ (fun s hs => (hcontains s).mpr (.inl hs)) rfl rfl ?_
    · rw [hv.erasedSectors, capacity_erasedWith]
    · rw [hv.numBlocks]
      exact id
    · rw [hv.numBlocks]
      intro hn i other htold hmem _ region hregion
      obtain rfl := Entry.told.inj htold
      -- The job erased its sector, or was made without an erase since the sector was noted.
      cases herase : other.erase with
      | none => exact (hcontains _).mpr (.inl (hu.ready hn i other hmem herase region hregion))
      | some range =>
        exact (hcontains _).mpr (.inr ⟨region, hregion, by simp [Job.endedWell, herase], rfl⟩)

end Upload

/-! ### Jobs that are still to run -/

/-- What the jobs under way have to do with the upload. -/
structure Device.Orderly {σ : Type} (d : Device σ) : Prop where
  /-- A job that is still to run and erases its sector does so for the first
      time. -/
  unready : d.core.upload.numBlocks ≠ 0 → ∀ job,
    d.core.disk.job = some job ∨ d.phase = .holding .disk job → job.erase.isSome = true →
    job.Unready d.core.config.map d.core.upload
  /-- The upload waits for the job that waits, or for none. -/
  latest : d.core.upload.numBlocks ≠ 0 → ∀ job, d.core.disk.job = some job →
    d.core.upload.token = job.token ∨ d.core.upload.token = 0
  apart : ∀ job other, d.core.disk.job = some job → d.phase.job? = some other →
    other.listener = some .upload → other.token ≠ job.token
  held : ∀ job, d.phase = .holding .disk job → job.listener = some .upload

section orderly

variable {σ : Type} {d : Device σ} {u v : Upload} {block : Block} {token : UInt32} {job : Job}

/-- Where there is no upload, any job may erase. -/
theorem Device.Orderly.idle (hd : d.Orderly) (hv : v.numBlocks = 0) :
    Device.Orderly { d with core := { d.core with upload := v } } :=
  ⟨fun hn => absurd hv hn, fun hn => absurd hv hn, hd.apart, hd.held⟩

/-- A sector that is not noted is not noted in the upload that is joined. -/
theorem Job.Unready.joined {map : AddressMap} {config : Config}
    (h : u.numBlocks ≠ 0 → job.Unready map u) (hn : block.header.numBlocks ≠ 0) :
    job.Unready map (u.joined block config).1 := by
  intro region hregion
  rw [Bool.eq_false_iff]
  intro hcontains
  obtain ⟨hsame, hold⟩ := Upload.contains_of_joined hcontains
  rw [h (hsame ▸ hn) region hregion] at hold
  cases hold

theorem Device.Orderly.dropped (hd : d.Orderly) (hn : block.header.numBlocks ≠ 0) :
    Device.Orderly { d with
      core := { d.core with upload := (d.core.upload.joined block d.core.config).1 } } := by
  refine ⟨fun _ job hjob herase => ?_, fun hv job hjob => ?_, hd.apart, hd.held⟩
  · exact Job.Unready.joined (fun hu => hd.unready hu job hjob herase) hn
  · by_cases hsame : d.core.upload.numBlocks = block.header.numBlocks
    · show (d.core.upload.joined block d.core.config).1.token = job.token ∨ _
      rw [Upload.joined_of_eq hsame]
      exact hd.latest (hsame ▸ hn) job hjob
    · right
      show (d.core.upload.joined block d.core.config).1.token = 0
      rw [Upload.joined_of_ne hsame]
      exact (Upload.start_started _ _ _).token

/-- A block is taken under a token that no job under way has. -/
theorem Device.Orderly.taken (hd : d.Orderly) (hn : block.header.numBlocks ≠ 0)
    (hfresh : ∀ other, d.phase.job? = some other → other.listener = some .upload →
      other.token ≠ token) :
    Device.Orderly { d with
      core := d.core.afterBlock
        { (d.core.upload.joined block d.core.config).1 with
          blockNo := block.header.blockNo, token }
        (some ((d.core.upload.joined block d.core.config).1.pageJob block token
          (Upload.flashOf d.core.config.map block))) } := by
  refine ⟨fun _ job hjob herase => ?_, fun _ job hjob => ?_, ?_, hd.held⟩
  · rcases hjob with hjob | hjob
    · cases hjob
      exact Upload.unready_pageJob herase
    · exact Job.Unready.joined (fun hu => hd.unready hu job (.inr hjob) herase) hn
  · cases hjob
    exact .inl rfl
  · intro job other hjob hother hlistener
    cases hjob
    exact hfresh other hother hlistener

/-- The worker takes a job that waits. -/
theorem Device.Orderly.take (hd : d.Orderly) {origin : Channel}
    (hjob : (d.core.slot origin).job = some job)
    (hfirst : origin = .control → d.core.disk.job = none)
    (hlistener : origin = .disk → job.listener = some .upload) :
    Device.Orderly { d with
      core := d.core.withSlot origin { d.core.slot origin with job := none }
      phase := .holding origin job } := by
  cases origin with
  | disk =>
    refine ⟨fun hn other hother herase => ?_, fun _ other hother => ?_,
      fun other _ hother => ?_, fun other hother => ?_⟩
    · rcases hother with hother | hother
      · cases hother
      · cases hother
        exact hd.unready hn job (.inl hjob) herase
    · cases hother
    · cases hother
    · cases hother
      exact hlistener rfl
  | control =>
    have hnone := hfirst rfl
    refine ⟨fun hn other hother herase => ?_, fun _ other hother => ?_,
      fun other _ hother => ?_, fun other hother => ?_⟩
    · rcases hother with hother | hother
      · cases hnone.symm.trans hother
      · cases hother
    · cases hnone.symm.trans hother
    · cases hnone.symm.trans hother
    · cases hother

/-- A job that the worker is done with is not to run any more. -/
theorem Device.Orderly.done {d' : Device σ} {origin : Channel} {done : Job} (hd : d.Orderly)
    (hphase : d.phase = .holding origin job) (hlistener : done.listener = job.listener)
    (htoken : done.token = job.token) (hconfig : d'.core.config = d.core.config)
    (hupload : d'.core.upload = d.core.upload) (hdisk : d'.core.disk.job = d.core.disk.job)
    (hphase' : d'.phase = .done done) : d'.Orderly := by
  refine ⟨?_, ?_, ?_, ?_⟩
  · rw [hupload, hconfig, hdisk, hphase']
    intro hn other hother herase
    exact hd.unready hn other (.inl (hother.resolve_right (by simp))) herase
  · rw [hupload, hdisk]
    exact hd.latest
  · rw [hdisk, hphase']
    intro other later hother hlater hupload
    cases hlater
    rw [htoken]
    exact hd.apart other job hother (by rw [hphase]; rfl) (hlistener ▸ hupload)
  · rw [hphase']
    intro other hother
    cases hother

/-- A job is told of, and the upload stays as it is. -/
theorem Device.Orderly.told {d' : Device σ} (hd : d.Orderly) (hcore : d'.core = d.core)
    (hphase : d'.phase = .idle) : d'.Orderly := by
  refine ⟨?_, ?_, ?_, ?_⟩
  · rw [hcore, hphase]
    intro hn other hother herase
    exact hd.unready hn other (.inl (hother.resolve_right (by simp))) herase
  · rw [hcore]
    exact hd.latest
  · rw [hphase]
    intro _ other _ hother
    cases hother
  · rw [hphase]
    intro other hother
    cases hother

/-- When the job that the upload waits for is told of, no job of the disk is under
    way any more. -/
theorem Device.Orderly.no_waiting (hd : d.Orderly) (hphase : d.phase = .done job)
    (hlistener : job.listener = some .upload) (hawaits : d.core.upload.awaits job = true)
    (hzero : job.token ≠ 0) : d.core.disk.job = none := by
  simp only [Upload.awaits, Bool.and_eq_true, bne_iff_ne, beq_iff_eq] at hawaits
  obtain ⟨⟨hn, htoken⟩, -⟩ := hawaits
  refine Option.eq_none_iff_forall_ne_some.mpr fun other hother => ?_
  have hne := hd.apart other job hother (by rw [hphase]; rfl) hlistener
  rcases hd.latest hn other hother with hlast | hlast
  · exact hne (htoken.trans hlast)
  · exact hzero (htoken.trans hlast)

end orderly

/-! ### What is kept by every step -/

namespace Watched

variable {σ : Type} [Machine σ]

/-- What is known of a device and its journal at any time, as far as erasing is
    concerned. -/
structure Careful (config : Config) (capacity : UInt32) (w : Watched σ) : Prop where
  configured : w.device.core.config = config
  books : w.device.core.upload.Books w.journal
  sourced : w.Sourced
  tended : w.device.core.upload.Tended config.map capacity w.journal
  orderly : w.device.Orderly

omit [Machine σ] in
/-- The token of a job of the disk that is under way is in the journal. -/
theorem Sourced.token_mem {w : Watched σ} (hw : w.Sourced) {job : Job}
    (hphase : w.device.phase.job? = some job) (hjob : job.listener = some .upload) :
    job.token ∈ w.journal.tokens := by
  cases h : w.device.phase with
  | idle =>
    rw [h] at hphase
    cases hphase
  | holding origin other =>
    rw [h] at hphase
    cases hphase
    obtain ⟨i, hmem⟩ := hw.held origin job h hjob
    exact Journal.token_mem_tokens hmem
  | done other =>
    rw [h] at hphase
    cases hphase
    obtain ⟨i, job₀, hsub, hsame⟩ := hw.done job h hjob
    have hmem : .accepted i job₀ ∈ w.journal := hsub.subset (by simp)
    have htoken : job.token = job₀.token := by rw [hsame]
    rw [htoken]
    exact Journal.token_mem_tokens hmem

omit [Machine σ] in
/-- A job of the disk that is under way has a place. -/
theorem Careful.placed {config : Config} {capacity : UInt32} {w : Watched σ}
    (hw : w.Careful config capacity) {job : Job} (hphase : w.device.phase.job? = some job)
    (hjob : job.listener = some .upload) :
    job.WritesPage ∧ job.Placed config.map capacity := by
  cases h : w.device.phase with
  | idle =>
    rw [h] at hphase
    cases hphase
  | holding origin other =>
    rw [h] at hphase
    cases hphase
    obtain ⟨i, hmem⟩ := hw.sourced.held origin job h hjob
    exact (hw.tended.placed i job hmem).2
  | done other =>
    rw [h] at hphase
    cases hphase
    obtain ⟨i, job₀, hsub, hsame⟩ := hw.sourced.done job h hjob
    have hmem : .accepted i job₀ ∈ w.journal := hsub.subset (by simp)
    obtain ⟨-, hpage, hplaced⟩ := hw.tended.placed i job₀ hmem
    -- The result of a job has no part in where it writes.
    rw [hsame]
    refine ⟨⟨hpage.access, hpage.execute, hpage.transfer, hpage.guarded, hpage.length,
      hpage.source⟩, ?_⟩
    cases hplaced with
    | ram hram herase => exact .ram hram herase
    | flash region hram hflash hlt hexit hpage herase =>
      exact .flash region hram hflash hlt hexit hpage herase

theorem token_execute (d : Device σ) (job : Job) : (d.execute job).2.1.token = job.token := by
  simp only [Device.execute, Job.carriedOut]
  split <;> rfl

variable {config : Config} {capacity : UInt32} {d d' : Device σ} {es journal : Journal}

/-- Every step tends to what is noted. -/
theorem Careful.tended_step (hw : Careful config capacity ⟨d, journal⟩)
    (hmap : config.map.WellFormed) (h : d.Step es d') :
    d'.core.upload.Tended config.map capacity (es ++ journal) := by
  have hs := hw.tended
  obtain rfl := hw.configured
  cases h with
  | block hblock hcases => exact hs.accepts hmap (Block.length_payload hblock) hcases
  | resetDisk => exact Upload.tended_of_boundary hs.size hs.placed rfl
  | @take origin => cases origin <;> exact hs
  | keptOut => exact hs.cons rfl rfl (by intro job h; cases h)
  | carriedOut => exact hs.cons rfl rfl (by intro job h; cases h)
  | told _ hother =>
    refine hs.cons rfl rfl ?_
    intro job h
    cases h
    exact hother
  | @credited job v request hphase hjob hcredit =>
    have hworks : d.phase.job? = some job := by rw [hphase]; rfl
    exact hs.credit hw.books hmap (hw.placed hworks hjob).2 hcredit
  | _ => exact hs

/-- Every step keeps the jobs under way in order, where all tokens are distinct
    and none is zero. -/
theorem Careful.orderly_step (hw : Careful config capacity ⟨d, journal⟩) (h : d.Step es d')
    (hdistinct : (Journal.tokens (es ++ journal)).Nodup)
    (hzero : 0 ∉ Journal.tokens (es ++ journal)) : d'.Orderly := by
  have hd : d.Orderly := hw.orderly
  have hsourced := hw.sourced
  cases h with
  | nothing => exact hd
  | @block token sector block v job hblock hcases =>
    cases hcases with
    | turnedAway => exact hd.idle rfl
    | dropped hstay =>
      refine hd.dropped fun hn => ?_
      simp [Upload.turnsAway, hn] at hstay
    | taken hstay =>
      refine hd.taken (fun hn => ?_) fun other hother hlistener htoken => ?_
      · simp [Upload.turnsAway, hn] at hstay
      · -- The token of the new job stands in the journal once.
        have hmem : other.token ∈ Journal.tokens journal := hsourced.token_mem hother hlistener
        unfold Upload.entries at hdistinct
        rw [if_neg (by simp [hstay])] at hdistinct
        simp only [Option.map_some, Option.toList_some, List.map_cons, List.map_nil,
          List.cons_append, List.nil_append, Journal.tokens_cons, Journal.tokens_append,
          Entry.token?] at hdistinct
        exact (List.nodup_cons.mp hdistinct).1 (List.mem_append_right _ (htoken ▸ hmem))
  | resetDisk => exact hd.idle rfl
  | setMode => exact ⟨hd.unready, hd.latest, hd.apart, hd.held⟩
  | latch => exact ⟨hd.unready, hd.latest, hd.apart, hd.held⟩
  | command => exact ⟨hd.unready, hd.latest, hd.apart, hd.held⟩
  | @take origin job _ hjob hfirst =>
    refine hd.take hjob hfirst fun horigin => ?_
    subst horigin
    obtain ⟨i, hmem⟩ := hsourced.waiting job hjob
    exact (hsourced.written i job hmem).1
  | keptOut hphase =>
    refine hd.done hphase ?_ ?_ rfl rfl rfl rfl <;> rfl
  | @carriedOut origin job hphase =>
    refine hd.done hphase ?_ ?_ rfl rfl (disk_execute d job) rfl
    · exact listener_execute d job
    · exact token_execute d job
  | told => exact hd.told rfl rfl
  | @credited job v request hphase hjob hcredit =>
    cases hawaits : d.core.upload.awaits job with
    | false =>
      rw [Upload.credit_of_not_awaits _ hawaits] at hcredit
      cases hcredit
      have hcore : ({ d.core with
          upload := d.core.upload
          rebooting := d.core.rebooting || (none : Option RebootRequest).isSome } : Core)
            = d.core := by simp
      exact hd.told hcore rfl
    | true =>
      have hworks : d.phase.job? = some job := by rw [hphase]; rfl
      have hmem := hsourced.token_mem hworks hjob
      have hnone : d.core.disk.job = none := by
        refine hd.no_waiting hphase hjob hawaits fun htoken => hzero ?_
        rw [← htoken]
        exact hmem
      refine ⟨fun _ other hother => ?_, fun _ other hother => ?_, fun other _ hother => ?_,
        fun other hother => ?_⟩
      · rcases hother with hother | hother
        · cases hnone.symm.trans hother
        · cases hother
      · cases hnone.symm.trans hother
      · cases hnone.symm.trans hother
      · cases hother

end Watched

end Reflash
