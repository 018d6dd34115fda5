import Reflash.Proofs.AddressMap
import Reflash.Proofs.IndexSet
import Reflash.Upload
/-! # What an upload does with a block and with a finished job

  One statement for each operation of an upload: `start_started` for a start,
  `accept_accepts` for an arriving block and `credit_credits` for a finished job.
  The last two also say that no arithmetic of theirs leaves the range of a word.

  `Sound` is the bookkeeping that all of them keep: while there is an upload, its
  count is the number of its valid blocks, and these and the block accepted last
  belong to its image, which fits the set.
-/

namespace Reflash

namespace Upload

/-! ### Bookkeeping -/

/-- The books of an upload that is under way are in order. -/
structure InOrder (u : Upload) : Prop where
  /-- The set of blocks has room for the image. -/
  fits : u.numBlocks ≤ u.validBlocks.capacity
  valid_lt : ∀ i, u.isBlockValid i = true → i < u.numBlocks
  blockNo_lt : u.blockNo < u.numBlocks
  count : u.validCount.toNat = u.validBlocks.countBelow u.numBlocks.toNat

/-- Either there is no upload, or its books are in order. -/
def Sound (u : Upload) : Prop := u.numBlocks ≠ 0 → u.InOrder

@[simp] theorem validBlocks_withValidBlocks (u : Upload) (s : IndexSet) :
    (u.withValidBlocks s).validBlocks = s := by
  unfold withValidBlocks
  split <;> simp_all [validBlocks]

@[simp] theorem numBlocks_withValidBlocks (u : Upload) (s : IndexSet) :
    (u.withValidBlocks s).numBlocks = u.numBlocks := by
  unfold withValidBlocks; split <;> rfl

@[simp] theorem validCount_withValidBlocks (u : Upload) (s : IndexSet) :
    (u.withValidBlocks s).validCount = u.validCount := by
  unfold withValidBlocks; split <;> rfl

@[simp] theorem lowestAddr_withValidBlocks (u : Upload) (s : IndexSet) :
    (u.withValidBlocks s).lowestAddr = u.lowestAddr := by
  unfold withValidBlocks; split <;> rfl

@[simp] theorem inRam_withValidBlocks (u : Upload) (s : IndexSet) :
    (u.withValidBlocks s).inRam = u.inRam := by
  unfold withValidBlocks; split <;> rfl

@[simp] theorem blockNo_withValidBlocks (u : Upload) (s : IndexSet) :
    (u.withValidBlocks s).blockNo = u.blockNo := by
  unfold withValidBlocks; split <;> rfl

@[simp] theorem token_withValidBlocks (u : Upload) (s : IndexSet) :
    (u.withValidBlocks s).token = u.token := by
  unfold withValidBlocks; split <;> rfl

@[simp] theorem erasedSectors_withValidBlocks (u : Upload) (s : IndexSet) :
    (u.withValidBlocks s).erasedSectors = u.erasedSectors := by
  unfold withValidBlocks; split <;> rfl

theorem sound_reset (u : Upload) : u.reset.Sound := fun h => absurd rfl h

theorem sound_onSets (ramBlocks flashBlocks erasedSectors : IndexSet) :
    (onSets ramBlocks flashBlocks erasedSectors).Sound := fun h => absurd rfl h

/-- As many blocks are valid as there are when all of them are, and only then. -/
theorem InOrder.validCount_eq_iff {u : Upload} (h : u.InOrder) :
    u.validCount = u.numBlocks ↔ ∀ i < u.numBlocks, u.isBlockValid i = true := by
  -- The count is the number of members below the number of blocks.
  rw [← UInt32.toNat_inj, h.count, IndexSet.countBelow_eq_iff]
  constructor
  · intro hall i hi
    have := hall i.toNat (UInt32.lt_iff_toNat_lt.mp hi)
    rwa [UInt32.ofNat_toNat] at this
  · intro hall k hk
    have hlt : k < UInt32.size := Nat.lt_trans hk u.numBlocks.toNat_lt_size
    exact hall _ (UInt32.lt_iff_toNat_lt.mpr (by rwa [UInt32.toNat_ofNat_of_lt' hlt]))

/-- The image is complete when all of its blocks are valid, and only then. -/
theorem InOrder.progress_eq_complete_iff {u : Upload} (h : u.InOrder) (hn : u.numBlocks ≠ 0) :
    u.progress = .complete ↔ ∀ i < u.numBlocks, u.isBlockValid i = true := by
  rw [← h.validCount_eq_iff]
  unfold progress
  split
  · contradiction
  · split <;> simp_all

theorem validCount_of_complete {u : Upload} (h : u.progress = .complete) :
    u.validCount = u.numBlocks := by
  unfold progress at h
  split at h
  · cases h
  · split at h
    · assumption
    · cases h

/-! ### Starting -/

/-- What a start leaves of an upload: nothing is valid, nothing is erased, and
    no job is awaited. -/
structure Started (u : Upload) (inRam : Bool) (numBlocks : UInt32) (v : Upload) (fits : Bool) :
    Prop where
  capacity : v.validBlocks.capacity = (if inRam then u.ramBlocks else u.flashBlocks).capacity
  room : fits = decide (numBlocks ≤ v.validBlocks.capacity)
  inRam : v.inRam = inRam
  blockNo : v.blockNo = 0
  token : v.token = 0
  validCount : v.validCount = 0
  lowestAddr : v.lowestAddr = 0xFFFFFFFF
  valid : ∀ i, v.isBlockValid i = false
  erasedSectors : v.erasedSectors = u.erasedSectors.clear
  numBlocks : v.numBlocks = if fits then numBlocks else 0
  sound : v.Sound

theorem start_started (u : Upload) (inRam : Bool) (numBlocks : UInt32) :
    Started u inRam numBlocks (u.start inRam numBlocks).1 (u.start inRam numBlocks).2 := by
  unfold start
  extract_lets u₀ u₁
  have hvalid : ∀ i, u₁.isBlockValid i = false := by
    intro i
    simp only [isBlockValid, u₁, validBlocks_withValidBlocks, IndexSet.contains_clear]
  have hcount : ∀ n, u₁.validBlocks.countBelow n = 0 := by
    intro n
    simp only [u₁, validBlocks_withValidBlocks, IndexSet.countBelow_clear]
  have hcapacity : u₁.validBlocks.capacity
      = (if inRam then u.ramBlocks else u.flashBlocks).capacity := by
    rw [validBlocks_withValidBlocks, IndexSet.capacity_clear]
    rfl
  -- The image fits or it does not; all but the number of blocks is the same.
  split
  · rename_i hfits
    refine ⟨hcapacity, ?_, ?_, ?_, ?_, ?_, ?_, hvalid, ?_, ?_, fun h => absurd ?_ h⟩
    · exact (decide_eq_false (UInt32.not_le.mpr hfits)).symm
    · simp [u₁, u₀]
    · simp [u₁, u₀]
    · simp [u₁, u₀]
    · simp [u₁, u₀]
    · simp [u₁, u₀]
    · simp [u₁, u₀]
    · simp [u₁, u₀]
    · simp [u₁, u₀]
  · rename_i hfits
    refine ⟨hcapacity, ?_, ?_, ?_, ?_, ?_, ?_, hvalid, ?_, ?_,
      fun h => ⟨?_, fun i hi => ?_, ?_, ?_⟩⟩
    · exact (decide_eq_true (UInt32.not_lt.mp hfits)).symm
    · simp [u₁, u₀]
    · simp [u₁, u₀]
    · simp [u₁, u₀]
    · simp [u₁, u₀]
    · simp [u₁, u₀]
    · simp [u₁, u₀]
    · simp
    · exact UInt32.not_lt.mp hfits
    · -- Nothing is valid, so the books are in order at once.
      have hi' : u₁.isBlockValid i = true := hi
      simp [hvalid] at hi'
    · have hzero : u₁.blockNo = 0 := by simp [u₁, u₀]
      show u₁.blockNo < numBlocks
      rw [hzero]
      exact UInt32.pos_iff_ne_zero.mpr h
    · have hzero : u₁.validCount = 0 := by simp [u₁, u₀]
      show u₁.validCount.toNat = u₁.validBlocks.countBelow numBlocks.toNat
      rw [hzero, hcount]
      rfl

/-! ### Accepting a block -/

/-- The region of RAM that the page of a block lies in. -/
def ramOf (map : AddressMap) (block : Block) : Option Region :=
  map.findOf? .ram block.header.targetAddr pageSize

/-- The region of flash that the page of a block lies in. -/
def flashOf (map : AddressMap) (block : Block) : Option Region :=
  map.findOf? .flash block.header.targetAddr pageSize

/-- Whether a block ends the upload: it announces no image, it has no place in
    memory, or the disk is fenced off. -/
def turnsAway (block : Block) (config : Config) (fenced : Bool) : Bool :=
  (block.header.numBlocks = 0
    || ((ramOf config.map block).isNone && (flashOf config.map block).isNone)
    || ((flashOf config.map block).isSome && block.header.targetAddr % pageSize != 0))
  || fenced

/-- The upload that a block which is not turned away belongs to, and whether its
    image fits. -/
def joined (u : Upload) (block : Block) (config : Config) : Upload × Bool :=
  u.continueOrStart (ramOf config.map block).isSome block.header.numBlocks

/-- What is erased for a page of flash: its sector, unless that was done for this
    upload. -/
def eraseFor (u : Upload) (flash : Region) (addr : UInt32) : Option EraseRange :=
  if u.erasedSectors.contains (flash.sectorNo addr) then none
  else some ⟨flash.sectorBase addr, eraseSize⟩

/-- The job that writes a block, once it is clear that there is one. -/
def pageJob (u : Upload) (block : Block) (token : UInt32) (flash : Option Region) : Job :=
  { Job.idle .disk token with
    transfer := some .write, addr := block.header.targetAddr
    length := UInt32.ofNat block.payload.length
    data := Job.overlay (Vector.replicate 256 0) block.payload
    exitXip := flash.isSome
    erase := flash.bind fun region => u.eraseFor region block.header.targetAddr }

/-- Why a block is dropped that is not turned away. -/
def Drops (v : Upload) (fits : Bool) (block : Block) (config : Config) : Prop :=
  fits = false ∨ (ramOf config.map block).isSome ≠ v.inRam
    ∨ block.header.numBlocks ≤ block.header.blockNo ∨ 256 < block.payload.length
    ∨ ∃ flash, flashOf config.map block = some flash
        ∧ v.erasedSectors.capacity ≤ flash.sectorNo block.header.targetAddr

section keeping

variable {v : Upload} {fits : Bool} {block : Block} {config : Config}

/-- The image of a block that is not dropped fits. -/
theorem fits_of_not_drops (h : ¬ Drops v fits block config) : fits = true := by
  by_contra hno
  exact h (.inl (Bool.eq_false_iff.mpr hno))

/-- A block that is not dropped goes where the image goes. -/
theorem inRam_of_not_drops (h : ¬ Drops v fits block config) :
    (ramOf config.map block).isSome = v.inRam := by
  by_contra hne
  exact h (.inr (.inl hne))

end keeping

/-- What becomes of an upload and a block: the upload after it, and the job that
    writes it if there is one. -/
inductive Accepts (u : Upload) (block : Block) (token : UInt32) (config : Config) (fenced : Bool) :
    Upload → Option Job → Prop where
  | turnedAway : turnsAway block config fenced = true →
      Accepts u block token config fenced u.reset none
  | dropped : turnsAway block config fenced = false →
      Drops (u.joined block config).1 (u.joined block config).2 block config →
      Accepts u block token config fenced (u.joined block config).1 none
  | taken : turnsAway block config fenced = false →
      ¬ Drops (u.joined block config).1 (u.joined block config).2 block config →
      Accepts u block token config fenced
        { (u.joined block config).1 with blockNo := block.header.blockNo, token }
        (some ((u.joined block config).1.pageJob block token (flashOf config.map block)))

theorem write_eq_ok {token addr : UInt32} {bytes : Bytes} (h : bytes.length ≤ 256) :
    Job.write .disk token addr bytes = .ok { Job.idle .disk token with
      transfer := some .write, addr, length := UInt32.ofNat bytes.length
      data := Job.overlay (Vector.replicate 256 0) bytes } := if_pos h

/-- There is a job for a block of an upload if its payload fits a page and its
    sector is one of those that are tracked. -/
theorem jobFor_eq {v : Upload} {block : Block} {token : UInt32} {flash : Option Region}
    (hcov : ∀ region, flash = some region → region.covers block.header.targetAddr pageSize = true) :
    v.jobFor block token flash = .ok
      (if 256 < block.payload.length ∨ ∃ region, flash = some region
          ∧ v.erasedSectors.capacity ≤ region.sectorNo block.header.targetAddr
        then none else some (v.pageJob block token flash)) := by
  unfold jobFor
  by_cases hlen : block.payload.length ≤ 256
  · rw [write_eq_ok hlen]
    cases flash with
    | none => simp [Nat.not_lt.mpr hlen, pageJob, Job.idle]
    | some region =>
      -- The page lies in the region, so neither of the two numbers goes below zero.
      have hbase := Region.base_le_of_covers (hcov region rfl)
      simp only [stageFlash, Region.sectorOf_eq_ok hbase, Region.sectorStart_eq_ok hbase,
        bind, Except.bind, pure, Except.pure, Option.some.injEq, exists_eq_left',
        Nat.not_lt.mpr hlen, false_or]
      split
      · rfl
      · split <;> simp_all [pageJob, eraseFor, Job.idle]
  · unfold Job.write
    rw [if_neg hlen]
    simp [Nat.not_le.mp hlen]

/-- A block is turned away, dropped or taken, and no fault comes of it. -/
theorem accept_accepts (u : Upload) (block : Block) (token : UInt32) (config : Config)
    (fenced : Bool) :
    ∃ v job, u.accept block token config fenced = .ok (v, job)
      ∧ Accepts u block token config fenced v job := by
  have hcov : ∀ region, flashOf config.map block = some region →
      region.covers block.header.targetAddr pageSize = true :=
    fun region h => AddressMap.covers_of_findOf? h
  have hjob : (u.joined block config).1.jobFor block token (flashOf config.map block) = _ :=
    jobFor_eq hcov
  by_cases haway : turnsAway block config fenced = true
  · refine ⟨u.reset, none, ?_, .turnedAway haway⟩
    unfold turnsAway at haway
    rw [Bool.or_eq_true] at haway
    simp only [accept, bind, Except.bind, pure, Except.pure]
    -- Garbage is looked for before the fence.
    rcases haway with hgarbage | hfenced
    · exact if_pos hgarbage
    · simp only [hfenced, if_true, ite_self]
  · have hstay := Bool.eq_false_iff.mpr haway
    have hparts := hstay
    unfold turnsAway at hparts
    rw [Bool.or_eq_false_iff] at hparts
    obtain ⟨hgood, hopen⟩ := hparts
    simp only [accept, bind, Except.bind, pure, Except.pure]
    rw [if_neg (by rw [Bool.eq_false_iff] at hgood; exact hgood), if_neg (by simp [hopen])]
    -- The first reasons to drop a block are looked at before there is a job.
    split
    · rename_i hdrop
      refine ⟨_, _, rfl, .dropped hstay ?_⟩
      simp only [Bool.or_eq_true, bne_iff_ne, Bool.not_eq_true', decide_eq_true_eq] at hdrop
      obtain (hfits | hkind) | hno := hdrop
      · exact .inl hfits
      · exact .inr (.inl hkind)
      · exact .inr (.inr (.inl hno))
    · rename_i hkeep
      simp only [Bool.or_eq_true, bne_iff_ne, Bool.not_eq_true', decide_eq_true_eq, not_or] at hkeep
      rw [show (u.continueOrStart (config.map.findOf? .ram block.header.targetAddr pageSize).isSome
          block.header.numBlocks).1.jobFor block token
          (config.map.findOf? .flash block.header.targetAddr pageSize) = _ from hjob]
      -- The others come out of making the job.
      by_cases hlate : 256 < block.payload.length ∨ ∃ region, flashOf config.map block = some region
          ∧ (u.joined block config).1.erasedSectors.capacity
            ≤ region.sectorNo block.header.targetAddr
      · rw [if_pos hlate]
        exact ⟨_, _, rfl, .dropped hstay (.inr (.inr (.inr hlate)))⟩
      · rw [if_neg hlate]
        refine ⟨_, _, rfl, .taken hstay ?_⟩
        rintro (hfits | hkind | hno | hlate')
        · exact hkeep.1.1 hfits
        · exact hkeep.1.2 hkind
        · exact hkeep.2 hno
        · exact hlate hlate'

/-- What becomes of a block is what `accept` gives back. -/
theorem Accepts.accept_eq {u v : Upload} {block : Block} {token : UInt32} {config : Config}
    {fenced : Bool} {job : Option Job} (h : Accepts u block token config fenced v job) :
    u.accept block token config fenced = .ok (v, job) := by
  obtain ⟨v', job', haccept, h'⟩ := u.accept_accepts block token config fenced
  rw [haccept]
  -- The three cases exclude each other.
  cases h with
  | turnedAway haway =>
    cases h' with
    | turnedAway => rfl
    | dropped hstay => simp [haway] at hstay
    | taken hstay => simp [haway] at hstay
  | dropped hstay hdrop =>
    cases h' with
    | turnedAway haway => simp [haway] at hstay
    | dropped => rfl
    | taken _ hkeep => exact absurd hdrop hkeep
  | taken hstay hkeep =>
    cases h' with
    | turnedAway haway => simp [haway] at hstay
    | dropped _ hdrop => exact absurd hdrop hkeep
    | taken => rfl

section taking

variable {u v : Upload} {block : Block} {token : UInt32} {config : Config} {fenced : Bool}
  {job : Option Job}

theorem joined_of_eq (h : u.numBlocks = block.header.numBlocks) :
    u.joined block config = (u, true) := if_pos h

theorem joined_of_ne (h : u.numBlocks ≠ block.header.numBlocks) :
    u.joined block config =
      u.start (ramOf config.map block).isSome block.header.numBlocks := if_neg h

theorem Sound.joined (hu : u.Sound) : (u.joined block config).1.Sound := by
  by_cases hn : u.numBlocks = block.header.numBlocks
  · rw [joined_of_eq hn]; exact hu
  · rw [joined_of_ne hn]; exact (start_started _ _ _).sound

/-- An upload whose image fits has as many blocks as the block announces. -/
theorem numBlocks_joined (hfits : (u.joined block config).2 = true) :
    (u.joined block config).1.numBlocks = block.header.numBlocks := by
  by_cases hn : u.numBlocks = block.header.numBlocks
  · rw [joined_of_eq hn]; exact hn
  · rw [joined_of_ne hn] at hfits ⊢
    rw [(start_started _ _ _).numBlocks, hfits, if_pos rfl]

/-- Looking at a block keeps the books in order. -/
theorem Accepts.sound (h : Accepts u block token config fenced v job) (hu : u.Sound) :
    v.Sound := by
  cases h with
  | turnedAway => exact sound_reset u
  | dropped => exact hu.joined
  | taken _ hkeep =>
    intro hn
    have hj : (u.joined block config).1.InOrder := hu.joined hn
    have hfits := fits_of_not_drops hkeep
    refine ⟨hj.fits, hj.valid_lt, ?_, hj.count⟩
    show block.header.blockNo < (u.joined block config).1.numBlocks
    rw [numBlocks_joined hfits]
    exact UInt32.not_le.mp fun hle => hkeep (.inr (.inr (.inl hle)))

end taking

/-! ### Crediting a job -/

/-- Whether a finished job is the one that the upload waits for. -/
def awaits (u : Upload) (job : Job) : Bool :=
  u.numBlocks != 0 && job.token == u.token && job.result == some .ok

/-- The erased sectors once a finished job is taken note of. -/
def erasedWith (u : Upload) (map : AddressMap) (erase : Option EraseRange) : IndexSet :=
  match erase with
  | none => u.erasedSectors
  | some range =>
    match map.findOf? .flash range.addr range.len with
    | none => u.erasedSectors
    | some region => (u.erasedSectors.insert (region.sectorNo range.addr)).1

theorem noteErased_eq (u : Upload) (map : AddressMap) (erase : Option EraseRange) :
    u.noteErased map erase = .ok { u with erasedSectors := u.erasedWith map erase } := by
  cases erase with
  | none => rfl
  | some range =>
    cases hfind : map.findOf? .flash range.addr range.len with
    | none => simp only [noteErased, erasedWith, hfind]
    | some region =>
      have hbase := Region.base_le_of_covers (AddressMap.covers_of_findOf? hfind)
      simp only [noteErased, erasedWith, hfind, Region.sectorOf_eq_ok hbase]
      rfl

@[simp] theorem capacity_erasedWith (u : Upload) (map : AddressMap) (erase : Option EraseRange) :
    (u.erasedWith map erase).capacity = u.erasedSectors.capacity := by
  unfold erasedWith
  split
  · rfl
  · split
    · rfl
    · exact IndexSet.capacity_insert _ _

/-- What an awaited job changes: its block is valid from now on, and with the
    last block that becomes so comes the reboot. -/
structure Credits (u : Upload) (job : Job) (config : Config) (v : Upload)
    (request : Option RebootRequest) : Prop where
  numBlocks : v.numBlocks = u.numBlocks
  inRam : v.inRam = u.inRam
  blockNo : v.blockNo = u.blockNo
  token : v.token = u.token
  valid : ∀ i, v.isBlockValid i = (u.isBlockValid i || decide (i = u.blockNo))
  capacity : v.validBlocks.capacity = u.validBlocks.capacity
  erasedSectors : v.erasedSectors = u.erasedWith config.map job.erase
  lowestAddr : v.lowestAddr =
    if u.isBlockValid u.blockNo then u.lowestAddr else min u.lowestAddr job.addr
  request : request = if u.isBlockValid u.blockNo = false ∧ v.validCount = v.numBlocks
    then some (v.rebootRequest config) else none
  sound : v.Sound

theorem credit_of_not_awaits {u : Upload} {job : Job} (config : Config)
    (h : u.awaits job = false) : u.credit job config = .ok (u, none) := by
  have hcond : (u.numBlocks = 0 || job.token != u.token || job.result != some .ok) = true := by
    simp only [awaits, Bool.and_eq_false_iff, bne_eq_false_iff_eq, beq_eq_false_iff_ne] at h
    simp only [Bool.or_eq_true, decide_eq_true_eq, bne_iff_ne]
    exact h
  simp only [credit, hcond, if_true]
  rfl

/-- The upload with its awaited block valid and its erased sector noted. -/
def marked (u : Upload) (map : AddressMap) (erase : Option EraseRange) : Upload :=
  { u with erasedSectors := u.erasedWith map erase }.withValidBlocks
    (u.validBlocks.insert u.blockNo).1

/-- The same, with the block counted and its address taken in. -/
def counted (u : Upload) (map : AddressMap) (job : Job) : Upload :=
  { u.marked map job.erase with
    validCount := u.validCount + 1, lowestAddr := min u.lowestAddr job.addr }

theorem validBlocks_withErased (u : Upload) (s : IndexSet) :
    { u with erasedSectors := s }.validBlocks = u.validBlocks := rfl

theorem credit_of_awaits {u : Upload} {job : Job} (config : Config) (h : u.awaits job = true)
    (hroom : u.blockNo.toNat < u.validBlocks.room)
    (hcount : u.isBlockValid u.blockNo = false → u.validCount.toNat + 1 < UInt32.size) :
    u.credit job config = .ok (
      if u.isBlockValid u.blockNo then (u.marked config.map job.erase, none)
      else (u.counted config.map job,
        if u.validCount + 1 = u.numBlocks
        then some ((u.counted config.map job).rebootRequest config) else none)) := by
  have hcond : ¬ (u.numBlocks = 0 || job.token != u.token || job.result != some .ok) = true := by
    simp only [awaits, Bool.and_eq_true, bne_iff_ne, beq_iff_eq] at h
    simp [h]
  -- There is room for the block, so it is new unless it is valid.
  have hisNew : (u.validBlocks.insert u.blockNo).2 = !u.isBlockValid u.blockNo := by
    rw [IndexSet.insert_isNew, isBlockValid]
    simp only [hroom, decide_true, Bool.true_and]
  cases hvalid : u.isBlockValid u.blockNo with
  | true =>
    simp only [credit, if_neg hcond, noteErased_eq, bind, Except.bind, pure, Except.pure,
      validBlocks_withErased, hisNew, hvalid, Bool.not_true, Bool.not_false, if_true]
    rfl
  | false =>
    have hplus := Word.plus_eq_ok (a := u.validCount) (b := 1) (hcount hvalid)
    simp only [credit, if_neg hcond, noteErased_eq, bind, Except.bind, pure, Except.pure,
      validBlocks_withErased, hisNew, hvalid, Bool.not_true, Bool.not_false, Bool.false_eq_true,
      if_false, validCount_withValidBlocks, numBlocks_withValidBlocks, lowestAddr_withValidBlocks,
      hplus, counted, marked]
    split <;> rfl

theorem isBlockValid_marked (u : Upload) (map : AddressMap) (erase : Option EraseRange)
    (hroom : u.blockNo.toNat < u.validBlocks.room) (i : UInt32) :
    (u.marked map erase).isBlockValid i = (u.isBlockValid i || decide (i = u.blockNo)) := by
  simp only [marked, isBlockValid, validBlocks_withValidBlocks, IndexSet.contains_insert, hroom,
    and_true, eq_comm]

/-- There is room for the awaited block, since it belongs to the image. -/
theorem InOrder.blockNo_lt_room {u : Upload} (h : u.InOrder) :
    u.blockNo.toNat < u.validBlocks.room :=
  IndexSet.lt_room_of_lt_capacity (UInt32.lt_of_lt_of_le h.blockNo_lt h.fits)

/-- If the awaited block is new, one more block is valid afterwards. -/
theorem InOrder.countBelow_insert {u : Upload} (h : u.InOrder)
    (hnew : u.isBlockValid u.blockNo = false) :
    (u.validBlocks.insert u.blockNo).1.countBelow u.numBlocks.toNat = u.validCount.toNat + 1 := by
  rw [IndexSet.countBelow_insert (Nat.le_of_lt u.numBlocks.toNat_lt_size)
    (UInt32.lt_iff_toNat_lt.mp h.blockNo_lt) h.blockNo_lt_room hnew, h.count]

/-- The count of valid blocks does not go round, since no more are valid than there
    are. -/
theorem InOrder.validCount_lt {u : Upload} (h : u.InOrder)
    (hnew : u.isBlockValid u.blockNo = false) : u.validCount.toNat + 1 < UInt32.size := by
  -- Count the set with the new block in it: that is at most the number of blocks.
  have hle := IndexSet.countBelow_le (u.validBlocks.insert u.blockNo).1 u.numBlocks.toNat
  have hsize := u.numBlocks.toNat_lt_size
  rw [h.countBelow_insert hnew] at hle
  omega

theorem InOrder.marked_lt {u : Upload} (h : u.InOrder) (map : AddressMap)
    (erase : Option EraseRange) :
    ∀ i, (u.marked map erase).isBlockValid i = true → i < u.numBlocks := by
  intro i hi
  rw [isBlockValid_marked u map erase h.blockNo_lt_room, Bool.or_eq_true, decide_eq_true_eq] at hi
  rcases hi with hi | rfl
  · exact h.valid_lt i hi
  · exact h.blockNo_lt

/-- A block that was valid before counts nothing. -/
theorem InOrder.credits_marked {u : Upload} (h : u.InOrder) (job : Job) (config : Config)
    (hvalid : u.isBlockValid u.blockNo = true) :
    Credits u job config (u.marked config.map job.erase) none := by
  have hset : (u.marked config.map job.erase).validBlocks = (u.validBlocks.insert u.blockNo).1 := by
    unfold marked
    rw [validBlocks_withValidBlocks]
  have hnum : (u.marked config.map job.erase).numBlocks = u.numBlocks := by simp [marked]
  -- The block is in the set, so putting it in again changes no count.
  have hcount : (u.validBlocks.insert u.blockNo).1.countBelow u.numBlocks.toNat
      = u.validCount.toNat := by
    rw [h.count]
    exact IndexSet.countBelow_congr (IndexSet.insert_of_contains hvalid) _
  refine ⟨hnum, ?_, ?_, ?_, isBlockValid_marked u config.map job.erase h.blockNo_lt_room, ?_, ?_,
    ?_, ?_, fun _ => ⟨?_, ?_, ?_, ?_⟩⟩
  · simp [marked]
  · simp [marked]
  · simp [marked]
  · rw [hset, IndexSet.capacity_insert]
  · simp [marked]
  · simp [marked, hvalid]
  · simp [hvalid]
  · rw [hset, hnum, IndexSet.capacity_insert]
    exact h.fits
  · rw [hnum]
    exact h.marked_lt config.map job.erase
  · simpa [marked] using h.blockNo_lt
  · rw [hset, hnum, hcount]
    simp [marked]

/-- A block that is new counts once, and the last one calls for a reboot. -/
theorem InOrder.credits_counted {u : Upload} (h : u.InOrder) (job : Job) (config : Config)
    (hnew : u.isBlockValid u.blockNo = false) :
    Credits u job config (u.counted config.map job)
      (if u.validCount + 1 = u.numBlocks
        then some ((u.counted config.map job).rebootRequest config) else none) := by
  have hset : (u.counted config.map job).validBlocks = (u.validBlocks.insert u.blockNo).1 := by
    show (u.marked config.map job.erase).validBlocks = _
    unfold marked
    rw [validBlocks_withValidBlocks]
  have hnum : (u.counted config.map job).numBlocks = u.numBlocks := by simp [counted, marked]
  have hcount : (u.counted config.map job).validCount.toNat = u.validCount.toNat + 1 := by
    show (u.validCount + 1).toNat = _
    rw [UInt32.toNat_add]
    exact Nat.mod_eq_of_lt (h.validCount_lt hnew)
  refine ⟨hnum, ?_, ?_, ?_, isBlockValid_marked u config.map job.erase h.blockNo_lt_room, ?_, ?_,
    ?_, ?_, fun _ => ⟨?_, ?_, ?_, ?_⟩⟩
  · simp [counted, marked]
  · simp [counted, marked]
  · simp [counted, marked]
  · rw [hset, IndexSet.capacity_insert]
  · simp [counted, marked]
  · simp [counted, hnew]
  · simp [counted, marked, hnew]
  · rw [hset, hnum, IndexSet.capacity_insert]
    exact h.fits
  · rw [hnum]
    exact h.marked_lt config.map job.erase
  · simpa [counted, marked] using h.blockNo_lt
  · rw [hset, hnum, hcount, h.countBelow_insert hnew]

/-- An awaited job is credited, and the count does not go round. -/
theorem credit_credits {u : Upload} {job : Job} (config : Config) (hu : u.Sound)
    (h : u.awaits job = true) :
    ∃ v request, u.credit job config = .ok (v, request) ∧ Credits u job config v request := by
  have hn : u.numBlocks ≠ 0 := by
    simp only [awaits, Bool.and_eq_true, bne_iff_ne, beq_iff_eq] at h
    exact h.1.1
  have horder := hu hn
  rw [credit_of_awaits config h horder.blockNo_lt_room horder.validCount_lt]
  cases hvalid : u.isBlockValid u.blockNo with
  | true => exact ⟨_, _, rfl, horder.credits_marked job config hvalid⟩
  | false => exact ⟨_, _, rfl, horder.credits_counted job config hvalid⟩

/-- A finished job is one that the upload does not wait for, and changes nothing,
    or it is credited. -/
theorem credit_cases {u : Upload} (hu : u.Sound) (job : Job) (config : Config) :
    (u.awaits job = false ∧ u.credit job config = .ok (u, none))
    ∨ u.awaits job = true
      ∧ ∃ v request, u.credit job config = .ok (v, request) ∧ Credits u job config v request := by
  cases hawaits : u.awaits job with
  | false => exact .inl ⟨rfl, credit_of_not_awaits config hawaits⟩
  | true => exact .inr ⟨rfl, credit_credits config hu hawaits⟩

/-- What an upload comes to when a finished job is credited: nothing, or it waited for the
    job. -/
theorem cases_of_credit {u v : Upload} {job : Job} {config : Config}
    {request : Option RebootRequest} (hu : u.Sound) (h : u.credit job config = .ok (v, request)) :
    (u.awaits job = false ∧ v = u ∧ request = none)
      ∨ u.awaits job = true ∧ Credits u job config v request := by
  rcases credit_cases hu job config with ⟨hother, hsame⟩ | ⟨hawaits, _, _, hnew, hcredits⟩
  · cases h.symm.trans hsame
    exact .inl ⟨hother, rfl, rfl⟩
  · cases h.symm.trans hnew
    exact .inr ⟨hawaits, hcredits⟩

theorem credit_ok {u : Upload} (hu : u.Sound) (job : Job) (config : Config) :
    ∃ v request, u.credit job config = .ok (v, request) := by
  rcases credit_cases hu job config with ⟨-, h⟩ | ⟨-, v, request, h, -⟩
  · exact ⟨u, none, h⟩
  · exact ⟨v, request, h⟩

end Upload

end Reflash
