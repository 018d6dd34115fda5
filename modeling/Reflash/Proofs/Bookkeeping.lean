import Mathlib.Data.Set.Card
import Reflash.Proofs.RunHistory
/-! # The books of an upload in every run

  Whatever is done to a device, in whatever order and under whatever tokens, the
  books of its upload are in order: the numbers it goes by belong to its image,
  the image fits, and the count is that of the valid blocks.

  The lowest address is a minimum over what was done since the upload was started,
  so it takes the history of the run to say what it is. One statement says what a
  step does to it: a start sets it back, a job that makes a block valid takes its
  address in, and nothing else touches it.
-/

namespace Reflash

namespace Upload

/-! ### The count as the size of a set -/

/-- The count is the number of all valid blocks. -/
theorem InOrder.validCount_eq_ncard {u : Upload} (h : u.InOrder) :
    u.validCount.toNat = {i | u.isBlockValid i = true}.ncard := by
  -- As numbers, the valid blocks are the members of the set below the number of blocks.
  have himage : UInt32.toNat '' {i | u.isBlockValid i = true}
      = ↑(u.validBlocks.membersBelow u.numBlocks.toNat) := by
    ext k
    simp only [Set.mem_image, Set.mem_ofPred_eq, Finset.mem_coe, IndexSet.membersBelow,
      Finset.mem_filter, Finset.mem_range]
    constructor
    · rintro ⟨i, hi, rfl⟩
      rw [UInt32.ofNat_toNat]
      exact ⟨UInt32.lt_iff_toNat_lt.mp (h.valid_lt i hi), hi⟩
    · rintro ⟨hk, hvalid⟩
      have hsize : k < UInt32.size := Nat.lt_trans hk u.numBlocks.toNat_lt_size
      exact ⟨UInt32.ofNat k, hvalid, UInt32.toNat_ofNat_of_lt' hsize⟩
  rw [h.count, IndexSet.countBelow, ← Set.ncard_coe_finset, ← himage,
    Set.ncard_image_of_injective _ fun _ _ => UInt32.toNat_inj.mp]

theorem InOrder.validCount_le {u : Upload} (h : u.InOrder) : u.validCount ≤ u.numBlocks := by
  rw [UInt32.le_iff_toNat_le, h.count]
  exact IndexSet.countBelow_le _ _

/-! ### The lowest address -/

/-- Looking at a block sets the lowest address back if it starts an upload, and
    leaves it alone if not. -/
theorem Accepts.lowestAddr {u v : Upload} {block : Block} {token : UInt32} {config : Config}
    {fenced : Bool} {job : Option Job} (h : Accepts u block token config fenced v job) :
    .started ∈ u.entries block config fenced (job.map Job.forUpload)
        ∧ v.lowestAddr = 0xFFFFFFFF
      ∨ .started ∉ u.entries block config fenced (job.map Job.forUpload)
        ∧ v.lowestAddr = u.lowestAddr := by
  cases h with
  | turnedAway haway => simp [entries, haway, reset]
  | dropped hstay =>
    simp only [entries, hstay, Bool.false_eq_true, if_false]
    by_cases hn : u.numBlocks = block.header.numBlocks
    · simp [hn, joined_of_eq hn]
    · simp [hn, joined_of_ne hn, (start_started _ _ _).lowestAddr]
  | taken hstay =>
    simp only [entries, hstay, Bool.false_eq_true, if_false]
    by_cases hn : u.numBlocks = block.header.numBlocks
    · simp [hn, joined_of_eq hn]
    · simp [hn, joined_of_ne hn, (start_started _ _ _).lowestAddr]

end Upload

/-- What a step does to the lowest address, and what it puts down. -/
inductive Device.Lowers {σ : Type} (d d' : Device σ) : Journal → Prop where
  /-- An upload is started. -/
  | setBack {es : Journal} : .started ∈ es → (∀ job, .told job ∉ es) →
      d'.core.upload.lowestAddr = 0xFFFFFFFF → Lowers d d' es
  | kept {es : Journal} : .started ∉ es → (∀ job, .told job ∉ es) →
      d'.core.upload.lowestAddr = d.core.upload.lowestAddr → Lowers d d' es
  /-- A job is told of that makes no block valid. -/
  | passed {job : Job} :
      (∀ i, d'.core.upload.isBlockValid i = d.core.upload.isBlockValid i) →
      d'.core.upload.lowestAddr = d.core.upload.lowestAddr → Lowers d d' [.told job]
  | lowered {job : Job} {i : UInt32} : d.core.upload.isBlockValid i = false →
      d'.core.upload.isBlockValid i = true →
      d'.core.upload.lowestAddr = min d.core.upload.lowestAddr job.addr →
      Lowers d d' [.told job]

theorem Device.Step.lowers {σ : Type} [Machine σ] {d d' : Device σ} {es : Journal}
    (h : d.Step es d') (hs : d.core.upload.Sound) : d.Lowers d' es := by
  cases h with
  | block _ hcases =>
    obtain ⟨hstarted, hlowest⟩ | ⟨hstarted, hlowest⟩ := hcases.lowestAddr
    · exact .setBack hstarted (fun _ => Upload.told_not_mem_entries) hlowest
    · exact .kept hstarted (fun _ => Upload.told_not_mem_entries) hlowest
  | @take origin => cases origin <;> exact .kept (by simp) (by simp) rfl
  | told => exact .passed (fun _ => rfl) rfl
  | @credited job v request _ _ hcredit =>
    rcases Upload.cases_of_credit hs hcredit with ⟨-, rfl, -⟩ | ⟨-, hv⟩
    · exact .passed (fun _ => rfl) rfl
    · -- The job is for the block that is waited for, which may have been valid before.
      have hlowest := hv.lowestAddr
      cases hvalid : d.core.upload.isBlockValid d.core.upload.blockNo with
      | true =>
        rw [hvalid, if_pos rfl] at hlowest
        refine .passed (fun i => ?_) hlowest
        show v.isBlockValid i = _
        rw [hv.valid]
        by_cases hi : i = d.core.upload.blockNo
        · simp [hi, hvalid]
        · simp [hi]
      | false =>
        rw [hvalid, if_neg (by decide)] at hlowest
        exact .lowered hvalid (by simp [hv.valid]) hlowest
  | _ => exact .kept (by simp) (by simp) rfl

namespace Watched

variable {σ : Type} [Machine σ]

/-- A job for address `a` is told of, and makes a block valid. -/
def CountsFirst (a : UInt32) (v v' : Watched σ) : Prop :=
  ∃ job i, v'.journal = .told job :: v.journal ∧ job.addr = a
    ∧ v.device.core.upload.isBlockValid i = false ∧ v'.device.core.upload.isBlockValid i = true

/-- The address is the lowest one for which a job made a block valid since the
    upload was started. Where there is none it is the highest of all addresses. -/
structure IsLowest (w₀ : Watched σ) (moves : List Move) (lowest : UInt32) : Prop where
  le : ∀ a, SinceStart (CountsFirst a) w₀ moves → lowest ≤ a
  attained : SinceStart (CountsFirst lowest) w₀ moves
    ∨ lowest = 0xFFFFFFFF ∧ ∀ a, ¬ SinceStart (CountsFirst a) w₀ moves

theorem isLowest_nil (w₀ : Watched σ) : IsLowest w₀ [] 0xFFFFFFFF :=
  ⟨fun _ h => absurd h (not_sinceStart_nil _ _), .inr ⟨rfl, fun _ => not_sinceStart_nil _ _⟩⟩

/-- Only a step that tells of a job can make a block valid. -/
theorem told_of_countsFirst {v v' : Watched σ} {m : Move} {a : UInt32} (hstep : v.step m = .ok v')
    (h : CountsFirst a v v') : ∃ job i, v.device.entries m = [.told job] ∧ job.addr = a
      ∧ v.device.core.upload.isBlockValid i = false
      ∧ v'.device.core.upload.isBlockValid i = true := by
  obtain ⟨job, i, hcons, haddr, hold, hnew⟩ := h
  rw [step_journal hstep] at hcons
  exact ⟨job, i, List.append_cancel_right (hcons.trans (List.singleton_append).symm), haddr,
    hold, hnew⟩

section step

variable {w₀ v v' : Watched σ} {m : Move} {moves : List Move} {lowest : UInt32}

/-- Where nothing becomes valid and nothing is started, the history is as before. -/
theorem IsLowest.kept (h : IsLowest w₀ moves lowest) (hrun : w₀.run moves = .ok v)
    (hstep : v.step m = .ok v') (hno : .started ∉ v.device.entries m)
    (hnone : ∀ a, ¬ CountsFirst a v v') : IsLowest w₀ (moves ++ [m]) lowest := by
  have hback : ∀ a, SinceStart (CountsFirst a) w₀ (moves ++ [m]) →
      SinceStart (CountsFirst a) w₀ moves :=
    fun a ha => (ha.cases hrun hstep).elim (fun h => absurd h (hnone a)) And.left
  refine ⟨fun a ha => h.le a (hback a ha), ?_⟩
  rcases h.attained with hmem | ⟨htop, hempty⟩
  · exact .inl (hmem.later hrun hstep hno)
  · exact .inr ⟨htop, fun a ha => hempty a (hback a ha)⟩

/-- A job that makes a block valid lowers the address to its own, unless it is lower. -/
theorem IsLowest.lowered (h : IsLowest w₀ moves lowest) (hrun : w₀.run moves = .ok v)
    (hstep : v.step m = .ok v') {job : Job} (htells : v.device.entries m = [.told job])
    (hnow : CountsFirst job.addr v v') : IsLowest w₀ (moves ++ [m]) (min lowest job.addr) := by
  constructor
  · intro a ha
    rcases ha.cases hrun hstep with ha | ⟨ha, -⟩
    · obtain ⟨other, -, hother, haddr, -⟩ := told_of_countsFirst hstep ha
      have hsame : job = other := by simpa using htells.symm.trans hother
      rw [← haddr, ← hsame]
      exact Std.min_le_right
    · exact Std.le_trans Std.min_le_left (h.le a ha)
  · left
    -- The minimum of the two is one of them.
    rcases Std.min_eq_or (a := lowest) (b := job.addr) with hmin | hmin
    · rw [hmin]
      rcases h.attained with hmem | ⟨htop, -⟩
      · exact hmem.later hrun hstep (by simp [htells])
      · -- The highest address is a minimum only if it is that of the job, too.
        have hle : (0xFFFFFFFF : UInt32) ≤ job.addr := by
          rw [← htop, ← hmin]
          exact Std.min_le_right
        have htop' : job.addr = 0xFFFFFFFF :=
          UInt32.le_antisymm
            (UInt32.le_iff_toNat_le.mpr (Nat.le_of_lt_succ job.addr.toNat_lt)) hle
        rw [htop, ← htop']
        exact .now hrun hstep hnow
    · rw [hmin]
      exact .now hrun hstep hnow

/-- A step keeps the lowest address what it is said to be. -/
theorem IsLowest.snoc (h : IsLowest w₀ moves v.device.core.upload.lowestAddr)
    (hrun : w₀.run moves = .ok v) (hstep : v.step m = .ok v')
    (hlowers : v.device.Lowers v'.device (v.device.entries m)) :
    IsLowest w₀ (moves ++ [m]) v'.device.core.upload.lowestAddr := by
  generalize hes : v.device.entries m = es at hlowers
  cases hlowers with
  | setBack hstarted hno hlowest =>
    have hempty : ∀ a, ¬ SinceStart (CountsFirst a) w₀ (moves ++ [m]) := by
      intro a ha
      rcases ha.cases hrun hstep with hnow | ⟨-, hnot⟩
      · obtain ⟨job, i, htells, -⟩ := told_of_countsFirst hstep hnow
        exact hno job (by rw [← hes, htells]; exact List.mem_singleton_self _)
      · exact hnot (hes ▸ hstarted)
    rw [hlowest]
    exact ⟨fun a ha => absurd ha (hempty a), .inr ⟨rfl, hempty⟩⟩
  | kept hstarted hno hlowest =>
    rw [hlowest]
    refine h.kept hrun hstep (hes ▸ hstarted) fun a ha => ?_
    obtain ⟨job, i, htells, -⟩ := told_of_countsFirst hstep ha
    exact hno job (by rw [← hes, htells]; exact List.mem_singleton_self _)
  | passed hvalid hlowest =>
    rw [hlowest]
    refine h.kept hrun hstep (by simp [hes]) fun a ha => ?_
    obtain ⟨-, i, -, -, hold, hnew⟩ := told_of_countsFirst hstep ha
    rw [hvalid i, hold] at hnew
    cases hnew
  | @lowered job i hold hnew hlowest =>
    rw [hlowest]
    refine h.lowered hrun hstep hes ⟨job, i, ?_, rfl, hold, hnew⟩
    rw [step_journal hstep, hes]
    rfl

end step

/-- Every run of a new device comes to an end, and while there is an upload its
    books are in order: the block accepted last belongs to the image, which fits
    the set, as do the valid blocks; the count is how many of them there are; the
    image is complete exactly when they are all of its blocks. The lowest address
    is that of the jobs that made a block valid. -/
theorem run_inOrder (config : Config) (ramBlocks flashBlocks erasedSectors : IndexSet)
    (machine : σ) (moves : List Move) :
    ∃ w, (fresh config ramBlocks flashBlocks erasedSectors machine).run moves = .ok w
      ∧ IsLowest (fresh config ramBlocks flashBlocks erasedSectors machine) moves
          w.device.core.upload.lowestAddr
      ∧ (w.device.core.upload.numBlocks ≠ 0 →
        w.device.core.upload.blockNo < w.device.core.upload.numBlocks
          ∧ w.device.core.upload.numBlocks ≤ w.device.core.upload.validBlocks.capacity
          ∧ (∀ i, w.device.core.upload.isBlockValid i = true →
            i < w.device.core.upload.numBlocks)
          ∧ w.device.core.upload.validCount.toNat
            = {i | w.device.core.upload.isBlockValid i = true}.ncard
          ∧ w.device.core.upload.validCount ≤ w.device.core.upload.numBlocks
          ∧ (w.device.core.upload.status.progress = .complete ↔
            ∀ i < w.device.core.upload.numBlocks,
              w.device.core.upload.isBlockValid i = true)) := by
  let w₀ := fresh config ramBlocks flashBlocks erasedSectors machine
  obtain ⟨w, hrun, hsound, hlowest⟩ : ∃ w, w₀.run moves = .ok w ∧ w.device.core.upload.Sound
      ∧ IsLowest w₀ moves w.device.core.upload.lowestAddr := by
    refine run_history (P := fun moves w => w.device.core.upload.Sound
      ∧ IsLowest w₀ moves w.device.core.upload.lowestAddr) ?_ ?_ moves
    · exact ⟨Upload.sound_onSets ramBlocks flashBlocks erasedSectors, isLowest_nil w₀⟩
    · rintro moves v m hrun ⟨hs, hlowest⟩
      obtain ⟨d, hstep, hd⟩ := v.step_ok hs m
      exact ⟨_, hstep, hd.sound hs, hlowest.snoc hrun hstep (hd.lowers hs)⟩
  refine ⟨w, hrun, hlowest, fun hn => ?_⟩
  have horder := hsound hn
  exact ⟨horder.blockNo_lt, horder.fits, horder.valid_lt, horder.validCount_eq_ncard,
    horder.validCount_le, horder.progress_eq_complete_iff hn⟩

end Watched

end Reflash
