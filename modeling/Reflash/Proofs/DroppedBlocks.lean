import Reflash.Proofs.ErasedSectors
/-! # What a dropped block leaves behind

  A block for which there is no job ought to end the upload or leave it alone. There is one
  way in which it does neither. A block that announces another number of blocks starts a new
  upload, and that is done before the block itself is looked at. If its number is then found
  to be beyond the image, or its sector beyond those that are tracked, the block is dropped,
  but the old upload is gone: what is left is a new one for which nothing was written.

  `Upload.StartsInVain` says which blocks those are, in terms of the upload before and the
  block alone, and `Upload.dropped_or_starts_in_vain` that there are no others.
-/

namespace Reflash

namespace Upload

/-- A block announces an image that is not the current one and that fits, and cannot itself
    be written: it is beyond its image, or its sector is beyond those that are tracked. -/
structure StartsInVain (u : Upload) (block : Block) (config : Config) (fenced : Bool) : Prop where
  stays : turnsAway block config fenced = false
  other : u.numBlocks ≠ block.header.numBlocks
  fits : block.header.numBlocks ≤
    (if (ramOf config.map block).isSome then u.ramBlocks else u.flashBlocks).capacity
  beyond : block.header.numBlocks ≤ block.header.blockNo
    ∨ ∃ flash, flashOf config.map block = some flash
        ∧ u.erasedSectors.capacity ≤ flash.sectorNo block.header.targetAddr

/-- There is an upload of this many blocks, and nothing was written for it. -/
structure Bare (u : Upload) (numBlocks : UInt32) : Prop where
  numBlocks : u.numBlocks = numBlocks
  active : u.numBlocks ≠ 0
  validCount : u.validCount = 0
  valid : ∀ i, u.isBlockValid i = false

section dropping

variable {u : Upload} {block : Block} {config : Config} {fenced : Bool}

/-- A block that is not turned away announces an image. -/
theorem numBlocks_of_not_turnsAway (h : turnsAway block config fenced = false) :
    block.header.numBlocks ≠ 0 := by
  intro hzero
  simp [turnsAway, hzero] at h

/-- A block that announces another image starts one, whether it fits or not. -/
theorem started_joined (hn : u.numBlocks ≠ block.header.numBlocks) :
    Started u (ramOf config.map block).isSome block.header.numBlocks
      (u.joined block config).1 (u.joined block config).2 := by
  rw [joined_of_ne hn]
  exact start_started _ _ _

/-- The image of a block that starts one in vain fits. -/
theorem StartsInVain.started (h : u.StartsInVain block config fenced) :
    Started u (ramOf config.map block).isSome block.header.numBlocks
      (u.joined block config).1 true := by
  have hstarted : Started u _ _ (u.joined block config).1 _ := started_joined h.other
  have hroom : (u.joined block config).2 = true := by
    rw [hstarted.room, hstarted.capacity]
    exact decide_eq_true h.fits
  rwa [hroom] at hstarted

/-- A block that starts an image in vain is dropped, and leaves it bare. -/
theorem StartsInVain.accepts (h : u.StartsInVain block config fenced) (token : UInt32) :
    Accepts u block token config fenced (u.joined block config).1 none := by
  refine .dropped h.stays ?_
  rcases h.beyond with hno | ⟨flash, hflash, hsector⟩
  · exact .inr (.inr (.inl hno))
  · rw [← capacity_joined u block config] at hsector
    exact .inr (.inr (.inr (.inr ⟨flash, hflash, hsector⟩)))

theorem StartsInVain.bare (h : u.StartsInVain block config fenced) :
    (u.joined block config).1.Bare block.header.numBlocks := by
  have hnum : (u.joined block config).1.numBlocks = block.header.numBlocks := by
    rw [h.started.numBlocks, if_pos rfl]
  refine ⟨hnum, ?_, h.started.validCount, h.started.valid⟩
  rw [hnum]
  exact numBlocks_of_not_turnsAway h.stays

/-- Any other block that is dropped leaves the upload as it was, unless its image does not
    fit: then there is no upload any more. -/
theorem joined_of_drops (hlength : block.payload.length = 256)
    (hstay : turnsAway block config fenced = false)
    (hdrop : Drops (u.joined block config).1 (u.joined block config).2 block config)
    (h : ¬ u.StartsInVain block config fenced) :
    (u.joined block config).1.numBlocks = 0 ∨ (u.joined block config).1 = u := by
  by_cases hn : u.numBlocks = block.header.numBlocks
  · right
    rw [joined_of_eq hn]
  · left
    have hstarted : Started u _ _ (u.joined block config).1 _ := started_joined hn
    cases hfits : (u.joined block config).2 with
    | false => rw [hstarted.numBlocks, hfits, if_neg Bool.false_ne_true]
    | true =>
      have hroom := of_decide_eq_true (hstarted.room.symm.trans hfits)
      rw [hstarted.capacity] at hroom
      -- The new upload is of the right kind, so only two reasons are left to drop the block.
      rcases hdrop with hfull | hkind | hno | hlong | ⟨flash, hflash, hsector⟩
      · rw [hfits] at hfull
        cases hfull
      · exact absurd hstarted.inRam.symm hkind
      · exact absurd ⟨hstay, hn, hroom, .inl hno⟩ h
      · omega
      · rw [capacity_joined] at hsector
        exact absurd ⟨hstay, hn, hroom, .inr ⟨flash, hflash, hsector⟩⟩ h

end dropping

end Upload

/-! ### Blocks without a job -/

namespace Watched

/-- An upload of three blocks to the small board, of which the first one is written. -/
def firstOfThree : Upload :=
  { ramBlocks := ((IndexSet.empty 1).insert 0).1, flashBlocks := .empty 1
    erasedSectors := .empty 1, numBlocks := 3, validCount := 1, lowestAddr := 0x20000000
    inRam := true, blockNo := 0, token := 1 }

end Watched

namespace Upload

open Watched

/-- What a block without a job leaves of an upload: nothing, or all of it as it was, except
    for one kind of block. A block that starts an image in vain has no job either, and leaves
    a new upload for which nothing was written. -/
theorem dropped_or_starts_in_vain (u : Upload) {sector : Sector} {block : Block}
    {config : Config} (token : UInt32) (fenced : Bool)
    (hblock : Block.ofSectorFor? sector config.familyId = .ok block) :
    ∃ v job, u.accept block token config fenced = .ok (v, job)
      ∧ (u.StartsInVain block config fenced →
        job = none ∧ v.Bare block.header.numBlocks ∧ v ≠ u)
      ∧ (¬ u.StartsInVain block config fenced → job = none → v.numBlocks = 0 ∨ v = u) := by
  by_cases hvain : u.StartsInVain block config fenced
  · have hbare := hvain.bare
    refine ⟨_, none, (hvain.accepts token).accept_eq, fun _ => ⟨rfl, hbare, ?_⟩,
      fun h => absurd hvain h⟩
    intro hsame
    have hnum := hbare.numBlocks
    rw [hsame] at hnum
    exact hvain.other hnum
  · obtain ⟨v, job, haccept, h⟩ := u.accept_accepts block token config fenced
    refine ⟨v, job, haccept, fun h => absurd h hvain, fun _ hnone => ?_⟩
    cases h with
    | turnedAway => exact .inl rfl
    | dropped hstay hdrop => exact joined_of_drops (Block.length_payload hblock) hstay hdrop hvain
    | taken => cases hnone

/-- Block nine of four comes while an image of three is uploaded. -/
theorem dropped_or_starts_in_vain_smallBoard :
    Block.ofSectorFor? (smallSector 9 4) smallConfig.familyId = .ok (smallBlock 9 4)
      ∧ ∃ v, firstOfThree.accept (smallBlock 9 4) 2 smallConfig false = .ok (v, none)
        ∧ v.Bare 4 ∧ v ≠ firstOfThree := by
  have hblock := ofSectorFor?_smallSector 9 4
  obtain ⟨v, job, haccept, hvain, -⟩ := firstOfThree.dropped_or_starts_in_vain 2 false hblock
  obtain ⟨rfl, hbare, hother⟩ := hvain ⟨by decide, by decide, by decide, .inl (by decide)⟩
  exact ⟨hblock, v, haccept, hbare, hother⟩

/-- The first block of three is written, and then block nine of four is dropped. The three
    blocks are forgotten all the same. -/
theorem starts_in_vain_smallBoard :
    ∃ w v, newSmallBoard.run [.sector 1 (smallSector 0 3), .take, .carryOut, .finish] = .ok w
      ∧ w.device.core.upload.numBlocks = 3 ∧ w.device.core.upload.isBlockValid 0 = true
      ∧ Block.ofSectorFor? (smallSector 9 4) smallConfig.familyId = .ok (smallBlock 9 4)
      ∧ w.device.core.upload.accept (smallBlock 9 4) 2 smallConfig false = .ok (v, none)
      ∧ v.numBlocks = 4 ∧ v.isBlockValid 0 = false := by
  let waiting : Upload :=
    { firstOfThree with ramBlocks := .empty 1, validCount := 0, lowestAddr := 0xFFFFFFFF }
  have hcredit : waiting.credit (smallJob 1 0 3).endedWell smallConfig
      = .ok (firstOfThree, none) := by decide
  have hrun : newSmallBoard.run [.sector 1 (smallSector 0 3), .take, .carryOut, .finish] = .ok _ :=
    (run_cons _ _ _ _ (smallBoard_sector (by decide) (by decide) (by decide) (by decide))).trans <|
    (run_cons _ _ _ _ smallBoard_take).trans <|
    (run_cons _ _ _ _ (smallBoard_carryOut (by decide))).trans <|
    run_cons _ _ _ _ (smallBoard_finish rfl hcredit)
  have hvain : firstOfThree.StartsInVain (smallBlock 9 4) smallConfig false :=
    ⟨by decide, by decide, by decide, .inl (by decide)⟩
  exact ⟨_, _, hrun, rfl, by decide, ofSectorFor?_smallSector 9 4, (hvain.accepts 2).accept_eq,
    hvain.bare.numBlocks, hvain.bare.valid 0⟩

end Upload

end Reflash
