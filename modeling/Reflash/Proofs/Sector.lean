import Mathlib.Tactic.Common
import Reflash.Sector
/-! # Sectors read back

  A block that was written into a sector is read back from it as it was, so what
  a packed image says about a page is what a device reads.
-/

namespace Reflash

/-- The four bytes of a word make up the word. -/
theorem Word.ofBytes_bytes (w : UInt32) :
    Word.ofBytes (Word.bytes w)[0] (Word.bytes w)[1] (Word.bytes w)[2] (Word.bytes w)[3] = w := by
  apply UInt32.toNat_inj.mp
  apply Nat.eq_of_testBit_eq
  intro i
  -- There are no bits beyond the fourth byte.
  have hhigh : 32 ≤ i → w.toNat.testBit i = false := fun h =>
    Nat.testBit_lt_two_pow (Nat.lt_of_lt_of_le w.toNat_lt (Nat.pow_le_pow_right (by decide) h))
  simp only [Word.ofBytes, Word.bytes, Vector.getElem_mk, List.getElem_toArray,
    List.getElem_cons_zero, List.getElem_cons_succ, UInt32.toNat_or, UInt32.toNat_shiftLeft,
    UInt8.toNat_toUInt32, UInt32.toNat_toUInt8, UInt32.toNat_shiftRight, Nat.testBit_or,
    Nat.testBit_mod_two_pow, Nat.testBit_shiftLeft, Nat.testBit_shiftRight]
  simp
  grind

/-! ### The parts of a written sector -/

section parts

variable (b : Block)

theorem Block.toArray_toSector : b.toSector.toArray =
    (Word.bytes Header.magicStart).toArray ++ (Word.bytes Header.magicSecond).toArray
      ++ (Word.bytes b.header.flags).toArray ++ (Word.bytes b.header.targetAddr).toArray
      ++ (Word.bytes b.header.payloadSize).toArray ++ (Word.bytes b.header.blockNo).toArray
      ++ (Word.bytes b.header.numBlocks).toArray ++ (Word.bytes b.header.familyId).toArray
      ++ b.data.toArray ++ (Word.bytes Header.magicEnd).toArray := rfl

theorem Sector.lt_size (s : Sector) {off k : Nat} (h : off + 3 < 512) (hk : k ≤ 3) :
    off + k < s.toArray.size := by
  rw [Vector.size_toArray]
  exact Nat.lt_of_le_of_lt (Nat.add_le_add_left hk off) h

theorem Sector.word_eq (s : Sector) (off : Nat) (h : off + 3 < 512) :
    Sector.word s off h = Word.ofBytes (getElem s.toArray off (s.lt_size h (Nat.zero_le 3)))
      (getElem s.toArray (off + 1) (s.lt_size h (by decide)))
      (getElem s.toArray (off + 2) (s.lt_size h (by decide)))
      (getElem s.toArray (off + 3) (s.lt_size h (Nat.le_refl 3))) := rfl

theorem Sector.hasMagic_toSector : Sector.hasMagic b.toSector = true := by
  have hstart : Sector.word b.toSector 0 = Header.magicStart := by
    simp only [Sector.word_eq, Block.toArray_toSector, Array.getElem_append]
    simp [Word.ofBytes_bytes Header.magicStart]
  have hsecond : Sector.word b.toSector 4 = Header.magicSecond := by
    simp only [Sector.word_eq, Block.toArray_toSector, Array.getElem_append]
    simp [Word.ofBytes_bytes Header.magicSecond]
  have hend : Sector.word b.toSector 508 = Header.magicEnd := by
    simp only [Sector.word_eq, Block.toArray_toSector, Array.getElem_append]
    simp [Word.ofBytes_bytes Header.magicEnd]
  simp only [Sector.hasMagic, hstart, hsecond, hend, decide_true, Bool.and_true]

theorem Sector.header_toSector : Sector.header b.toSector = b.header := by
  simp only [Sector.header, Sector.word_eq, Block.toArray_toSector, Array.getElem_append]
  simp [Word.ofBytes_bytes]

theorem Sector.data_toSector : Sector.data b.toSector = b.data := by
  apply Vector.ext
  intro i hi
  simp only [Sector.data, Vector.getElem_ofFn]
  show getElem b.toSector.toArray (32 + i) (by simp; omega) = _
  simp only [Block.toArray_toSector, Array.getElem_append]
  have hinside : 32 + i < 508 := by omega
  have hbehind : ¬ 32 + i < 32 := by omega
  simp [hinside, hbehind]

end parts

/-! ### Reading a block back -/

namespace Block

theorem ofSector?_toSector (b : Block) : ofSector? b.toSector = .ok b := by
  simp only [ofSector?, Sector.hasMagic_toSector, if_true, Sector.header_toSector,
    Sector.data_toSector]

/-- A device takes a written block if it is a page for its family. -/
theorem ofSectorFor?_toSector (b : Block) (familyId : UInt32) :
    ofSectorFor? b.toSector familyId =
      if isFor familyId b.header then .ok b else .error .foreign := by
  simp only [ofSectorFor?, ofSector?_toSector]
  rfl

/-- The header of a page of an image is one for the family of the image. -/
theorem isFor_page (addr blockNo numBlocks familyId : UInt32) :
    isFor familyId (Header.page addr blockNo numBlocks familyId) = true := by
  have hflags : Header.familyPresent &&& Header.familyPresent != 0 := by decide
  have hmain : Header.familyPresent &&& Header.notMainFlash = 0 := by decide
  simp only [isFor, Header.page, hflags, hmain, decide_true, Bool.and_true]

/-- A page of an image, as a device reads it. -/
theorem ofSectorFor?_page (addr blockNo numBlocks familyId : UInt32) (bytes : Bytes) :
    ofSectorFor? ((Header.page addr blockNo numBlocks familyId).toSector bytes) familyId
      = .ok ⟨Header.page addr blockNo numBlocks familyId, dataArea bytes⟩ := by
  unfold Header.toSector
  rw [ofSectorFor?_toSector, if_pos (isFor_page addr blockNo numBlocks familyId)]

/-- The payload of a page is the page. -/
theorem payload_page (addr blockNo numBlocks familyId : UInt32) {bytes : Bytes}
    (h : bytes.length = 256) :
    payload ⟨Header.page addr blockNo numBlocks familyId, dataArea bytes⟩ = bytes := by
  have hsize : (Header.page addr blockNo numBlocks familyId).payloadSize.toNat = 256 := rfl
  have harea : (dataArea bytes).toList = bytes ++ List.replicate 220 0 := by
    show (bytes.take 476 ++ List.replicate (476 - bytes.length) 0) = _
    rw [List.take_of_length_le (by omega), h]
  unfold payload
  rw [hsize, harea, List.take_append_of_le_length (by omega),
    List.take_of_length_le (by omega)]

end Block

end Reflash
