import Reflash.Proofs.IndexSet
import Reflash.Proofs.Sector
/-! # Blocks and the sectors that hold them

  A block is written into one sector, and a sector that opens and closes with the magic words
  holds one block. Each way undoes the other, so no byte of a sector goes unread, and no two
  sectors hold the same block.

  `Sector.number` reads four bytes of a sector as a number, lowest byte first. What is said in
  terms of it is said of the bytes, and does not go through the words of a block.
-/

namespace Reflash

/-! ### Words and their bytes -/

namespace Word

/-- A word is the number that its bytes stand for. -/
theorem toNat_ofBytes (b0 b1 b2 b3 : UInt8) :
    (ofBytes b0 b1 b2 b3).toNat
      = b0.toNat + 256 * b1.toNat + 65536 * b2.toNat + 16777216 * b3.toNat := by
  have h0 := b0.toNat_lt
  have h1 := b1.toNat_lt
  have h2 := b2.toNat_lt
  have h3 := b3.toNat_lt
  -- Each byte is moved to a place of its own, and none is moved out of the word.
  have hplace1 : b1.toNat <<< 8 % 2 ^ 32 = 256 * b1.toNat := by
    rw [Nat.shiftLeft_eq]
    omega
  have hplace2 : b2.toNat <<< 16 % 2 ^ 32 = 65536 * b2.toNat := by
    rw [Nat.shiftLeft_eq]
    omega
  have hplace3 : b3.toNat <<< 24 % 2 ^ 32 = 16777216 * b3.toNat := by
    rw [Nat.shiftLeft_eq]
    omega
  have hor : ∀ {low k high : Nat}, low < 2 ^ k → low ||| 2 ^ k * high = low + 2 ^ k * high := by
    intro low k high hlow
    rw [Nat.lor_comm, Nat.mul_comm, ← Nat.shiftLeft_eq, ← Nat.shiftLeft_add_eq_or_of_lt hlow,
      Nat.add_comm]
  have hlow : b0.toNat ||| 256 * b1.toNat = b0.toNat + 256 * b1.toNat := hor (k := 8) h0
  have hmiddle : (b0.toNat + 256 * b1.toNat) ||| 65536 * b2.toNat
      = b0.toNat + 256 * b1.toNat + 65536 * b2.toNat := hor (k := 16) (by omega)
  have hhigh : (b0.toNat + 256 * b1.toNat + 65536 * b2.toNat) ||| 16777216 * b3.toNat
      = b0.toNat + 256 * b1.toNat + 65536 * b2.toNat + 16777216 * b3.toNat :=
    hor (k := 24) (by omega)
  simp only [ofBytes, UInt32.toNat_or, UInt32.toNat_shiftLeft, UInt8.toNat_toUInt32]
  show b0.toNat ||| b1.toNat <<< 8 % 2 ^ 32 ||| b2.toNat <<< 16 % 2 ^ 32
    ||| b3.toNat <<< 24 % 2 ^ 32 = _
  rw [hplace1, hplace2, hplace3, hlow, hmiddle, hhigh]

/-- The bytes of a word that was put together are the ones it was put together from. -/
theorem bytes_ofBytes (b0 b1 b2 b3 : UInt8) :
    bytes (ofBytes b0 b1 b2 b3) = #v[b0, b1, b2, b3] := by
  have hnat := toNat_ofBytes b0 b1 b2 b3
  have h0 := b0.toNat_lt
  have h1 := b1.toNat_lt
  have h2 := b2.toNat_lt
  have h3 := b3.toNat_lt
  -- From here on the word counts only as a number.
  generalize ofBytes b0 b1 b2 b3 = w at hnat
  have hbyte : ∀ {k : UInt32} {b : UInt8}, k.toNat < 32 →
      w.toNat / 2 ^ k.toNat % 256 = b.toNat → (w >>> k).toUInt8 = b := by
    intro k b hk h
    rw [← UInt8.toNat_inj, UInt32.toNat_toUInt8, UInt32.toNat_shiftRight, Nat.mod_eq_of_lt hk,
      Nat.shiftRight_eq_div_pow]
    exact h
  have hbyte0 : w.toUInt8 = b0 := by
    rw [← UInt8.toNat_inj, UInt32.toNat_toUInt8, hnat]
    omega
  have hbyte1 : (w >>> 8).toUInt8 = b1 := by
    apply hbyte (by decide)
    rw [hnat, show (8 : UInt32).toNat = 8 from rfl]
    omega
  have hbyte2 : (w >>> 16).toUInt8 = b2 := by
    apply hbyte (by decide)
    rw [hnat, show (16 : UInt32).toNat = 16 from rfl]
    omega
  have hbyte3 : (w >>> 24).toUInt8 = b3 := by
    apply hbyte (by decide)
    rw [hnat, show (24 : UInt32).toNat = 24 from rfl]
    omega
  simp only [bytes, hbyte0, hbyte1, hbyte2, hbyte3]

end Word

/-! ### The bytes of a sector -/

namespace Sector

variable (s : Sector)

/-- The number that stands at an offset of a sector, in four bytes, the lowest one first. -/
def number (off : Nat) : Nat :=
  ((s.toList.drop off).take 4).foldr (fun b high => b.toNat + 256 * high) 0

/-- The bytes of a word of a sector are bytes of the sector. -/
theorem toArray_bytes_word (off : Nat) (h : off + 3 < 512) :
    (Word.bytes (Sector.word s off h)).toArray = s.toArray.extract off (off + 4) := by
  unfold word
  rw [Word.bytes_ofBytes]
  apply Array.ext
  · rw [Array.size_extract, Vector.size_toArray, Vector.size_toArray]
    omega
  · intro k hk _
    rw [Vector.size_toArray] at hk
    rw [Array.getElem_extract]
    -- There are four bytes, and each is where it ought to be.
    match k, hk with
    | 0, _ => rfl
    | 1, _ => rfl
    | 2, _ => rfl
    | 3, _ => rfl

theorem toNat_word (off : Nat) (h : off + 3 < 512) :
    (Sector.word s off h).toNat = Sector.number s off := by
  have hbytes : (Word.bytes (Sector.word s off h)).toList = (s.toList.drop off).take 4 := by
    have hlist := congrArg Array.toList (toArray_bytes_word s off h)
    rw [Array.toList_extract, List.extract_eq_take_drop, Nat.add_sub_cancel_left] at hlist
    exact hlist
  have hfour : (Word.bytes (Sector.word s off h)).toList
      = [s[off], s[off + 1], s[off + 2], s[off + 3]] := by
    rw [word, Word.bytes_ofBytes]
    rfl
  rw [number, ← hbytes, hfour, word, Word.toNat_ofBytes]
  simp only [List.foldr_cons, List.foldr_nil]
  omega

theorem toArray_data : (Sector.data s).toArray = s.toArray.extract 32 508 := by
  apply Array.ext
  · rw [Array.size_extract, Vector.size_toArray, Vector.size_toArray]
    rfl
  · intro k _ _
    rw [Array.getElem_extract]
    simp [Sector.data]

/-- The three magic words stand at the two ends of a sector. -/
def IsFramed : Prop :=
  Sector.number s 0 = 0x0A324655 ∧ Sector.number s 4 = 0x9E5D5157
    ∧ Sector.number s 508 = 0x0AB16F30

theorem hasMagic_iff : Sector.hasMagic s = true ↔ Sector.IsFramed s := by
  unfold hasMagic
  rw [Bool.and_eq_true, Bool.and_eq_true, decide_eq_true_eq, decide_eq_true_eq, decide_eq_true_eq,
    and_assoc, ← UInt32.toNat_inj, ← UInt32.toNat_inj, ← UInt32.toNat_inj, toNat_word, toNat_word,
    toNat_word]
  exact Iff.rfl

/-- A sector with its magic words is what is written for its header and its data area. -/
theorem toSector_header_data (h : Sector.hasMagic s = true) :
    Block.toSector ⟨Sector.header s, Sector.data s⟩ = s := by
  unfold hasMagic at h
  rw [Bool.and_eq_true, Bool.and_eq_true, decide_eq_true_eq, decide_eq_true_eq,
    decide_eq_true_eq] at h
  obtain ⟨⟨hstart, hsecond⟩, hend⟩ := h
  apply Vector.toArray_inj.mp
  -- Part by part, what is written is a piece of the sector, and the pieces lie end to end.
  rw [Block.toArray_toSector, ← hstart, ← hsecond, ← hend, toArray_data]
  simp only [header, toArray_bytes_word]
  simp [Array.extract_append_extract]

end Sector

/-! ### Data areas -/

theorem toList_dataArea (bytes : Bytes) :
    (dataArea bytes).toList = bytes.take 476 ++ List.replicate (476 - bytes.length) 0 := rfl

/-- A data area that is written again is the same. -/
theorem dataArea_toList (v : Vector UInt8 476) : dataArea v.toList = v := by
  apply Vector.toList_inj.mp
  have hlength : v.toList.length = 476 := Vector.length_toList
  rw [toList_dataArea, hlength, List.take_of_length_le (Nat.le_of_eq hlength)]
  exact List.append_nil _

namespace Block

/-! ### Writing and reading -/

/-- A block is read from a sector exactly if the sector is what is written for it. -/
theorem ofSector?_eq_ok_iff {s : Sector} {b : Block} :
    ofSector? s = .ok b ↔ b.header.toSector b.data.toList = s := by
  have hwritten : b.header.toSector b.data.toList = b.toSector := by
    unfold Header.toSector
    rw [dataArea_toList]
  rw [hwritten]
  constructor
  · intro h
    unfold ofSector? at h
    by_cases hmagic : Sector.hasMagic s = true
    · rw [if_pos hmagic] at h
      cases h
      exact Sector.toSector_header_data s hmagic
    · rw [if_neg hmagic] at h
      cases h
  · rintro rfl
    exact ofSector?_toSector b

/-- No more bytes than there are belong to the payload. -/
theorem payload_eq_take_min (b : Block) :
    b.payload = b.data.toList.take (min b.header.payloadSize.toNat 476) := by
  have hlength : b.data.toList.length = 476 := Vector.length_toList
  unfold payload
  by_cases hfits : b.header.payloadSize.toNat ≤ 476
  · rw [Nat.min_eq_left hfits]
  · -- All of the data area is taken either way.
    rw [Nat.min_eq_right (by omega), List.take_of_length_le (by omega),
      List.take_of_length_le (by omega)]

/-- What a header says of itself to be a page for a family, bit by bit. -/
theorem isFor_iff {familyId : UInt32} {h : Header} :
    isFor familyId h = true ↔ h.flags.toNat.testBit 13 = true ∧ h.familyId = familyId
      ∧ h.flags.toNat.testBit 0 = false ∧ h.payloadSize = 256 := by
  have hfamily : (h.flags &&& Header.familyPresent != 0) = h.flags.toNat.testBit 13 :=
    IndexSet.and_mask_ne_zero h.flags 13
  have hmain : (h.flags &&& Header.notMainFlash != 0) = h.flags.toNat.testBit 0 :=
    IndexSet.and_mask_ne_zero h.flags 0
  have hmain' : h.flags &&& Header.notMainFlash = 0 ↔ h.flags.toNat.testBit 0 = false := by
    rw [← hmain, bne_eq_false_iff_eq]
  unfold isFor
  rw [hfamily, Bool.and_eq_true, Bool.and_eq_true, Bool.and_eq_true, decide_eq_true_eq,
    decide_eq_true_eq, decide_eq_true_eq, hmain', and_assoc, and_assoc]
  exact Iff.rfl

/-- A device takes a block that is read and is a page for its family. -/
theorem ofSectorFor?_eq_ok_iff {s : Sector} {familyId : UInt32} {b : Block} :
    ofSectorFor? s familyId = .ok b ↔ ofSector? s = .ok b ∧ isFor familyId b.header = true := by
  unfold ofSectorFor?
  cases hread : ofSector? s with
  | error e => simp [bind, Except.bind]
  | ok other =>
    by_cases hfor : isFor familyId other.header = true
    · simp only [bind, Except.bind, hfor, if_true, pure, Except.pure, Except.ok.injEq]
      constructor
      · rintro rfl
        exact ⟨rfl, hfor⟩
      · exact And.left
    · simp only [bind, Except.bind, hfor, Except.ok.injEq]
      constructor
      · exact nofun
      · rintro ⟨rfl, hsame⟩
        exact absurd hsame hfor

/-- The parts of a block stand in a sector where the format has them. -/
structure StandsIn (b : Block) (s : Sector) : Prop where
  flags : b.header.flags.toNat = Sector.number s 8
  targetAddr : b.header.targetAddr.toNat = Sector.number s 12
  payloadSize : b.header.payloadSize.toNat = Sector.number s 16
  blockNo : b.header.blockNo.toNat = Sector.number s 20
  numBlocks : b.header.numBlocks.toNat = Sector.number s 24
  familyId : b.header.familyId.toNat = Sector.number s 28
  data : b.data.toList = (s.toList.drop 32).take 476

theorem standsIn_header_data (s : Sector) : StandsIn ⟨Sector.header s, Sector.data s⟩ s := by
  refine ⟨Sector.toNat_word s 8 _, Sector.toNat_word s 12 _, Sector.toNat_word s 16 _,
    Sector.toNat_word s 20 _, Sector.toNat_word s 24 _, Sector.toNat_word s 28 _, ?_⟩
  show (Sector.data s).toArray.toList = _
  rw [Sector.toArray_data, Array.toList_extract]
  rfl

/-- No two blocks stand in one sector. -/
theorem StandsIn.eq {b b' : Block} {s : Sector} (h : b.StandsIn s) (h' : b'.StandsIn s) :
    b = b' := by
  obtain ⟨⟨flags, targetAddr, payloadSize, blockNo, numBlocks, familyId⟩, data⟩ := b
  obtain ⟨⟨flags', targetAddr', payloadSize', blockNo', numBlocks', familyId'⟩, data'⟩ := b'
  obtain rfl : flags = flags' := UInt32.toNat_inj.mp (h.flags.trans h'.flags.symm)
  obtain rfl : targetAddr = targetAddr' :=
    UInt32.toNat_inj.mp (h.targetAddr.trans h'.targetAddr.symm)
  obtain rfl : payloadSize = payloadSize' :=
    UInt32.toNat_inj.mp (h.payloadSize.trans h'.payloadSize.symm)
  obtain rfl : blockNo = blockNo' := UInt32.toNat_inj.mp (h.blockNo.trans h'.blockNo.symm)
  obtain rfl : numBlocks = numBlocks' :=
    UInt32.toNat_inj.mp (h.numBlocks.trans h'.numBlocks.symm)
  obtain rfl : familyId = familyId' := UInt32.toNat_inj.mp (h.familyId.trans h'.familyId.symm)
  obtain rfl : data = data' := Vector.toList_inj.mp (h.data.trans h'.data.symm)
  rfl

/-- A sector is read if its magic words are in place, and then as the block that stands in
    it. -/
theorem ofSector?_eq_ok_iff_standsIn {s : Sector} {b : Block} :
    ofSector? s = .ok b ↔ Sector.IsFramed s ∧ b.StandsIn s := by
  rw [← Sector.hasMagic_iff]
  unfold ofSector?
  by_cases hmagic : Sector.hasMagic s = true
  · rw [if_pos hmagic, Except.ok.injEq]
    constructor
    · rintro rfl
      exact ⟨hmagic, standsIn_header_data s⟩
    · intro h
      exact (standsIn_header_data s).eq h.2
  · rw [if_neg hmagic]
    constructor
    · exact nofun
    · intro h
      exact absurd h.1 hmagic

/-- Sectors with their magic words and blocks are the same thing in two forms.

    Every header, written with any bytes, is read back with all of its fields and with the bytes
    cut off or filled up with zeros, of which as many are payload as the header says. What is
    read from a sector, written again, is that sector. A sector is read exactly if the three
    magic words are in place, and then every part of the block stands where the format has it.
    A device takes the block exactly if, on top of that, it is a page of main memory for the
    family. -/
theorem sector_codec :
    (∀ (h : Header) (bytes : Bytes), ∃ b, ofSector? (h.toSector bytes) = .ok b ∧ b.header = h
        ∧ b.data.toList = bytes.take 476 ++ List.replicate (476 - bytes.length) 0
        ∧ b.payload = b.data.toList.take (min h.payloadSize.toNat 476))
      ∧ (∀ (s : Sector) (b : Block),
        ofSector? s = .ok b ↔ b.header.toSector b.data.toList = s)
      ∧ (∀ s : Sector, (∃ b, ofSector? s = .ok b) ↔ Sector.IsFramed s)
      ∧ (∀ (s : Sector) (b : Block),
        ofSector? s = .ok b ↔ Sector.IsFramed s ∧ b.StandsIn s)
      ∧ ∀ (s : Sector) (familyId : UInt32) (b : Block), ofSectorFor? s familyId = .ok b ↔
        ofSector? s = .ok b ∧ b.header.flags.toNat.testBit 13 = true
          ∧ b.header.familyId = familyId ∧ b.header.flags.toNat.testBit 0 = false
          ∧ b.header.payloadSize = 256 := by
  refine ⟨?_, ?_, ?_, ?_, ?_⟩
  · intro h bytes
    refine ⟨⟨h, dataArea bytes⟩, ofSector?_toSector _, rfl, toList_dataArea bytes, ?_⟩
    exact payload_eq_take_min ⟨h, dataArea bytes⟩
  · intro s b
    exact ofSector?_eq_ok_iff
  · intro s
    constructor
    · rintro ⟨b, h⟩
      exact (ofSector?_eq_ok_iff_standsIn.mp h).1
    · intro h
      exact ⟨_, ofSector?_eq_ok_iff_standsIn.mpr ⟨h, standsIn_header_data s⟩⟩
  · intro s b
    exact ofSector?_eq_ok_iff_standsIn
  · intro s familyId b
    rw [ofSectorFor?_eq_ok_iff, isFor_iff]

/-- A page for a family, as the format has it: 32 bytes of header, then the data area. -/
example : (Sector.number ((Header.page 0x10000100 1 2 7).toSector [0xAB]) 12,
    Sector.number ((Header.page 0x10000100 1 2 7).toSector [0xAB]) 28,
    ((Header.page 0x10000100 1 2 7).toSector [0xAB])[32]) = (0x10000100, 7, 0xAB) := by
  decide +kernel

end Block

end Reflash
