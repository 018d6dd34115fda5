import Reflash.AddressMap
/-! # Image blocks in sectors

  A firmware image travels as a file of 512-byte sectors. A sector that holds a
  block opens with two magic words and six header words, carries 476 data bytes
  and closes with a third magic word, all words little endian:

      magic 0 · magic 1 · flags · target address · payload size ·
      block number · block count · family · 476 data bytes · magic 2

  `Block.ofSector?` reads a block and `Header.toSector` writes one. A device
  takes only blocks for its own family, for main flash or RAM, of one flash page
  each: that is `Block.ofSectorFor?`.
-/

namespace Reflash

/-- The unit in which images are stored and sent. -/
abbrev Sector := Vector UInt8 512

/-- The header of a block. -/
structure Header where
  flags : UInt32
  /-- Where the payload goes. -/
  targetAddr : UInt32
  /-- How many of the data bytes are payload. -/
  payloadSize : UInt32
  /-- The place of the block in its image, from 0. -/
  blockNo : UInt32
  /-- How many blocks the image has. -/
  numBlocks : UInt32
  /-- The family of chips that the image is for. -/
  familyId : UInt32
deriving DecidableEq, Inhabited

/-- A sector that holds a block: its header and its data area. -/
structure Block where
  header : Header
  data : Vector UInt8 476
deriving DecidableEq, Inhabited

/-- Why a sector holds no block for this device. -/
inductive Unusable where
  /-- A magic word is missing. -/
  | notBlock
  /-- A block for another family, not for main memory, or not of one page. -/
  | foreign
deriving DecidableEq, Inhabited

/-! ### Constants of the format -/

namespace Header

/-- The first word of a block. -/
def magicStart : UInt32 := 0x0A324655

/-- The second word of a block. -/
def magicSecond : UInt32 := 0x9E5D5157

/-- The last word of a block. -/
def magicEnd : UInt32 := 0x0AB16F30

/-- The flag of a block whose payload is not meant for main memory. -/
def notMainFlash : UInt32 := 0x00000001

/-- The flag of a block whose family word is a family. -/
def familyPresent : UInt32 := 0x00002000

/-- The family of the RP2040. -/
def rp2040Family : UInt32 := 0xE48BFF56

/-- The header of a page of an image. -/
def page (targetAddr blockNo numBlocks familyId : UInt32) : Header :=
  { flags := familyPresent, targetAddr, payloadSize := pageSize, blockNo, numBlocks, familyId }

end Header

/-! ### Reading -/

/-- The word at a byte offset of a sector. -/
def Sector.word (s : Sector) (off : Nat) (h : off + 3 < 512 := by decide) : UInt32 :=
  Word.ofBytes s[off] s[off + 1] s[off + 2] s[off + 3]

/-- The header words of a sector, magic or not. -/
def Sector.header (s : Sector) : Header :=
  { flags := Sector.word s 8, targetAddr := Sector.word s 12, payloadSize := Sector.word s 16
    blockNo := Sector.word s 20, numBlocks := Sector.word s 24, familyId := Sector.word s 28 }

/-- The data area of a sector. -/
def Sector.data (s : Sector) : Vector UInt8 476 :=
  Vector.ofFn fun i => s[32 + i.val]

/-- Whether the three magic words are in place. -/
def Sector.hasMagic (s : Sector) : Bool :=
  Sector.word s 0 = Header.magicStart && Sector.word s 4 = Header.magicSecond
    && Sector.word s 508 = Header.magicEnd

namespace Block

/-- The block that a sector holds. -/
def ofSector? (s : Sector) : Except Unusable Block :=
  if Sector.hasMagic s then .ok ⟨Sector.header s, Sector.data s⟩ else .error .notBlock

/-- Whether a header announces a page of main memory for a family. -/
def isFor (familyId : UInt32) (h : Header) : Bool :=
  h.flags &&& Header.familyPresent != 0 && h.familyId = familyId
    && h.flags &&& Header.notMainFlash = 0 && h.payloadSize = pageSize

/-- The block that a sector holds, if it is a page for this family. -/
def ofSectorFor? (s : Sector) (familyId : UInt32) : Except Unusable Block := do
  let b ← ofSector? s
  if isFor familyId b.header then return b else throw .foreign

/-- The payload: as many data bytes as the header says, at most all of them. -/
def payload (b : Block) : Bytes := b.data.toList.take b.header.payloadSize.toNat

end Block

/-! ### Writing -/

/-- A data area that starts with the given bytes; what does not fit is cut off
    and what is missing is zero. -/
def dataArea (bytes : Bytes) : Vector UInt8 476 :=
  ⟨(bytes.take 476 ++ List.replicate (476 - bytes.length) 0).toArray, by
    simp only [List.size_toArray, List.length_append, List.length_take, List.length_replicate]
    omega⟩

/-- The sector with this header and data area. -/
def Block.toSector (b : Block) : Sector :=
  Word.bytes Header.magicStart ++ Word.bytes Header.magicSecond ++ Word.bytes b.header.flags
    ++ Word.bytes b.header.targetAddr ++ Word.bytes b.header.payloadSize
    ++ Word.bytes b.header.blockNo ++ Word.bytes b.header.numBlocks
    ++ Word.bytes b.header.familyId ++ b.data ++ Word.bytes Header.magicEnd

/-- The sector with this header whose data area starts with the given bytes. -/
def Header.toSector (h : Header) (payload : Bytes) : Sector :=
  Block.toSector ⟨h, dataArea payload⟩

end Reflash
