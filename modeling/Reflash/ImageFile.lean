import Reflash.Sector
import Reflash.Text
/-! # Image files

  An image file is a run of sectors. `pack` makes one from the raw bytes of an
  image: it cuts them into pages, fills the last page up as erased flash reads,
  and gives each page its address, its number and the number of pages.
  `sectors?` cuts a file into sectors and `summarize` says what is in them.
-/

namespace Reflash

/-- Cut a list into pieces of `n` elements; the last piece may be shorter. -/
def pieces {α : Type} (n : Nat) : List α → List (List α)
  | [] => []
  | a :: rest => (a :: rest.take (n - 1)) :: pieces n (rest.drop (n - 1))
termination_by xs => xs.length
decreasing_by simp only [List.length_drop, List.length_cons]; omega

/-- The sector with the given bytes, if they are as many as a sector has. -/
def Sector.ofBytes? (bytes : Bytes) : Option Sector :=
  if h : bytes.toArray.size = 512 then some ⟨bytes.toArray, h⟩ else none

namespace ImageFile

/-! ### Packing -/

/-- Why an image cannot be packed. -/
inductive PackError where
  | empty
  /-- The address is not that of a page. -/
  | misaligned (base : UInt32)
  /-- The image ends beyond the address space. -/
  | tooLong (base : UInt32)
  /-- An address or a number of a block is no word. -/
  | fault (f : Fault)
deriving DecidableEq, Inhabited

/-- The text of an error of packing. -/
def PackError.message : PackError → String
  | .empty => "Input image is empty"
  | .misaligned base => "Base address 0x" ++ Hex.word base ++ " is not 256-byte aligned"
  | .tooLong base => "Image does not fit above 0x" ++ Hex.word base
  | .fault f => f.message

/-- What a byte of erased flash reads as. -/
def erasedByte : UInt8 := 0xFF

/-- A page filled up with erased bytes. -/
def fillPage (bytes : Bytes) : Bytes :=
  bytes ++ List.replicate (pageSize.toNat - bytes.length) erasedByte

/-- The sector for one page of an image of `numBlocks` pages. -/
def pageSector (base familyId numBlocks : UInt32) (page : Bytes × Nat) :
    Except Fault Sector := do
  let blockNo := UInt32.ofNat page.2
  let addr ← Word.plus base (← Word.times blockNo pageSize)
  return (Header.page addr blockNo numBlocks familyId).toSector (fillPage page.1)

/-- The sectors of the file for an image that starts at `base`. -/
def pack (image : Bytes) (base familyId : UInt32) : Except PackError (List Sector) :=
  if image.isEmpty then .error .empty
  else if base % pageSize != 0 then .error (.misaligned base)
  else if UInt32.size < base.toNat + image.length then .error (.tooLong base)
  else
    let pages := pieces pageSize.toNat image
    (pages.zipIdx.mapM (pageSector base familyId (UInt32.ofNat pages.length))).mapError .fault

/-- The bytes of a file. -/
def toBytes (sectors : List Sector) : Bytes := sectors.flatMap fun s => s.toList

/-! ### Inspecting -/

/-- The complaint about a file that is not a run of sectors. -/
def badSizeText (size : Nat) : String :=
  "UF2 file size " ++ toString size ++ " is not a non-zero multiple of 512"

/-- The sectors of a file, which must be one at least and whole. -/
def sectors? (file : Bytes) : Option (List Sector) :=
  if file.isEmpty || file.length % 512 != 0 then none
  else some ((pieces 512 file).filterMap Sector.ofBytes?)

/-- What is in a file. -/
structure Summary where
  /-- How many sectors hold a block. -/
  blockCount : UInt32
  /-- How many sectors hold none. -/
  otherCount : UInt32
  /-- How many blocks are for the family that was asked for. -/
  matchingCount : UInt32
  /-- How many blocks the first matching one announces. -/
  numBlocks : Option UInt32
  /-- The lowest address of a matching block. -/
  lowest : Option UInt32
  /-- The highest end of a matching block. -/
  stop : Option UInt32
deriving DecidableEq, Inhabited

namespace Summary

/-- The summary of nothing. -/
def none : Summary :=
  { blockCount := 0, otherCount := 0, matchingCount := 0
    numBlocks := .none, lowest := .none, stop := .none }

/-- The sectors that hold a block, as a number to be shown. -/
def blocks (s : Summary) : Nat := s.blockCount.toNat

/-- The other sectors, as a number to be shown. -/
def other (s : Summary) : Nat := s.otherCount.toNat

/-- The blocks for the family that was asked for, as a number to be shown. -/
def matching (s : Summary) : Nat := s.matchingCount.toNat

/-- The smaller of a value and one that may be missing. -/
def lower (old : Option UInt32) (new : UInt32) : UInt32 := (old.map (min · new)).getD new

/-- The larger of a value and one that may be missing. -/
def higher (old : Option UInt32) (new : UInt32) : UInt32 := (old.map (max · new)).getD new

/-- Take in a matching block. -/
def addBlock (s : Summary) (h : Header) : Summary :=
  { s with
    blockCount := s.blockCount + 1, matchingCount := s.matchingCount + 1
    numBlocks := some (s.numBlocks.getD h.numBlocks)
    lowest := some (lower s.lowest h.targetAddr)
    stop := some (higher s.stop (Word.plusCapped h.targetAddr h.payloadSize)) }

/-- Take in a sector. -/
def add (familyId : UInt32) (s : Summary) (sector : Sector) : Summary :=
  match Block.ofSectorFor? sector familyId with
  | .ok block => s.addBlock block.header
  | .error .foreign => { s with blockCount := s.blockCount + 1 }
  | .error .notBlock => { s with otherCount := s.otherCount + 1 }

end Summary

/-- What is in some sectors, for a family. -/
def summarize (sectors : List Sector) (familyId : UInt32) : Summary :=
  sectors.foldl (Summary.add familyId) Summary.none

end ImageFile

end Reflash
