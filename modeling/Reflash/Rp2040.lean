import Reflash.Upload
/-! # The RP2040

  The memory map of the chip, and the sizes that follow from it. The sets of an
  upload to flash need one bit for each page and one for each erase sector; they
  share the 16 KiB that otherwise serve as the cache of flash.
-/

namespace Reflash

namespace Rp2040

/-! ### Memory map -/

/-- Where ROM begins. -/
def romBase : UInt32 := 0x00000000

/-- The size of ROM. -/
def romSize : UInt32 := 16 * 1024

/-- Where the window onto flash begins. -/
def flashBase : UInt32 := 0x10000000

/-- The size of the window onto flash; the part may be smaller. -/
def flashSize : UInt32 := 16 * 1024 * 1024

/-- Where the memory of the flash cache lies when the cache is off. -/
def cacheBase : UInt32 := 0x15000000

/-- The size of the cache's memory. -/
def cacheSize : UInt32 := 16 * 1024

/-- Where RAM begins. -/
def ramBase : UInt32 := 0x20000000

/-- The size of RAM. -/
def ramSize : UInt32 := 264 * 1024

/-- One past the last address of RAM. -/
def ramEnd : UInt32 := ramBase + ramSize

/-- All of ROM. -/
def romRegion : Region := ⟨.rom, romBase, romSize⟩

/-- The whole window onto flash. -/
def flashRegion : Region := ⟨.flash, flashBase, flashSize⟩

/-- The cache's memory, which serves as RAM when the cache is off. -/
def cacheRegion : Region := ⟨.ram, cacheBase, cacheSize⟩

/-- All of RAM. -/
def ramRegion : Region := ⟨.ram, ramBase, ramSize⟩

/-- The map of the whole chip. -/
def map : AddressMap := [romRegion, flashRegion, cacheRegion, ramRegion]

/-! ### Configuration -/

/-- How long after the last block of an image the device reboots. -/
def rebootDelayMs : UInt32 := 1000

/-- A device that may use the whole chip. -/
def config : Config :=
  { map, familyId := Header.rp2040Family, rebootDelayMs, ramStack := ramEnd }

/-! ### Sizes of the sets of an upload -/

/-- The most blocks of an image in RAM: all of RAM and of the cache's memory. -/
def maxRamBlocks : UInt32 := 1280

/-- The words of a set of so many blocks. -/
def ramBlockWords : Nat := (maxRamBlocks.toNat + 31) / 32

/-- The most blocks of an image in flash: with one bit for each page and one for
    each erase sector, as many as the cache's memory has room for, in whole
    words. -/
def maxFlashBlocks : UInt32 :=
  UInt32.ofNat (cacheSize.toNat * 8 * eraseSize.toNat / (pageSize + eraseSize).toNat) &&& ~~~31

/-- The erase sectors that so many blocks fill. -/
def maxErasedSectors : UInt32 :=
  UInt32.ofNat (maxFlashBlocks.toNat * pageSize.toNat / eraseSize.toNat)

/-- The words of the set of blocks of an image in flash. -/
def flashBlockWords : Nat := maxFlashBlocks.toNat / 32

/-- The words of the set of erased sectors. -/
def erasedSectorWords : Nat := (maxErasedSectors.toNat + 31) / 32

/-- No upload, over sets of these sizes. -/
def freshUpload : Upload := Upload.fresh ramBlockWords flashBlockWords erasedSectorWords

end Rp2040

end Reflash
