import Reflash.Rp2040
/-! # The loader's memory

  The loader lives in the first 64 KiB of flash and in the upper part of RAM.
  Images may use the rest. Its own flash can be read and never written; the
  memory of the flash cache, where the sets of an upload lie, is no part of the
  map.
-/

namespace Reflash

namespace Loader

open Rp2040

/-- The flash that the loader keeps for itself. -/
def loaderSize : UInt32 := 64 * 1024

/-- Where the application's vector table lies. -/
def appBase : UInt32 := flashBase + loaderSize

/-- The flash that is left for applications. -/
def appSize : UInt32 := flashSize - loaderSize

/-- The RAM that images may use. -/
def imageRamSize : UInt32 := 0x30000

/-- The loader's own flash, which is only read. -/
def loaderRegion : Region := ⟨.rom, flashBase, loaderSize⟩

/-- The flash of applications. -/
def appRegion : Region := ⟨.flash, appBase, appSize⟩

/-- The RAM of images. -/
def imageRamRegion : Region := ⟨.ram, ramBase, imageRamSize⟩

/-- The map that the loader goes by. -/
def map : AddressMap := [romRegion, loaderRegion, appRegion, imageRamRegion]

/-- The configuration of the loader. -/
def config : Config :=
  { map, familyId := Header.rp2040Family, rebootDelayMs, ramStack := ramEnd }

/-- Whether an address lies in the application's flash. -/
def isAppFlash (addr : UInt32) : Bool := appRegion.contains addr

/-- Whether an address lies in RAM or at its end, as a stack pointer may. -/
def isRam (addr : UInt32) : Bool := ramBase ≤ addr && addr ≤ ramEnd

end Loader

end Reflash
