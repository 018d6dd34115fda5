import Reflash.Word
/-! # The address map

  Memory is a table of regions, each a half-open run of addresses of one kind.
  A range of addresses is usable only when one region covers all of it: a range
  that runs from one region into the next is refused even if each of its bytes
  lies in some region.
-/

namespace Reflash

/-- What kind of memory lies behind an address. -/
inductive RegionKind where
  | ram
  | rom
  | flash
deriving DecidableEq, Inhabited

/-- The addresses from `base` on, `len` of them. -/
structure Region where
  kind : RegionKind
  base : UInt32
  len : UInt32
deriving DecidableEq, Inhabited

/-- Flash is programmed in pages of this many bytes. -/
def pageSize : UInt32 := 256

/-- Flash is erased in sectors of this many bytes. -/
def eraseSize : UInt32 := 4096

namespace Region

/-- One past the last address. It is a number and not a word, since a region
    may end at the top of the address space. -/
def stop (r : Region) : Nat := r.base.toNat + r.len.toNat

/-- Whether the region has the address. -/
def contains (r : Region) (addr : UInt32) : Bool :=
  r.base ≤ addr && addr.toNat < r.stop

/-- Whether the region has all of the `len` addresses from `addr` on. An empty
    range is covered where its first address is. -/
def covers (r : Region) (addr len : UInt32) : Bool :=
  r.base ≤ addr && addr.toNat + len.toNat ≤ r.stop && (0 < len || r.contains addr)

/-- How far into the region an address lies. -/
def offset (r : Region) (addr : UInt32) : Except Fault UInt32 := Word.minus addr r.base

/-- The number of the erase sector that an address lies in, counted from the
    region's first. -/
def sectorOf (r : Region) (addr : UInt32) : Except Fault UInt32 := do
  return (← r.offset addr) / eraseSize

/-- The first address of an erase sector. -/
def sectorStart (r : Region) (sector : UInt32) : Except Fault UInt32 := do
  Word.plus r.base (← Word.times sector eraseSize)

end Region

/-- A table of regions. Where several cover a range, the first one counts. -/
abbrev AddressMap := List Region

namespace AddressMap

/-- The region that covers a range. -/
def find? (m : AddressMap) (addr len : UInt32) : Option Region :=
  List.find? (fun r => r.covers addr len) m

/-- The region of one kind that covers a range. -/
def findOf? (m : AddressMap) (kind : RegionKind) (addr len : UInt32) : Option Region :=
  List.find? (fun r => r.kind = kind && r.covers addr len) m

end AddressMap

end Reflash
