import Mathlib.Data.List.Pairwise
import Reflash.AddressMap
/-! # Looking addresses up

  What a look-up in a table of regions says about the addresses of a range, and
  where the erase sectors of a region of flash lie. Addresses are compared as
  numbers, which do not go round.
-/

namespace Reflash

/-! ### Sizes as numbers -/

@[simp] theorem toNat_pageSize : pageSize.toNat = 256 := rfl

@[simp] theorem toNat_eraseSize : eraseSize.toNat = 4096 := rfl

namespace Region

variable {r s : Region} {a addr len : UInt32}

/-! ### Covered ranges -/

theorem contains_iff :
    r.contains a = true ↔ r.base.toNat ≤ a.toNat ∧ a.toNat < r.base.toNat + r.len.toNat := by
  simp only [contains, Bool.and_eq_true, decide_eq_true_eq, UInt32.le_iff_toNat_le]
  rfl

/-- A range that is not empty is covered from its first address to its last. -/
theorem covers_iff (hlen : 0 < len.toNat) :
    r.covers addr len = true ↔
      r.base.toNat ≤ addr.toNat ∧ addr.toNat + len.toNat ≤ r.base.toNat + r.len.toNat := by
  have hpos : 0 < len := UInt32.lt_iff_toNat_lt.mpr hlen
  simp only [covers, hpos, Bool.and_eq_true, decide_eq_true_eq, UInt32.le_iff_toNat_le,
    decide_true, Bool.true_or, and_true]
  rfl

theorem base_le_of_covers (h : r.covers addr len = true) : r.base ≤ addr := by
  simp only [covers, Bool.and_eq_true, decide_eq_true_eq] at h
  exact h.1.1

theorem contains_of_covers (hlen : 0 < len.toNat) (h : r.covers addr len = true)
    (hlow : addr.toNat ≤ a.toNat) (hhigh : a.toNat < addr.toNat + len.toNat) :
    r.contains a = true := by
  have hcov := (covers_iff hlen).mp h
  exact contains_iff.mpr (by omega)

/-- The region has all of the `len` addresses from `addr` on. It has to have the first one
    even if there are none. -/
structure Has (r : Region) (addr : UInt32) (len : Nat) : Prop where
  start : r.contains addr = true
  stop : addr.toNat + len ≤ r.stop

instance (r : Region) (addr : UInt32) (len : Nat) : Decidable (r.Has addr len) :=
  decidable_of_iff (r.contains addr = true ∧ addr.toNat + len ≤ r.stop)
    ⟨fun h => ⟨h.1, h.2⟩, fun h => ⟨h.start, h.stop⟩⟩

/-- A range is covered by the region that has it. -/
theorem covers_iff_has : r.covers addr len = true ↔ r.Has addr len.toNat := by
  have hcontains : r.contains addr = true ↔ r.base ≤ addr ∧ addr.toNat < r.stop := by
    simp only [contains, Bool.and_eq_true, decide_eq_true_eq]
  constructor
  · intro h
    simp only [covers, Bool.and_eq_true, Bool.or_eq_true, decide_eq_true_eq] at h
    obtain ⟨⟨hbase, hstop⟩, hpos | hstart⟩ := h
    · have hpos' := UInt32.lt_iff_toNat_lt.mp hpos
      exact ⟨hcontains.mpr ⟨hbase, by rw [UInt32.toNat_zero] at hpos'; omega⟩, hstop⟩
    · exact ⟨hstart, hstop⟩
  · intro h
    simp only [covers, Bool.and_eq_true, Bool.or_eq_true, decide_eq_true_eq]
    exact ⟨⟨(hcontains.mp h.start).1, h.stop⟩, .inr h.start⟩

/-- A region that has a range has each of its addresses. -/
theorem Has.contains {n : Nat} (h : r.Has addr n) (hlow : addr.toNat ≤ a.toNat)
    (hhigh : a.toNat < addr.toNat + n) : r.contains a = true := by
  have hbase := (contains_iff.mp h.start).1
  have hstop : addr.toNat + n ≤ r.base.toNat + r.len.toNat := h.stop
  exact contains_iff.mpr ⟨by omega, by omega⟩

/-! ### Erase sectors -/

/-- The number of the erase sector of an address that the region has. -/
def sectorNo (r : Region) (addr : UInt32) : UInt32 := (addr - r.base) / eraseSize

/-- The first address of that sector. -/
def sectorBase (r : Region) (addr : UInt32) : UInt32 := r.base + r.sectorNo addr * eraseSize

theorem toNat_sectorNo (h : r.base ≤ addr) :
    (r.sectorNo addr).toNat = (addr.toNat - r.base.toNat) / 4096 := by
  unfold sectorNo
  rw [UInt32.toNat_div, UInt32.toNat_sub_of_le _ _ h, toNat_eraseSize]

/-- An address behind the start of a region has a sector number. -/
theorem sectorOf_eq_ok (h : r.base ≤ addr) : r.sectorOf addr = .ok (r.sectorNo addr) := by
  unfold sectorOf
  rw [offset, Word.minus_eq_ok h]
  rfl

theorem sectorStart_lt (h : r.base ≤ addr) :
    r.base.toNat + (r.sectorNo addr).toNat * 4096 < UInt32.size := by
  have hle := UInt32.le_iff_toNat_le.mp h
  have haddr := addr.toNat_lt_size
  rw [toNat_sectorNo h]
  omega

/-- The sector of an address that the region has starts at an address. -/
theorem sectorStart_eq_ok (h : r.base ≤ addr) :
    r.sectorStart (r.sectorNo addr) = .ok (r.sectorBase addr) := by
  have hlt := sectorStart_lt h
  have hmul : (r.sectorNo addr).toNat * eraseSize.toNat < UInt32.size := by
    rw [toNat_eraseSize]; omega
  have hnat : (r.sectorNo addr * eraseSize).toNat = (r.sectorNo addr).toNat * 4096 := by
    rw [UInt32.toNat_mul, toNat_eraseSize]
    exact Nat.mod_eq_of_lt (by simpa using hmul)
  unfold sectorStart
  rw [Word.times_eq_ok hmul]
  show Word.plus r.base (r.sectorNo addr * eraseSize) = _
  rw [Word.plus_eq_ok (by rw [hnat]; exact hlt), sectorBase]

/-- Flash is made of whole erase sectors. -/
structure Aligned (r : Region) : Prop where
  base : r.base.toNat % 4096 = 0
  len : r.len.toNat % 4096 = 0

theorem toNat_sectorBase (ha : r.Aligned) (h : r.base ≤ addr) :
    (r.sectorBase addr).toNat = addr.toNat / 4096 * 4096 := by
  have hlt := sectorStart_lt h
  have hle := UInt32.le_iff_toNat_le.mp h
  have hbase := ha.base
  have hno := toNat_sectorNo h
  have hmul : (r.sectorNo addr * eraseSize).toNat = (r.sectorNo addr).toNat * 4096 := by
    rw [UInt32.toNat_mul, toNat_eraseSize]
    exact Nat.mod_eq_of_lt (Nat.lt_of_le_of_lt (Nat.le_add_left _ _) hlt)
  unfold sectorBase
  rw [UInt32.toNat_add, hmul, Nat.mod_eq_of_lt hlt, hno]
  omega

/-- Two addresses of an aligned region have the same sector number if they lie
    between the same two multiples of the size of a sector. -/
theorem sectorNo_eq_iff (ha : r.Aligned) (h : r.base ≤ addr) (h' : r.base ≤ a) :
    r.sectorNo addr = r.sectorNo a ↔ addr.toNat / 4096 = a.toNat / 4096 := by
  have hle := UInt32.le_iff_toNat_le.mp h
  have hle' := UInt32.le_iff_toNat_le.mp h'
  have hbase := ha.base
  rw [← UInt32.toNat_inj, toNat_sectorNo h, toNat_sectorNo h']
  omega

/-- An aligned region that has an address has all of its sector. -/
theorem covers_sector (ha : r.Aligned) (h : r.contains addr = true) :
    r.covers (r.sectorBase addr) eraseSize = true := by
  obtain ⟨hlow, hhigh⟩ := contains_iff.mp h
  have hbase := ha.base
  have hlen := ha.len
  have hle : r.base ≤ addr := UInt32.le_iff_toNat_le.mpr hlow
  rw [covers_iff (by decide), toNat_sectorBase ha hle, toNat_eraseSize]
  omega

theorem base_le_sectorBase (ha : r.Aligned) (h : r.base ≤ addr) : r.base ≤ r.sectorBase addr := by
  have hle := UInt32.le_iff_toNat_le.mp h
  have hbase := ha.base
  rw [UInt32.le_iff_toNat_le, toNat_sectorBase ha h]
  omega

theorem sectorNo_sectorBase (ha : r.Aligned) (h : r.base ≤ addr) :
    r.sectorNo (r.sectorBase addr) = r.sectorNo addr := by
  rw [sectorNo_eq_iff ha (base_le_sectorBase ha h) h, toNat_sectorBase ha h]
  omega

end Region

namespace AddressMap

variable {m : AddressMap} {kind : RegionKind} {a addr len : UInt32} {r s : Region}

theorem mem_of_findOf? (h : m.findOf? kind addr len = some r) : r ∈ m := List.mem_of_find?_eq_some h

theorem kind_of_findOf? (h : m.findOf? kind addr len = some r) : r.kind = kind := by
  have hprop := List.find?_some h
  simp only [Bool.and_eq_true, decide_eq_true_eq] at hprop
  exact hprop.1

theorem covers_of_findOf? (h : m.findOf? kind addr len = some r) : r.covers addr len = true := by
  have hprop := List.find?_some h
  simp only [Bool.and_eq_true, decide_eq_true_eq] at hprop
  exact hprop.2

theorem base_le_of_findOf? (h : m.findOf? kind addr len = some r) : r.base ≤ addr :=
  Region.base_le_of_covers (covers_of_findOf? h)

/-- A region that a page lies in has the first address of the page. -/
theorem contains_of_findOf? (h : m.findOf? kind addr pageSize = some r) : r.contains addr = true :=
  Region.contains_of_covers (by decide) (covers_of_findOf? h) (Nat.le_refl _) (by simp)

theorem findOf?_isSome_iff :
    (m.findOf? kind addr len).isSome = true ↔
      ∃ r ∈ m, r.kind = kind ∧ r.covers addr len = true := by
  simp [findOf?, List.find?_isSome]

/-! ### Ranges in one region -/

/-- One region of a kind has all of a range. -/
def HasIn (m : AddressMap) (kind : RegionKind) (addr : UInt32) (len : Nat) : Prop :=
  ∃ r ∈ m, r.kind = kind ∧ r.Has addr len

/-- One region has all of a range. -/
def Has (m : AddressMap) (addr : UInt32) (len : Nat) : Prop := ∃ r ∈ m, r.Has addr len

instance (m : AddressMap) (kind : RegionKind) (addr : UInt32) (len : Nat) :
    Decidable (m.HasIn kind addr len) :=
  inferInstanceAs (Decidable (∃ r ∈ m, r.kind = kind ∧ r.Has addr len))

instance (m : AddressMap) (addr : UInt32) (len : Nat) : Decidable (m.Has addr len) :=
  inferInstanceAs (Decidable (∃ r ∈ m, r.Has addr len))

theorem HasIn.has {n : Nat} (h : m.HasIn kind addr n) : m.Has addr n := by
  obtain ⟨r, hr, -, hrange⟩ := h
  exact ⟨r, hr, hrange⟩

theorem isSome_findOf? :
    (m.findOf? kind addr len).isSome = true ↔ m.HasIn kind addr len.toNat := by
  simp only [findOf?_isSome_iff, HasIn, Region.covers_iff_has]

theorem isSome_find? : (m.find? addr len).isSome = true ↔ m.Has addr len.toNat := by
  simp only [find?, List.find?_isSome, Has, Region.covers_iff_has]

/-- No region goes beyond the last address. -/
def Bounded (m : AddressMap) : Prop := ∀ r ∈ m, r.stop ≤ UInt32.size

instance (m : AddressMap) : Decidable m.Bounded :=
  inferInstanceAs (Decidable (∀ r ∈ m, r.stop ≤ UInt32.size))

/-- A range in one region does not go round at the top. -/
theorem Bounded.of_has {n : Nat} (hm : m.Bounded) (h : m.Has addr n) :
    addr.toNat + n ≤ UInt32.size := by
  obtain ⟨r, hr, hrange⟩ := h
  exact Nat.le_trans hrange.stop (hm r hr)

/-! ### Tables without overlaps -/

/-- No address belongs to two regions of a table. -/
def Apart (m : AddressMap) : Prop :=
  m.Pairwise fun r s => ∀ a, ¬ (r.contains a = true ∧ s.contains a = true)

/-- Regions do not overlap if one ends before the other starts, or one of them is empty. -/
theorem apart_of_ends (h : m.Pairwise fun r s =>
    r.stop ≤ s.base.toNat ∨ s.stop ≤ r.base.toNat ∨ r.len = 0 ∨ s.len = 0) : m.Apart := by
  apply h.imp
  rintro r s hends a ⟨hr, hs⟩
  have hr' := Region.contains_iff.mp hr
  have hs' := Region.contains_iff.mp hs
  simp only [Region.stop, ← UInt32.toNat_inj, UInt32.toNat_zero] at hends
  omega

namespace Apart

theorem eq_of_contains (hm : m.Apart) (hr : r ∈ m) (hs : s ∈ m) (hra : r.contains a = true)
    (hsa : s.contains a = true) : r = s := by
  by_contra hne
  have hsymm : Std.Symm fun r s : Region =>
      ∀ a, ¬ (r.contains a = true ∧ s.contains a = true) :=
    ⟨fun _ _ h a both => h a both.symm⟩
  exact hm.forall hr hs hne a ⟨hra, hsa⟩

/-- A page that lies in RAM does not lie in flash. -/
theorem findOf?_flash_eq_none (hm : m.Apart)
    (hram : (m.findOf? .ram addr pageSize).isSome = true) :
    m.findOf? .flash addr pageSize = none := by
  rw [← Option.not_isSome_iff_eq_none]
  intro hflash
  obtain ⟨r, hr, hrk, hrc⟩ := findOf?_isSome_iff.mp hram
  obtain ⟨s, hs, hsk, hsc⟩ := findOf?_isSome_iff.mp hflash
  have hra := Region.contains_of_covers (a := addr) (by decide) hrc (by omega) (by simp)
  have hsa := Region.contains_of_covers (a := addr) (by decide) hsc (by omega) (by simp)
  have := hm.eq_of_contains hr hs hra hsa
  subst this
  simp [hrk] at hsk

end Apart

/-- A table whose regions do not overlap and which has one region of flash at
    most, made of whole erase sectors. -/
structure WellFormed (m : AddressMap) : Prop where
  apart : m.Pairwise fun r s => ∀ a, ¬ (r.contains a = true ∧ s.contains a = true)
  oneFlash : ∀ r ∈ m, ∀ s ∈ m, r.kind = .flash → s.kind = .flash → r = s
  flashAligned : ∀ r ∈ m, r.kind = .flash → r.Aligned

namespace WellFormed

theorem eq_of_contains (hm : m.WellFormed) (hr : r ∈ m) (hs : s ∈ m)
    (hra : r.contains a = true) (hsa : s.contains a = true) : r = s :=
  Apart.eq_of_contains hm.apart hr hs hra hsa

/-- A page that lies in RAM does not lie in flash. -/
theorem findOf?_flash_eq_none (hm : m.WellFormed)
    (hram : (m.findOf? .ram addr pageSize).isSome = true) :
    m.findOf? .flash addr pageSize = none :=
  Apart.findOf?_flash_eq_none hm.apart hram

/-- Whatever lies in flash lies in the same region. -/
theorem eq_of_findOf? {addr' len' : UInt32} (hm : m.WellFormed)
    (h : m.findOf? .flash addr len = some r) (h' : m.findOf? .flash addr' len' = some s) : r = s :=
  hm.oneFlash r (mem_of_findOf? h) s (mem_of_findOf? h') (kind_of_findOf? h) (kind_of_findOf? h')

theorem aligned_of_findOf? (hm : m.WellFormed) (h : m.findOf? .flash addr len = some r) :
    r.Aligned := hm.flashAligned r (mem_of_findOf? h) (kind_of_findOf? h)

/-- The sector of a page of flash lies in the region that the page lies in. -/
theorem findOf?_sectorBase (hm : m.WellFormed) (h : m.findOf? .flash addr pageSize = some r) :
    m.findOf? .flash (r.sectorBase addr) eraseSize = some r := by
  have hcovers := Region.covers_sector (hm.aligned_of_findOf? h) (contains_of_findOf? h)
  have hfound : (m.findOf? .flash (r.sectorBase addr) eraseSize).isSome = true :=
    findOf?_isSome_iff.mpr ⟨r, mem_of_findOf? h, kind_of_findOf? h, hcovers⟩
  obtain ⟨s, hs⟩ := Option.isSome_iff_exists.mp hfound
  rw [hs, hm.eq_of_findOf? hs h]

end WellFormed

end AddressMap

end Reflash
