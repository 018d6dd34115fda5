import Mathlib.Data.Set.Lattice
import Mathlib.Order.Interval.Set.Basic
import Reflash.Proofs.AddressMap
/-! # Which region has a range

  A look-up compares the ends of a range with the ends of a region, as numbers that do not go
  round, and takes a range without addresses apart. What it is for is said of single addresses:
  one region has all of them. `Region.HasEach` says so of sets of numbers.

  In a table whose regions do not overlap the two are the same (`AddressMap.look_up_exact`).
  The region that is found is the only entry that has the range, so the order of the table
  makes no difference. A range that goes over from one region into the next one is not found,
  whichever kind is asked for.
-/

namespace Reflash

/-- The numbers from `start` on, `len` of them. -/
def addressesFrom (start len : UInt32) : Set Nat :=
  Set.Ico start.toNat (start.toNat + len.toNat)

theorem mem_addressesFrom {start len : UInt32} {k : Nat} :
    k ∈ addressesFrom start len ↔ start.toNat ≤ k ∧ k < start.toNat + len.toNat := Iff.rfl

theorem start_mem_addressesFrom {start len : UInt32} (hlen : len ≠ 0) :
    start.toNat ∈ addressesFrom start len := by
  have hpos : len.toNat ≠ 0 := fun h => hlen (UInt32.toNat_inj.mp h)
  exact mem_addressesFrom.mpr (by omega)

namespace Region

variable {r : Region} {a addr len : UInt32} {k : Nat}

/-- The addresses that belong to a region. -/
def addresses (r : Region) : Set Nat := addressesFrom r.base r.len

theorem mem_addresses :
    k ∈ r.addresses ↔ r.base.toNat ≤ k ∧ k < r.base.toNat + r.len.toNat := Iff.rfl

theorem contains_iff_mem : r.contains a = true ↔ a.toNat ∈ r.addresses := contains_iff

/-- A region has every address of a range, which does not go round at the top. It has to have
    the first one even if the range is empty. -/
structure HasEach (r : Region) (addr len : UInt32) : Prop where
  each : addressesFrom addr len ⊆ r.addresses
  inWords : addr.toNat + len.toNat ≤ UInt32.size
  start : len = 0 → addr.toNat ∈ r.addresses

theorem HasEach.first (h : r.HasEach addr len) : addr.toNat ∈ r.addresses := by
  by_cases hlen : len = 0
  · exact h.start hlen
  · exact h.each (start_mem_addressesFrom hlen)

/-- Where a region has each address of a range, it has the range by its ends. -/
theorem hasEach_iff_covers (hstop : r.stop ≤ UInt32.size) :
    r.HasEach addr len ↔ r.covers addr len = true := by
  rw [covers_iff_has]
  constructor
  · intro h
    have hfirst := mem_addresses.mp h.first
    apply Has.mk (contains_iff_mem.mpr h.first)
    show addr.toNat + len.toNat ≤ r.base.toNat + r.len.toNat
    by_cases hlen : len.toNat = 0
    · omega
    · -- The end of the range is one behind its last address.
      have hlast : addr.toNat + len.toNat - 1 ∈ addressesFrom addr len :=
        mem_addressesFrom.mpr (by omega)
      have hlast' := mem_addresses.mp (h.each hlast)
      omega
  · intro h
    have hfirst := contains_iff_mem.mp h.start
    have hend : addr.toNat + len.toNat ≤ r.base.toNat + r.len.toNat := h.stop
    apply HasEach.mk
    · intro k hk
      have hk' := mem_addressesFrom.mp hk
      have hbase := (mem_addresses.mp hfirst).1
      exact mem_addresses.mpr (by omega)
    · exact Nat.le_trans h.stop hstop
    · intro _
      exact hfirst

end Region

namespace AddressMap

variable {m m' : AddressMap} {kind : RegionKind} {a addr len : UInt32} {r s : Region} {k : Nat}

/-- One entry of a table is what is asked for, and no other entry is. -/
structure Sole (m : AddressMap) (P : Region → Prop) (r : Region) : Prop where
  holds : P r
  alone : ∃ before after, m = before ++ r :: after ∧ ∀ s ∈ before ++ after, ¬ P s

theorem Sole.congr {P Q : Region → Prop} (h : m.Sole P r) (hiff : ∀ s ∈ m, P s ↔ Q s) :
    m.Sole Q r := by
  obtain ⟨before, after, rfl, hothers⟩ := h.alone
  apply Sole.mk
  · exact (hiff r (by simp)).mp h.holds
  · refine ⟨before, after, rfl, ?_⟩
    intro s hs hq
    have hmem : s ∈ before ++ r :: after := by
      rcases List.mem_append.mp hs with hs | hs
      · exact List.mem_append_left _ hs
      · exact List.mem_append_right _ (List.mem_cons_of_mem _ hs)
    exact hothers s hs ((hiff s hmem).mpr hq)

/-- A search finds just the regions of a table that are what is asked for. There is one such
    entry at most, and the order of the entries makes no difference. -/
structure Exact (m : AddressMap) (P : Region → Prop) (search : AddressMap → Option Region) :
    Prop where
  isSome_iff : (search m).isSome = true ↔ ∃ r ∈ m, P r
  eq_some_iff : ∀ r, search m = some r ↔ m.Sole P r
  perm : ∀ m', m.Perm m' → search m' = search m

theorem Exact.eq_none {P : Region → Prop} {search : AddressMap → Option Region}
    (h : m.Exact P search) (hnot : ∀ r ∈ m, ¬ P r) : search m = none := by
  rw [← Option.not_isSome_iff_eq_none, h.isSome_iff]
  rintro ⟨r, hr, hP⟩
  exact hnot r hr hP

/-! ### Searches for an address

  A look-up is a search for an entry that has one address at least. In a table without
  overlaps there is no second such entry. -/

theorem Apart.perm (hm : m.Apart) (hperm : m.Perm m') : m'.Apart := by
  apply hperm.pairwise hm
  intro r s h a hboth
  exact h a hboth.symm

section search

variable {p : Region → Bool}

/-- What a search finds is the only entry that fits. -/
theorem find?_eq_some_iff_sole (hm : m.Apart) (hp : ∀ r, p r = true → r.contains a = true) :
    List.find? p m = some r ↔ m.Sole (fun s => p s = true) r := by
  rw [List.find?_eq_some_iff_append]
  constructor
  · rintro ⟨hr, before, after, rfl, hbefore⟩
    refine ⟨hr, before, after, rfl, ?_⟩
    intro s hs
    rcases List.mem_append.mp hs with hs | hs
    · simpa using hbefore s hs
    · -- An entry behind the first that fits would have the address as well.
      intro hfits
      have hbehind := (List.pairwise_cons.mp (List.pairwise_append.mp hm).2.1).1
      exact hbehind s hs a ⟨hp r hr, hp s hfits⟩
  · intro h
    obtain ⟨before, after, hsplit, hothers⟩ := h.alone
    refine ⟨h.holds, before, after, hsplit, ?_⟩
    intro s hs
    have hunfit := hothers s (List.mem_append_left _ hs)
    simpa using hunfit

theorem find?_eq_some_iff_mem (hm : m.Apart) (hp : ∀ r, p r = true → r.contains a = true) :
    List.find? p m = some r ↔ r ∈ m ∧ p r = true := by
  constructor
  · intro h
    exact ⟨List.mem_of_find?_eq_some h, List.find?_some h⟩
  · rintro ⟨hr, hfits⟩
    have hfound : (List.find? p m).isSome = true := List.find?_isSome.mpr ⟨r, hr, hfits⟩
    obtain ⟨s, hs⟩ := Option.isSome_iff_exists.mp hfound
    have hsame : s = r := hm.eq_of_contains (List.mem_of_find?_eq_some hs) hr
      (hp s (List.find?_some hs)) (hp r hfits)
    rw [hs, hsame]

/-- A search does not depend on the order of the table. -/
theorem find?_perm (hm : m.Apart) (hp : ∀ r, p r = true → r.contains a = true)
    (hperm : m.Perm m') : List.find? p m' = List.find? p m := by
  apply Option.ext
  intro r
  rw [find?_eq_some_iff_mem (hm.perm hperm) hp, find?_eq_some_iff_mem hm hp, hperm.mem_iff]

/-- Such a search is exact. -/
theorem exact_find? {P : Region → Prop} (hm : m.Apart)
    (hp : ∀ r, p r = true → r.contains a = true) (hP : ∀ r ∈ m, p r = true ↔ P r) :
    m.Exact P (List.find? p) := by
  apply Exact.mk
  · rw [List.find?_isSome]
    exact exists_congr fun r => and_congr_right (hP r)
  · intro r
    rw [find?_eq_some_iff_sole hm hp]
    constructor
    · intro h
      exact h.congr hP
    · intro h
      exact h.congr fun s hs => (hP s hs).symm
  · intro m' hperm
    exact find?_perm hm hp hperm

end search

/-! ### Ranges over several regions -/

/-- The regions of a table have all of a range that is not empty, but none of them has it
    alone. -/
structure OnlyTogether (m : AddressMap) (addr len : UInt32) : Prop where
  notEmpty : len ≠ 0
  together : addressesFrom addr len ⊆ ⋃ r ∈ m, r.addresses
  notAlone : ∀ r ∈ m, ¬ addressesFrom addr len ⊆ r.addresses

/-- A range goes over from one region of a table into another one, which starts where the
    first ends. -/
def Crosses (m : AddressMap) (addr len : UInt32) : Prop :=
  ∃ r ∈ m, ∃ s ∈ m, r.base.toNat + r.len.toNat = s.base.toNat
    ∧ (r.addresses ∩ addressesFrom addr len).Nonempty
    ∧ (s.addresses ∩ addressesFrom addr len).Nonempty

/-- No number is an address of two regions. -/
theorem Apart.eq_of_mem (hm : m.Apart) (hbounded : m.Bounded) (hr : r ∈ m) (hs : s ∈ m)
    (hkr : k ∈ r.addresses) (hks : k ∈ s.addresses) : r = s := by
  have hlt : k < UInt32.size :=
    Nat.lt_of_lt_of_le (Region.mem_addresses.mp hkr).2 (hbounded r hr)
  have hword : (UInt32.ofNat k).toNat = k := UInt32.toNat_ofNat_of_lt' hlt
  apply hm.eq_of_contains (a := UInt32.ofNat k) hr hs
  · rwa [Region.contains_iff_mem, hword]
  · rwa [Region.contains_iff_mem, hword]

/-- Where several regions are needed for a range, the range goes over from one of them into
    the next. -/
theorem OnlyTogether.crosses (h : m.OnlyTogether addr len) (hm : m.Apart)
    (hbounded : m.Bounded) : m.Crosses addr len := by
  have hstart : addr.toNat ∈ addressesFrom addr len := start_mem_addressesFrom h.notEmpty
  obtain ⟨r, hr, hfirst⟩ := Set.mem_iUnion₂.mp (h.together hstart)
  have hr' := Region.mem_addresses.mp hfirst
  -- The region of the first address ends before the range does.
  have hends : r.base.toNat + r.len.toNat < addr.toNat + len.toNat := by
    by_contra hnot
    apply h.notAlone r hr
    intro k hk
    have hk' := mem_addressesFrom.mp hk
    exact Region.mem_addresses.mpr (by omega)
  have hseam : r.base.toNat + r.len.toNat ∈ addressesFrom addr len :=
    mem_addressesFrom.mpr (by omega)
  obtain ⟨s, hs, hnext⟩ := Set.mem_iUnion₂.mp (h.together hseam)
  have hs' := Region.mem_addresses.mp hnext
  refine ⟨r, hr, s, hs, ?_, ⟨_, hfirst, hstart⟩, ⟨_, hnext, hseam⟩⟩
  -- If the other region started earlier, both would have the last address of the first.
  by_contra hne
  have hlast : r = s := by
    apply hm.eq_of_mem (k := r.base.toNat + r.len.toNat - 1) hbounded hr hs
    · exact Region.mem_addresses.mpr (by omega)
    · exact Region.mem_addresses.mpr (by omega)
  rw [← hlast] at hs'
  omega

/-- No region has a range that goes over from one into another. -/
theorem Crosses.not_hasEach (h : m.Crosses addr len) (hm : m.Apart) (hbounded : m.Bounded)
    {t : Region} (ht : t ∈ m) : ¬ t.HasEach addr len := by
  intro heach
  obtain ⟨r, hr, s, hs, hseam, ⟨j, hjr, hj⟩, ⟨k, hks, hk⟩⟩ := h
  have htr : t = r := hm.eq_of_mem hbounded ht hr (heach.each hj) hjr
  have hts : t = s := hm.eq_of_mem hbounded ht hs (heach.each hk) hks
  rw [← htr] at hseam hjr
  rw [← hts] at hseam
  have hj' := Region.mem_addresses.mp hjr
  omega

/-! ### Look-ups -/

/-- Any region of the table may be found. -/
theorem exact_lookUp (hm : m.Apart) (hbounded : m.Bounded) (addr len : UInt32) :
    m.Exact (fun r => r.HasEach addr len) (fun t => t.find? addr len) := by
  apply exact_find? (a := addr) hm
  · intro r hcovers
    exact (Region.covers_iff_has.mp hcovers).start
  · intro r hr
    exact (Region.hasEach_iff_covers (hbounded r hr)).symm

/-- Only regions of one kind may be found. -/
theorem exact_lookUpOf (hm : m.Apart) (hbounded : m.Bounded) (kind : RegionKind)
    (addr len : UInt32) :
    m.Exact (fun r => r.kind = kind ∧ r.HasEach addr len) (fun t => t.findOf? kind addr len) := by
  apply exact_find? (a := addr) hm
  · intro r hfits
    rw [Bool.and_eq_true] at hfits
    exact (Region.covers_iff_has.mp hfits.2).start
  · intro r hr
    rw [Bool.and_eq_true, decide_eq_true_iff, Region.hasEach_iff_covers (hbounded r hr)]

/-- Look-ups are exact and do not depend on the order of the table. Let no two regions overlap
    and none go beyond the last address. Then a region is found if and only if one has every
    address of the range, and it is the only entry that does; among the regions of one kind it
    is the same. A range that the regions have only together goes over from one of them into
    the next, and such a range is not found, whichever kind is asked for. -/
theorem look_up_exact (m : AddressMap) (hapart : m.Apart) (hbounded : m.Bounded)
    (addr len : UInt32) :
    m.Exact (fun r => r.HasEach addr len) (fun t => t.find? addr len)
      ∧ (∀ kind, m.Exact (fun r => r.kind = kind ∧ r.HasEach addr len)
        (fun t => t.findOf? kind addr len))
      ∧ (m.OnlyTogether addr len → m.Crosses addr len)
      ∧ (m.Crosses addr len →
        m.find? addr len = none ∧ ∀ kind, m.findOf? kind addr len = none) := by
  have hexact := exact_lookUp hapart hbounded addr len
  have hexactOf := fun kind => exact_lookUpOf hapart hbounded kind addr len
  refine ⟨hexact, hexactOf, ?_, ?_⟩
  · intro htogether
    exact htogether.crosses hapart hbounded
  · intro hcrosses
    constructor
    · apply hexact.eq_none
      intro r hr
      exact hcrosses.not_hasEach hapart hbounded hr
    · intro kind
      apply (hexactOf kind).eq_none
      intro r hr hboth
      exact hcrosses.not_hasEach hapart hbounded hr hboth.2

/-- A table with a region at the very top, an empty one inside another one, and two regions
    side by side. -/
def unevenMap : AddressMap :=
  [⟨.rom, 0xFFFFFF00, 0x100⟩, ⟨.ram, 0x1080, 0⟩, ⟨.flash, 0x1100, 0x100⟩, ⟨.ram, 0x1000, 0x100⟩]

theorem onlyTogether_uneven : unevenMap.OnlyTogether 0x10F0 0x20 := by
  apply OnlyTogether.mk
  · decide
  · intro k hk
    have hk' : 0x10F0 ≤ k ∧ k < 0x1110 := hk
    by_cases hlow : k < 0x1100
    · have hram : k ∈ Region.addresses ⟨.ram, 0x1000, 0x100⟩ :=
        ⟨Nat.le_trans (by decide) hk'.1, hlow⟩
      exact Set.mem_iUnion₂.mpr ⟨_, by decide, hram⟩
    · have hflash : k ∈ Region.addresses ⟨.flash, 0x1100, 0x100⟩ :=
        ⟨Nat.le_of_not_lt hlow, Nat.lt_trans hk'.2 (by decide)⟩
      exact Set.mem_iUnion₂.mpr ⟨_, by decide, hflash⟩
  · -- No region has both the first and the last address of the range.
    have hends : ∀ r ∈ unevenMap,
        ¬ (r.base.toNat ≤ 0x10F0 ∧ 0x110F < r.base.toNat + r.len.toNat) := by decide
    intro r hr hall
    have hfirst : 0x10F0 ∈ r.addresses := hall (mem_addressesFrom.mpr (by decide))
    have hlast : 0x110F ∈ r.addresses := hall (mem_addressesFrom.mpr (by decide))
    exact hends r hr ⟨hfirst.1, hlast.2⟩

theorem look_up_exact_uneven :
    unevenMap.Apart ∧ unevenMap.Bounded
      ∧ unevenMap.Sole (fun r => r.HasEach 0xFFFFFF00 0x100) ⟨.rom, 0xFFFFFF00, 0x100⟩
      ∧ unevenMap.Crosses 0x10F0 0x20 ∧ unevenMap.find? 0x10F0 0x20 = none
      ∧ find? unevenMap.reverse 0x1080 0 = some ⟨.ram, 0x1000, 0x100⟩ := by
  have hapart : unevenMap.Apart := apart_of_ends (by decide)
  have hbounded : unevenMap.Bounded := by decide
  obtain ⟨htop, -⟩ := look_up_exact unevenMap hapart hbounded 0xFFFFFF00 0x100
  obtain ⟨-, -, htogether, hnone⟩ := look_up_exact unevenMap hapart hbounded 0x10F0 0x20
  obtain ⟨hempty, -⟩ := look_up_exact unevenMap hapart hbounded 0x1080 0
  have hcrosses : unevenMap.Crosses 0x10F0 0x20 := htogether onlyTogether_uneven
  refine ⟨hapart, hbounded, ?_, hcrosses, (hnone hcrosses).1, ?_⟩
  · exact (htop.eq_some_iff _).mp (by decide)
  · rw [hempty.perm _ (List.reverse_perm unevenMap).symm]
    decide

end AddressMap

end Reflash
