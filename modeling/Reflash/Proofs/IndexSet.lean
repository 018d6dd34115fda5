import Mathlib.Data.Finset.Card
import Mathlib.Data.Finset.Range
import Mathlib.Data.Nat.Bitwise
import Reflash.IndexSet
/-! # Sets of indices as sets

  What the bits of an `IndexSet` stand for. `room` is how many bits there are;
  `contains` after `insert` and `clear` is what it is for a set of numbers, and
  `countBelow` counts the members.
-/

namespace Reflash

namespace IndexSet

/-! ### One word -/

theorem toNat_mask (i : UInt32) : (mask i).toNat = 2 ^ (i.toNat % 32) := by
  have hlt : 2 ^ (i.toNat % 32) < 2 ^ 32 :=
    Nat.pow_lt_pow_right (by decide) (Nat.mod_lt _ (by decide))
  have hmod : i.toNat % 32 % 32 = i.toNat % 32 := Nat.mod_mod _ _
  unfold mask
  rw [UInt32.toNat_shiftLeft, UInt32.toNat_mod]
  show 1 <<< (i.toNat % 32 % 32) % 2 ^ 32 = _
  rw [hmod, Nat.one_shiftLeft, Nat.mod_eq_of_lt hlt]

/-- A word meets the mask of `i` where its bit is set. -/
theorem and_mask_ne_zero (w i : UInt32) :
    (w &&& mask i != 0) = w.toNat.testBit (i.toNat % 32) := by
  have hzero : w &&& mask i = 0 ↔ w.toNat.testBit (i.toNat % 32) = false := by
    rw [← UInt32.toNat_inj, UInt32.toNat_and, toNat_mask, Nat.and_two_pow]
    cases w.toNat.testBit (i.toNat % 32) <;> simp
  cases hbit : w.toNat.testBit (i.toNat % 32) with
  | false => simp [hzero.mpr hbit]
  | true =>
    have hne : w &&& mask i ≠ 0 := fun h => by simp [hzero.mp h] at hbit
    simp [hne]

theorem or_mask_testBit (w i : UInt32) (k : Nat) :
    (w ||| mask i).toNat.testBit k = (w.toNat.testBit k || decide (i.toNat % 32 = k)) := by
  rw [UInt32.toNat_or, toNat_mask, Nat.testBit_or, Nat.testBit_two_pow]

/-! ### Membership -/

variable {s : IndexSet} {i j : UInt32}

/-- How many indices the words have room for, as a number. It is `capacity`
    unless there are too many bits to count them in a word. -/
def room (s : IndexSet) : Nat := s.words.size * 32

theorem toNat_capacity_le (s : IndexSet) : s.capacity.toNat ≤ s.room := by
  simp only [capacity, room, UInt32.toNat_ofNat']
  exact Nat.mod_le _ _

theorem toNat_capacity (h : s.room < 2 ^ 32) : s.capacity.toNat = s.room :=
  UInt32.toNat_ofNat_of_lt' h

theorem lt_room_of_lt_capacity (h : i < s.capacity) : i.toNat < s.room :=
  Nat.lt_of_lt_of_le (UInt32.lt_iff_toNat_lt.mp h) s.toNat_capacity_le

theorem word_lt_iff : (i / 32).toNat < s.words.size ↔ i.toNat < s.room := by
  have hdiv : (i / 32).toNat = i.toNat / 32 := UInt32.toNat_div _ _
  rw [hdiv, room]
  omega

theorem contains_eq_testBit (h : (i / 32).toNat < s.words.size) :
    s.contains i = (s.words[(i / 32).toNat]).toNat.testBit (i.toNat % 32) := by
  simp only [contains, Array.getElem?_eq_getElem h, and_mask_ne_zero]

theorem contains_eq_false_of_room_le (h : s.room ≤ i.toNat) : s.contains i = false := by
  have hsize : s.words.size ≤ (i / 32).toNat := by
    have := (word_lt_iff (s := s) (i := i)).not.mpr (Nat.not_lt.mpr h)
    exact Nat.not_lt.mp this
  simp only [contains, Array.getElem?_eq_none hsize]

@[simp] theorem room_clear (s : IndexSet) : s.clear.room = s.room := by simp [room]

@[simp] theorem room_insert (s : IndexSet) (i : UInt32) : (s.insert i).1.room = s.room := by
  simp [room]

/-- Nothing is in a cleared set. -/
@[simp] theorem contains_clear (s : IndexSet) (i : UInt32) : s.clear.contains i = false := by
  by_cases h : i.toNat < s.clear.room
  · have hword := word_lt_iff.mpr h
    rw [contains_eq_testBit hword]
    simp [clear, empty]
  · exact contains_eq_false_of_room_le (Nat.not_lt.mp h)

/-- Two indices are the same if they have the same word and the same bit. -/
theorem index_eq_iff : i = j ↔ (i / 32).toNat = (j / 32).toNat ∧ i.toNat % 32 = j.toNat % 32 := by
  have hi : (i / 32).toNat = i.toNat / 32 := UInt32.toNat_div _ _
  have hj : (j / 32).toNat = j.toNat / 32 := UInt32.toNat_div _ _
  rw [← UInt32.toNat_inj, hi, hj]
  omega

/-- An index beyond the words is not put in. -/
theorem insert_of_room_le (h : s.room ≤ i.toNat) : s.insert i = (s, false) := by
  have hword := word_lt_iff.not.mpr (Nat.not_lt.mpr h)
  simp only [insert, Array.getElem?_eq_none (Nat.not_lt.mp hword)]

/-- Putting `i` in adds `i`, if there is room for it, and nothing else. -/
theorem contains_insert (s : IndexSet) (i j : UInt32) :
    (s.insert i).1.contains j = (s.contains j || decide (i = j ∧ i.toNat < s.room)) := by
  by_cases hi : i.toNat < s.room
  · have hword := word_lt_iff.mpr hi
    have hins : (s.insert i).1 = ⟨s.words.setIfInBounds (i / 32).toNat
        (s.words[(i / 32).toNat] ||| mask i)⟩ := by
      simp only [insert, Array.getElem?_eq_getElem hword]
    by_cases hj : j.toNat < s.room
    · have hwordj := word_lt_iff.mpr hj
      have hwordj' : (j / 32).toNat < (s.insert i).1.words.size := by simpa using hwordj
      rw [contains_eq_testBit hwordj, contains_eq_testBit hwordj']
      simp only [hins, Array.getElem_setIfInBounds hwordj]
      -- The word of `i` got one more bit, the others are as before.
      by_cases hsame : (i / 32).toNat = (j / 32).toNat
      · simp only [hsame, if_true, or_mask_testBit, index_eq_iff, hi, true_and, and_true]
      · simp only [hsame, if_false, index_eq_iff, false_and, decide_false, Bool.or_false]
    · -- There is no room for `j`, so it is in neither of the two sets.
      have hne : i ≠ j := fun h => hj (h ▸ hi)
      have hj' : (s.insert i).1.room ≤ j.toNat := by simpa using hj
      simp [contains_eq_false_of_room_le hj', contains_eq_false_of_room_le (Nat.not_lt.mp hj), hne]
  · simp [insert_of_room_le (Nat.le_of_not_lt hi), hi]

/-- An index is new if there is room for it and it was not in. -/
theorem insert_isNew (s : IndexSet) (i : UInt32) :
    (s.insert i).2 = (decide (i.toNat < s.room) && !s.contains i) := by
  by_cases hi : i.toNat < s.room
  · have hword := word_lt_iff.mpr hi
    have hbit := and_mask_ne_zero (s.words[(i / 32).toNat]) i
    simp only [contains_eq_testBit hword, insert, Array.getElem?_eq_getElem hword, hi, ← hbit,
      bne, Bool.not_not, decide_true, Bool.true_and]
  · simp only [insert_of_room_le (Nat.le_of_not_lt hi), hi, decide_false, Bool.false_and]

/-! ### Counting -/

/-- The members below `n`. -/
def membersBelow (s : IndexSet) (n : Nat) : Finset Nat :=
  (Finset.range n).filter fun k => s.contains (UInt32.ofNat k)

/-- How many members there are below `n`. -/
def countBelow (s : IndexSet) (n : Nat) : Nat := (s.membersBelow n).card

@[simp] theorem countBelow_clear (s : IndexSet) (n : Nat) : s.clear.countBelow n = 0 := by
  simp [countBelow, membersBelow]

theorem countBelow_le (s : IndexSet) (n : Nat) : s.countBelow n ≤ n := by
  have h := Finset.card_filter_le (Finset.range n) fun k => s.contains (UInt32.ofNat k) = true
  simpa [countBelow, membersBelow] using h

/-- All numbers below `n` are members if there are so many members. -/
theorem countBelow_eq_iff {n : Nat} :
    s.countBelow n = n ↔ ∀ k < n, s.contains (UInt32.ofNat k) = true := by
  have h := Finset.card_filter_eq_iff (s := Finset.range n)
    (p := fun k => s.contains (UInt32.ofNat k) = true)
  simpa [countBelow, membersBelow] using h

/-- A new member below `n` counts once. -/
theorem countBelow_insert {n : Nat} (hn : n ≤ UInt32.size) (hi : i.toNat < n)
    (hroom : i.toNat < s.room) (hnew : s.contains i = false) :
    (s.insert i).1.countBelow n = s.countBelow n + 1 := by
  -- The members are those from before and the new one.
  have hmem : (s.insert i).1.membersBelow n = Insert.insert i.toNat (s.membersBelow n) := by
    ext k
    simp only [membersBelow, Finset.mem_filter, Finset.mem_range, Finset.mem_insert,
      contains_insert, Bool.or_eq_true, decide_eq_true_eq]
    constructor
    · rintro ⟨hk, hold | ⟨rfl, -⟩⟩
      · exact .inr ⟨hk, hold⟩
      · left
        rw [UInt32.toNat_ofNat', Nat.mod_eq_of_lt (Nat.lt_of_lt_of_le hk hn)]
    · rintro (rfl | ⟨hk, hold⟩)
      · exact ⟨hi, .inr ⟨(UInt32.ofNat_toNat).symm, hroom⟩⟩
      · exact ⟨hk, .inl hold⟩
  have hnot : i.toNat ∉ s.membersBelow n := by simp [membersBelow, hnew]
  rw [countBelow, hmem, Finset.card_insert_of_notMem hnot, countBelow]

/-- A member counts nothing when it is put in again. -/
theorem insert_of_contains (h : s.contains i = true) (j : UInt32) :
    (s.insert i).1.contains j = s.contains j := by
  by_cases hij : i = j
  · subst hij; simp [contains_insert, h]
  · simp [contains_insert, hij]

theorem countBelow_congr {t : IndexSet} (h : ∀ j, s.contains j = t.contains j) (n : Nat) :
    s.countBelow n = t.countBelow n := by
  simp only [countBelow, membersBelow, h]

end IndexSet

end Reflash
