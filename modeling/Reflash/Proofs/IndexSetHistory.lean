import Mathlib.Data.List.DropRight
import Reflash.Proofs.IndexSet
/-! # Sets of indices over their history

  The bits that are set in the words of an `IndexSet` are a finite set, `bits`. What is in it
  follows from what was done. An index is in the set if it was in at first or has been put in,
  and nothing was cleared after that. There are as many bits as insertions have reported a new
  index since the set was cleared, and those from the start if it never was.

  A `History` follows a set through any number of changes and takes down what each call
  answers. `bits_follow_history` is the result for all of them, whatever the words hold at
  first.
-/

namespace Reflash

namespace IndexSet

variable {s : IndexSet} {i j : UInt32} {k : Nat}

/-! ### Bits -/

/-- The places of the bits that are set, counted over all words. -/
def bits (s : IndexSet) : Finset Nat :=
  (Finset.range s.room).filter fun k => (s.words.getD (k / 32) 0).toNat.testBit (k % 32)

theorem lt_room_of_mem_bits (h : k ∈ s.bits) : k < s.room :=
  Finset.mem_range.mp (Finset.mem_filter.mp h).1

theorem contains_iff_mem_bits : s.contains i = true ↔ i.toNat ∈ s.bits := by
  have hdiv : (i / 32).toNat = i.toNat / 32 := UInt32.toNat_div _ _
  by_cases hroom : i.toNat < s.room
  · have hword := word_lt_iff.mpr hroom
    have hget : s.words.getD (i.toNat / 32) 0 = s.words[(i / 32).toNat] := by
      rw [← hdiv, Array.getD_eq_getD_getElem?, Array.getElem?_eq_getElem hword, Option.getD_some]
    rw [contains_eq_testBit hword, bits, Finset.mem_filter, Finset.mem_range, hget]
    exact (and_iff_right hroom).symm
  · rw [contains_eq_false_of_room_le (Nat.le_of_not_lt hroom)]
    exact iff_of_false Bool.false_ne_true fun h => hroom (lt_room_of_mem_bits h)

example : bits ⟨#[1, 2]⟩ = {0, 33} ∧ contains ⟨#[1, 2]⟩ 33 = true := by decide

/-- A bit that has a place among the words has an index. -/
theorem mem_bits_iff (hroom : s.room ≤ UInt32.size) :
    k ∈ s.bits ↔ k < s.room ∧ s.contains (UInt32.ofNat k) = true := by
  constructor
  · intro h
    have hk := lt_room_of_mem_bits h
    rw [contains_iff_mem_bits, UInt32.toNat_ofNat_of_lt' (Nat.lt_of_lt_of_le hk hroom)]
    exact ⟨hk, h⟩
  · rintro ⟨hk, h⟩
    rwa [contains_iff_mem_bits, UInt32.toNat_ofNat_of_lt' (Nat.lt_of_lt_of_le hk hroom)] at h

/-- The bits are as many as the members that `countBelow` counts. -/
theorem card_bits (hroom : s.room ≤ UInt32.size) : s.bits.card = s.countBelow s.room := by
  have hsame : s.bits = s.membersBelow s.room := by
    ext k
    rw [mem_bits_iff hroom, membersBelow, Finset.mem_filter, Finset.mem_range]
  rw [hsame, countBelow]

/-- So few words have no more bits than a word can count. -/
theorem room_lt_size (hsize : s.words.size < 2 ^ 27) : s.room < UInt32.size := by
  have hnumber : UInt32.size = 2 ^ 27 * 32 := rfl
  rw [room, hnumber]
  omega

theorem lt_capacity_iff (hroom : s.room < UInt32.size) : i < s.capacity ↔ i.toNat < s.room := by
  rw [UInt32.lt_iff_toNat_lt, toNat_capacity hroom]

/-! ### One change -/

/-- An index that is not new changes no member. -/
theorem contains_insert_of_not_new (h : (s.insert i).2 = false) (j : UInt32) :
    (s.insert i).1.contains j = s.contains j := by
  rw [insert_isNew, Bool.and_eq_false_iff, decide_eq_false_iff_not,
    Bool.not_eq_false_eq_eq_true] at h
  rcases h with hroom | hcontains
  · rw [insert_of_room_le (Nat.le_of_not_lt hroom)]
  · exact insert_of_contains hcontains j

/-- Putting an index in touches no bit but its own. -/
theorem mem_bits_insert_of_ne (hroom : s.room < UInt32.size) (hk : k ≠ i.toNat) :
    k ∈ (s.insert i).1.bits ↔ k ∈ s.bits := by
  have hroom' : (s.insert i).1.room ≤ UInt32.size := (room_insert s i).trans_le hroom.le
  rw [mem_bits_iff hroom', mem_bits_iff hroom.le, room_insert]
  apply and_congr_right
  intro hlt
  -- The bit belongs to another index, which an insertion leaves as it is.
  have hne : i ≠ UInt32.ofNat k := by
    intro heq
    rw [heq, UInt32.toNat_ofNat_of_lt' (Nat.lt_trans hlt hroom)] at hk
    exact hk rfl
  simp [contains_insert, hne]

/-- There is one bit more if the index is reported as new, and as many as before if not. -/
theorem card_bits_insert (hroom : s.room < UInt32.size) :
    (s.insert i).1.bits.card = s.bits.card + if (s.insert i).2 then 1 else 0 := by
  have hroom' : (s.insert i).1.room ≤ UInt32.size := (room_insert s i).trans_le hroom.le
  rw [card_bits hroom', card_bits hroom.le, room_insert]
  by_cases hnew : (s.insert i).2 = true
  · rw [if_pos hnew]
    rw [insert_isNew, Bool.and_eq_true, decide_eq_true_iff, Bool.not_eq_true'] at hnew
    exact countBelow_insert hroom.le hnew.1 hnew.1 hnew.2
  · rw [if_neg hnew]
    exact countBelow_congr (contains_insert_of_not_new (Bool.not_eq_true _ ▸ hnew)) _

theorem card_bits_clear (hroom : s.room < UInt32.size) : s.clear.bits.card = 0 := by
  rw [card_bits ((room_clear s).trans_le hroom.le), countBelow_clear]

/-! ### The history of a set -/

/-- A call that changes a set. -/
inductive Change where
  | insert (i : UInt32)
  | clear
deriving DecidableEq

/-- A call that has changed a set, with what it answered. -/
inductive Event where
  | inserted (i : UInt32) (isNew : Bool)
  | cleared
deriving DecidableEq

namespace Event

/-- The call without its answer. -/
def change : Event → Change
  | inserted i _ => .insert i
  | cleared => .clear

/-- The call put in an index that was new. -/
def isGain : Event → Bool
  | inserted _ isNew => isNew
  | cleared => false

end Event

/-- A set with the calls that have changed it so far, the latest last. -/
structure History where
  set : IndexSet
  events : List Event

namespace History

/-- The history after one more call. -/
def next (h : History) : Change → History
  | .insert i => ⟨(h.set.insert i).1, h.events ++ [.inserted i (h.set.insert i).2]⟩
  | .clear => ⟨h.set.clear, h.events ++ [.cleared]⟩

/-- The history of a set to which some changes are made. -/
def after (s : IndexSet) (changes : List Change) : History := changes.foldl next ⟨s, []⟩

/-- The calls since the set was cleared, or all of them if it never was. -/
def recent (h : History) : List Event := h.events.rtakeWhile (· ≠ .cleared)

/-- How many insertions since then reported a new index. -/
def gains (h : History) : Nat := h.recent.countP Event.isGain

variable {h : History} {changes : List Change} {c : Change}

theorem after_concat : after s (changes ++ [c]) = (after s changes).next c :=
  List.foldl_concat ..

theorem change_next (h : History) (c : Change) :
    (h.next c).events.map Event.change = h.events.map Event.change ++ [c] := by
  cases c <;> simp [next, Event.change]

/-- Every change is taken down. -/
theorem change_after (s : IndexSet) (changes : List Change) :
    (after s changes).events.map Event.change = changes := by
  induction changes using List.reverseRecOn with
  | nil => rfl
  | append_singleton changes c ih => rw [after_concat, change_next, ih]

@[simp] theorem room_next (h : History) (c : Change) : (h.next c).set.room = h.set.room := by
  cases c <;> simp [next]

/-- Changes leave the words as many as they are. -/
@[simp] theorem room_after (s : IndexSet) (changes : List Change) :
    (after s changes).set.room = s.room := by
  induction changes using List.reverseRecOn with
  | nil => rfl
  | append_singleton changes c ih => rw [after_concat, room_next, ih]

/-! ### Members -/

/-- A call was made, and nothing was cleared after it. -/
def Stands (changes : List Change) (c : Change) : Prop :=
  ∃ before later, changes = before ++ c :: later ∧ .clear ∉ later

/-- An index was in a set at first or has been put in by some changes, and nothing was cleared
    after that. -/
def Keeps (initial : Finset Nat) (changes : List Change) (i : UInt32) : Prop :=
  (i.toNat ∈ initial ∧ .clear ∉ changes) ∨ Stands changes (.insert i)

variable {initial : Finset Nat} {c' : Change}

theorem not_stands_nil : ¬ Stands [] c := by
  rintro ⟨before, later, hsplit, -⟩
  simp at hsplit

/-- The latest call stands, and those before it do unless it clears the set. -/
theorem stands_concat :
    Stands (changes ++ [c']) c ↔ c = c' ∨ (c' ≠ .clear ∧ Stands changes c) := by
  constructor
  · rintro ⟨before, later, hsplit, hlater⟩
    -- The call is the latest one, or one of those before it.
    rcases List.eq_nil_or_concat later with rfl | ⟨later, last, rfl⟩
    · obtain ⟨-, hlast⟩ := List.append_inj' hsplit rfl
      cases hlast
      exact .inl rfl
    · rw [List.concat_eq_append] at hsplit hlater
      rw [← List.cons_append, ← List.append_assoc] at hsplit
      obtain ⟨hchanges, hlast⟩ := List.append_inj' hsplit rfl
      cases hlast
      simp only [List.mem_append, List.mem_singleton, not_or] at hlater
      exact .inr ⟨Ne.symm hlater.2, before, later, hchanges, hlater.1⟩
  · rintro (rfl | ⟨hne, before, later, rfl, hlater⟩)
    · exact ⟨changes, [], rfl, List.not_mem_nil⟩
    · refine ⟨before, later ++ [c'], by simp, ?_⟩
      simp only [List.mem_append, List.mem_singleton, not_or]
      exact ⟨hlater, hne.symm⟩

theorem keeps_nil : Keeps initial [] i ↔ i.toNat ∈ initial := by
  simp [Keeps, not_stands_nil]

/-- One more insertion keeps what there is and puts its index in. -/
theorem keeps_concat_insert :
    Keeps initial (changes ++ [.insert j]) i ↔ Keeps initial changes i ∨ i = j := by
  simp only [Keeps, stands_concat, Change.insert.injEq, List.mem_append, List.mem_singleton,
    reduceCtorEq, or_false, ne_eq, not_false_eq_true, true_and]
  rw [or_assoc, or_comm (a := i = j)]

/-- Nothing is kept when everything is cleared. -/
theorem not_keeps_concat_clear : ¬ Keeps initial (changes ++ [.clear]) i := by
  simp [Keeps, stands_concat]

/-- The members are the indices that the changes so far keep, as far as there is room. -/
theorem contains_after (s : IndexSet) (changes : List Change) (i : UInt32) :
    (after s changes).set.contains i = true ↔ i.toNat < s.room ∧ Keeps s.bits changes i := by
  induction changes using List.reverseRecOn with
  | nil =>
    rw [keeps_nil]
    have hmem : (after s []).set.contains i = true ↔ i.toNat ∈ s.bits := contains_iff_mem_bits
    rw [hmem]
    exact (and_iff_right_of_imp lt_room_of_mem_bits).symm
  | append_singleton changes c ih =>
    rw [after_concat]
    cases c with
    | insert j =>
      rw [keeps_concat_insert, and_or_left, ← ih]
      show ((after s changes).set.insert j).1.contains i = true ↔ _
      rw [contains_insert, Bool.or_eq_true, decide_eq_true_iff, room_after]
      -- What was there before is settled, and the new index is in if it has room.
      apply or_congr_right
      constructor
      · rintro ⟨rfl, hfits⟩
        exact ⟨hfits, rfl⟩
      · rintro ⟨hfits, rfl⟩
        exact ⟨rfl, hfits⟩
    | clear =>
      show (after s changes).set.clear.contains i = true ↔ _
      rw [contains_clear]
      exact iff_of_false Bool.false_ne_true fun hkept => not_keeps_concat_clear hkept.2

/-! ### The number of bits -/

theorem gains_insert (h : History) (i : UInt32) :
    (h.next (.insert i)).gains = h.gains + if (h.set.insert i).2 then 1 else 0 := by
  have hrecent : (h.next (.insert i)).recent
      = h.recent ++ [.inserted i (h.set.insert i).2] :=
    List.rtakeWhile_concat_pos _ _ _ (by simp)
  rw [gains, hrecent, List.countP_append, List.countP_singleton]
  rfl

theorem gains_clear (h : History) : (h.next .clear).gains = 0 := by
  have hrecent : (h.next .clear).recent = [] := List.rtakeWhile_concat_neg _ _ _ (by simp)
  rw [gains, hrecent, List.countP_nil]

/-- There are as many bits as insertions have reported a new index since the set was cleared,
    and those from the start if it never was. -/
theorem card_bits_after (hroom : s.room < UInt32.size) (changes : List Change) :
    (after s changes).set.bits.card
      = (if .clear ∈ changes then 0 else s.bits.card) + (after s changes).gains := by
  induction changes using List.reverseRecOn with
  | nil => simp [after, gains, recent]
  | append_singleton changes c ih =>
    have hroom' : (after s changes).set.room < UInt32.size :=
      (room_after s changes).trans_lt hroom
    rw [after_concat]
    cases c with
    | insert j =>
      rw [gains_insert, ← Nat.add_assoc]
      have hclear : Change.clear ∈ changes ++ [.insert j] ↔ Change.clear ∈ changes := by simp
      rw [if_congr hclear rfl rfl, ← ih]
      exact card_bits_insert hroom'
    | clear =>
      rw [gains_clear, if_pos (by simp)]
      exact card_bits_clear hroom'

/-! ### All of it -/

/-- A set of indices is a finite set, over every history and whatever its words hold at first,
    if they are few enough for their bits to be counted in a word. An index is in it exactly if
    it has room, was in at first or has been put in, and nothing was cleared after that. An
    insertion reports a new index exactly if there is room for it and it is not in the set,
    changes no other bit, and changes nothing if there is no room. There are as many bits as
    insertions have reported a new index since the set was cleared, and those from the start if
    it never was. -/
theorem bits_follow_history (s : IndexSet) (hsize : s.words.size < 2 ^ 27)
    (changes : List Change) :
    let h := after s changes
    h.events.map Event.change = changes
      ∧ (∀ i, h.set.contains i = true ↔ i < h.set.capacity ∧ Keeps s.bits changes i)
      ∧ (∀ i, (h.set.insert i).2 = true ↔ i < h.set.capacity ∧ h.set.contains i = false)
      ∧ (∀ i k, k ≠ i.toNat → (k ∈ (h.set.insert i).1.bits ↔ k ∈ h.set.bits))
      ∧ (∀ i, ¬ i < h.set.capacity → (h.set.insert i).1 = h.set)
      ∧ h.set.bits.card = (if .clear ∈ changes then 0 else s.bits.card) + h.gains := by
  intro h
  have hroom : s.room < UInt32.size := room_lt_size hsize
  have hsame : h.set.room = s.room := room_after s changes
  have hroom' : h.set.room < UInt32.size := hsame.trans_lt hroom
  refine ⟨change_after s changes, ?_, ?_, ?_, ?_, card_bits_after hroom changes⟩
  · intro i
    rw [lt_capacity_iff hroom', hsame]
    exact contains_after s changes i
  · intro i
    rw [lt_capacity_iff hroom', insert_isNew, Bool.and_eq_true, decide_eq_true_iff,
      Bool.not_eq_true']
  · intro i k hk
    exact mem_bits_insert_of_ne hroom' hk
  · intro i hbeyond
    rw [lt_capacity_iff hroom'] at hbeyond
    rw [insert_of_room_le (Nat.le_of_not_lt hbeyond)]

theorem bits_follow_history_twoWords :
    let changes : List Change := [.insert 40, .clear, .insert 63, .insert 64, .insert 63]
    let h := after ⟨#[0x80000001, 0]⟩ changes
    (#[0x80000001, 0] : Array UInt32).size < 2 ^ 27 ∧ h.set.bits.card = 1
      ∧ Keeps (bits ⟨#[0x80000001, 0]⟩) changes 63 ∧ (h.set.insert 64).1 = h.set := by
  intro changes h
  have hsize : (#[0x80000001, 0] : Array UInt32).size < 2 ^ 27 := by decide
  obtain ⟨-, hcontains, -, -, hbeyond, hcard⟩ :=
    bits_follow_history ⟨#[0x80000001, 0]⟩ hsize changes
  refine ⟨hsize, ?_, ?_, ?_⟩
  · rw [hcard]
    decide
  · exact ((hcontains 63).mp (by decide)).2
  · exact hbeyond 64 (by decide)

end History

end IndexSet

end Reflash
