import Reflash.Proofs.TimerRegisters
/-! # What the loader starts

  When power comes on, the loader looks at the pin, at the application's note and at the
  first two words of application flash, and at nothing else. What it does to the chip
  before it decides changes none of them, but that the note is taken away: a note holds
  for one start.
-/

namespace Reflash

namespace Loader

open Rp2040 (Chip timerOf timerAddr cacheControlClear)

/-! ### Before the decision -/

theorem memory_blink (c : Chip) (count : Nat) (periodMs : UInt32) :
    (blink c count periodMs).memory = c.memory := by
  induction count generalizing c with
  | zero => rfl
  | succ n ih => exact ih _

theorem memory_lookUpRoutines (c : Chip) : (lookUpRoutines c).memory = c.memory := by
  unfold lookUpRoutines
  induction romCodes generalizing c with
  | nil => rfl
  | cons code codes ih => exact ih _

/-- What is done before the decision leaves memory as it is. -/
theorem memory_prepare (c : Chip) : (prepare c).memory = c.memory :=
  (memory_lookUpRoutines _).trans (memory_blink _ _ _)

/-- The cache is off in update mode. -/
theorem memory_enterUpdateMode (c : Chip) :
    (enterUpdateMode c).memory = c.memory.setWord cacheControlClear Rp2040.cacheEnable :=
  congrArg (Memory.setWord · cacheControlClear Rp2040.cacheEnable) (memory_blink _ _ _)

/-- The cache has nothing to do with the reboot timer. -/
theorem timerOf_setCache (m : Memory) (w : UInt32) :
    timerOf (m.setWord cacheControlClear w) = timerOf m := by
  have hcache : cacheControlClear.toNat = 0x14003000 := rfl
  have hsize : UInt32.size = 4294967296 := rfl
  refine Rp2040.timerOf_congr fun r => ?_
  obtain ⟨hlow, hhigh⟩ := timerAddr_bounds r
  exact m.word_setWord_apart w (by omega) hhigh (by omega)

/-- The note is read and cleared as a register of the timer. -/
theorem takeUpdateRequest_eq (c : Chip) :
    (takeUpdateRequest c).2 = (timerOf c.memory).takeUpdateRequest.2
      ∧ timerOf (takeUpdateRequest c).1.memory = (timerOf c.memory).takeUpdateRequest.1 := by
  refine ⟨?_, Rp2040.timerOf_setWord _ _ _⟩
  show decide (c.memory.word (timerAddr RebootTimer.noteRegister) = _) = _
  rw [← Rp2040.get_timerOf]
  rfl

/-- The loader decides when the note is gone. -/
theorem startUp_eq (c : Chip) (pin : PinLevel) :
    startUp c pin = follow (takeUpdateRequest (prepare c)).1
      (.of pin (takeUpdateRequest (prepare c)).2
        (.inMemory (takeUpdateRequest (prepare c)).1.memory appBase)) := rfl

/-- When the loader is in update mode, the note was taken and the cache turned off. -/
theorem memory_of_updateMode {c c' : Chip} {pin : PinLevel} (h : startUp c pin = .updateMode c') :
    c'.memory = (takeUpdateRequest (prepare c)).1.memory.setWord cacheControlClear
      Rp2040.cacheEnable := by
  rw [startUp_eq] at h
  generalize Decision.of pin _ _ = decision at h
  cases decision with
  | start v => cases h
  | update =>
    cases h
    exact memory_enterUpdateMode _
  | noApplication v =>
    cases h
    exact memory_enterUpdateMode _

/-- Where the loader goes into update mode, the application's note is gone. -/
theorem note_of_updateMode {c c' : Chip} {pin : PinLevel} (h : startUp c pin = .updateMode c') :
    (timerOf c'.memory).get RebootTimer.noteRegister = 0 := by
  rw [memory_of_updateMode h, timerOf_setCache, (takeUpdateRequest_eq _).2,
    RebootTimer.takeUpdateRequest, RebootTimer.get_set, if_pos rfl]

/-- Nothing else in memory has changed, flash least of all. -/
theorem byte_of_updateMode {c c' : Chip} {pin : PinLevel} (h : startUp c pin = .updateMode c')
    {a : UInt32} (ha : a.toNat < 0x14003000) : c'.memory.byte a = c.memory.byte a := by
  have hcache : cacheControlClear.toNat = 0x14003000 := rfl
  have hnote : (timerAddr RebootTimer.noteRegister).toNat = 0x4005800C := rfl
  have hsize : UInt32.size = 4294967296 := rfl
  rw [memory_of_updateMode h, Memory.byte_setWord _ _ _ (by omega) (by omega)]
  refine (Memory.byte_setWord _ _ 0 (by omega) (by omega)).trans ?_
  rw [memory_prepare]

/-- With the pin low the loader goes into update mode. -/
theorem startUp_low (c : Chip) : ∃ c', startUp c .low = .updateMode c' := ⟨_, rfl⟩

/-! ### The decision -/

/-- The stack pointer of an application lies in RAM or at its end and is aligned, and its
    entry point lies in its flash and has the mark of thumb code. -/
structure VectorTable.Valid (v : VectorTable) : Prop where
  stack_ge : 0x20000000 ≤ v.stack.toNat
  stack_le : v.stack.toNat ≤ 0x20042000
  stack_aligned : v.stack.toNat % 4 = 0
  reset_ge : 0x10010000 ≤ v.reset.toNat
  reset_lt : v.reset.toNat < 0x11000000
  reset_odd : v.reset.toNat % 2 = 1

/-- This is what the loader checks. -/
theorem VectorTable.isBootable_iff (v : VectorTable) : v.isBootable = true ↔ v.Valid := by
  have hstack : isRam v.stack = true
      ↔ 0x20000000 ≤ v.stack.toNat ∧ v.stack.toNat ≤ 0x20042000 := by
    simp only [isRam, Bool.and_eq_true, decide_eq_true_eq, UInt32.le_iff_toNat_le]
    rfl
  have haligned : v.stack % 4 = 0 ↔ v.stack.toNat % 4 = 0 := by
    rw [← UInt32.toNat_inj, UInt32.toNat_mod]
    rfl
  have hreset : isAppFlash v.reset = true
      ↔ 0x10010000 ≤ v.reset.toNat ∧ v.reset.toNat < 0x11000000 := Region.contains_iff
  have hodd : v.reset &&& 1 = 1 ↔ v.reset.toNat % 2 = 1 := by
    rw [← UInt32.toNat_inj, UInt32.toNat_and, ← Nat.and_one_is_mod]
    rfl
  simp only [isBootable, Bool.and_eq_true, decide_eq_true_eq, hstack, haligned, hreset, hodd]
  exact ⟨fun ⟨⟨⟨⟨h, h'⟩, h''⟩, h₃, h₄⟩, h₅⟩ => ⟨h, h', h'', h₃, h₄, h₅⟩,
    fun h => ⟨⟨⟨⟨h.stack_ge, h.stack_le⟩, h.stack_aligned⟩, h.reset_ge, h.reset_lt⟩, h.reset_odd⟩⟩

/-- The table that the loader looks at is the one in flash. -/
theorem inMemory_takeUpdateRequest (c : Chip) :
    VectorTable.inMemory (takeUpdateRequest (prepare c)).1.memory appBase
      = VectorTable.inMemory c.memory appBase := by
  have hfirst : appBase.toNat = 0x10010000 := rfl
  have hsecond : (appBase + 4).toNat = 0x10010004 := rfl
  have hnote : (timerAddr RebootTimer.noteRegister).toNat = 0x4005800C := rfl
  have hsize : UInt32.size = 4294967296 := rfl
  have hword : ∀ addr : UInt32, addr.toNat + 4 ≤ 0x4005800C →
      (takeUpdateRequest (prepare c)).1.memory.word addr = c.memory.word addr := by
    intro addr haddr
    rw [← memory_prepare c]
    exact Memory.word_setWord_apart _ 0 (by omega) (by omega) (by omega)
  unfold VectorTable.inMemory
  rw [hword appBase (by omega), hword (appBase + 4) (by omega)]

/-- Without an application the loader goes into update mode. -/
theorem startUp_of_not_valid {c : Chip} {v : VectorTable} (pin : PinLevel)
    (htable : VectorTable.inMemory c.memory appBase = v) (h : ¬ v.Valid) :
    ∃ c', startUp c pin = .updateMode c' := by
  rw [← v.isBootable_iff] at h
  rw [startUp_eq, inMemory_takeUpdateRequest, htable]
  unfold Decision.of
  rw [if_neg h]
  split <;> exact ⟨_, rfl⟩

/-- With the pin high and no note, the loader starts the application if there is one. -/
theorem startUp_high {c : Chip} {v : VectorTable}
    (hnote : (timerOf c.memory).get RebootTimer.noteRegister ≠ RebootTimer.updateMagic)
    (htable : VectorTable.inMemory c.memory appBase = v) (h : v.Valid) :
    ∃ c', startUp c .high = .application c' v := by
  have hrequest : (takeUpdateRequest (prepare c)).2 = false := by
    rw [(takeUpdateRequest_eq _).1, memory_prepare]
    exact decide_eq_false hnote
  have hdecision : Decision.of .high false v = .start v := if_pos (v.isBootable_iff.mpr h)
  rw [startUp_eq, hrequest, inMemory_takeUpdateRequest, htable, hdecision]
  exact ⟨_, rfl⟩

end Loader

end Reflash
