import Reflash.Proofs.ChipMemory
import Reflash.Proofs.Sector
/-! # The registers of the reboot timer in memory

  The registers of the reboot timer lie in memory, each at an address of its own. Writing
  one is writing that word, so that arming a reset in memory does to the registers what
  arming one does (`timerOf_armReset`). Whatever else changes in memory leaves them alone.

  After a reset that was asked for without an entry point the chip starts from flash,
  whatever was in the scratch words before.
-/

namespace Reflash

/-! ### Words -/

namespace Memory

variable {m m' : Memory} {addr start w : UInt32}

/-- A word depends on its four bytes. -/
theorem word_congr (h : ∀ k < 4, m'.byte (addr + UInt32.ofNat k) = m.byte (addr + UInt32.ofNat k)) :
    m'.word addr = m.word addr := by
  have hfirst := h 0 (by decide)
  rw [show UInt32.ofNat 0 = 0 from rfl, UInt32.add_zero] at hfirst
  rw [word_eq, word_eq, hfirst, show m'.byte (addr + 1) = m.byte (addr + 1) from h 1 (by decide),
    show m'.byte (addr + 2) = m.byte (addr + 2) from h 2 (by decide),
    show m'.byte (addr + 3) = m.byte (addr + 3) from h 3 (by decide)]

/-- A word is the one whose four bytes are there. -/
theorem word_of_bytes
    (h : ∀ k < 4, m.byte (addr + UInt32.ofNat k) = (Word.bytes w).toList.getD k 0) :
    m.word addr = w := by
  have hfirst := h 0 (by decide)
  rw [show UInt32.ofNat 0 = 0 from rfl, UInt32.add_zero] at hfirst
  rw [word_eq, hfirst, show m.byte (addr + 1) = _ from h 1 (by decide),
    show m.byte (addr + 2) = _ from h 2 (by decide),
    show m.byte (addr + 3) = _ from h 3 (by decide)]
  exact Word.ofBytes_bytes w

/-- A word that was stored is there. -/
theorem word_setWord_self (m : Memory) (w : UInt32) (hfits : start.toNat + 4 ≤ UInt32.size) :
    (m.setWord start w).word start = w := by
  have hlength : (Word.bytes w).toList.length = 4 := Vector.length_toList
  refine word_of_bytes fun k hk => ?_
  have haddr := toNat_add_ofNat hfits hk
  unfold setWord
  rw [m.byte_store _ (by rw [hlength]; exact hfits), hlength, if_pos (by omega), haddr,
    Nat.add_sub_cancel_left]

/-- Storing a word leaves alone the words that do not overlap with it. -/
theorem word_setWord_apart (m : Memory) (w : UInt32) (hstart : start.toNat + 4 ≤ UInt32.size)
    (haddr : addr.toNat + 4 ≤ UInt32.size)
    (hapart : addr.toNat + 4 ≤ start.toNat ∨ start.toNat + 4 ≤ addr.toNat) :
    (m.setWord start w).word addr = m.word addr := by
  refine word_congr fun k hk => m.byte_setWord _ w hstart ?_
  rw [toNat_add_ofNat haddr hk]
  omega

/-- A word of a run is read as in the whole memory. -/
theorem word_within (m : Memory) {len k : Nat} (hk : k + 4 ≤ len) :
    (m.within start len).word (start + UInt32.ofNat k) = m.word (start + UInt32.ofNat k) := by
  refine word_congr fun i hi => ?_
  have hsum : start + UInt32.ofNat k + UInt32.ofNat i = start + UInt32.ofNat (k + i) := by
    rw [UInt32.add_assoc, ← UInt32.ofNat_add]
  rw [hsum]
  exact m.byte_within (by omega)

end Memory

/-! ### Registers -/

namespace RebootTimer

variable {t t' : RebootTimer} {r r' : TimerRegister} {w : UInt32}

theorem ext_get (h : ∀ r, t.get r = t'.get r) : t = t' := by
  obtain ⟨control, load, scratch, resetSelect⟩ := t
  obtain ⟨control', load', scratch', resetSelect'⟩ := t'
  have hscratch : scratch = scratch' := Vector.ext fun i hi => h (.scratch ⟨i, hi⟩)
  obtain rfl : control = control' := h .control
  obtain rfl : load = load' := h .load
  obtain rfl : resetSelect = resetSelect' := h .resetSelect
  rw [hscratch]

/-- A register that was written holds what was written, and the others are as before. -/
theorem get_set (t : RebootTimer) (r r' : TimerRegister) (w : UInt32) :
    (t.set r w).get r' = if r' = r then w else t.get r' := by
  cases r <;> cases r'
  case scratch.scratch i j => simp [set, get, Vector.getElem_set, Fin.ext_iff, eq_comm]
  all_goals rfl

end RebootTimer

namespace Rp2040

variable {m : Memory} {r r' : TimerRegister}

theorem toNat_scratchAddr (i : Fin 8) : (timerAddr (.scratch i)).toNat = 0x4005800C + 4 * i := by
  revert i
  decide

/-- The registers lie apart. -/
theorem timerAddr_apart (h : r ≠ r') :
    (timerAddr r).toNat + 4 ≤ (timerAddr r').toNat
      ∨ (timerAddr r').toNat + 4 ≤ (timerAddr r).toNat := by
  have hcontrol : (timerAddr .control).toNat = 0x40058000 := rfl
  have hload : (timerAddr .load).toNat = 0x40058004 := rfl
  have hselect : (timerAddr .resetSelect).toNat = 0x40010008 := rfl
  cases r <;> cases r'
  case scratch.scratch i j =>
    have hne : i.val ≠ j.val := fun hsame => h (congrArg _ (Fin.ext hsame))
    simp only [toNat_scratchAddr]
    omega
  all_goals
    first
      | exact absurd rfl h
      | (simp only [toNat_scratchAddr]; omega)
      | omega

/-- Each register is read at its address. -/
theorem get_timerOf (m : Memory) (r : TimerRegister) :
    (timerOf m).get r = m.word (timerAddr r) := by
  -- All but the register that selects what is reset lie in one run of addresses.
  have hblock : ∀ {r : TimerRegister} (k : Nat), timerAddr r = timerBase + UInt32.ofNat k →
      k + 4 ≤ timerSize →
      (m.within timerBase timerSize).word (timerAddr r) = m.word (timerAddr r) := by
    intro r k haddr hk
    rw [haddr]
    exact m.word_within hk
  cases r with
  | control => exact hblock 0 (by decide) (by decide)
  | load => exact hblock 4 (by decide) (by decide)
  | resetSelect => rfl
  | scratch i =>
    show (Vector.ofFn fun i : Fin 8 => (m.within timerBase timerSize).word
      (timerAddr (.scratch i)))[i] = _
    rw [Fin.getElem_fin, Vector.getElem_ofFn, Fin.eta]
    refine hblock (0xC + 4 * i) ?_ ?_
    · revert i
      decide
    · have hsize : timerSize = 0x2C := rfl
      omega

/-- What leaves the words of the registers alone leaves the registers alone. -/
theorem timerOf_congr {m m' : Memory} (h : ∀ r, m'.word (timerAddr r) = m.word (timerAddr r)) :
    timerOf m' = timerOf m :=
  RebootTimer.ext_get fun r => by rw [get_timerOf, get_timerOf, h]

/-- Writing a register in memory is writing that register. -/
theorem timerOf_setWord (m : Memory) (r : TimerRegister) (w : UInt32) :
    timerOf (m.setWord (timerAddr r) w) = (timerOf m).set r w := by
  refine RebootTimer.ext_get fun r' => ?_
  rw [get_timerOf, RebootTimer.get_set, get_timerOf]
  split
  · rename_i hsame
    subst hsame
    exact m.word_setWord_self w (Loader.timerAddr_bounds _).2
  · rename_i hne
    exact m.word_setWord_apart w (Loader.timerAddr_bounds r).2 (Loader.timerAddr_bounds r').2
      (timerAddr_apart hne)

theorem timerOf_updateTimer (m : Memory) (u : RebootTimer.Update) :
    timerOf (updateTimer m u) = (timerOf m).update u := by
  rw [updateTimer, timerOf_setWord, RebootTimer.update, get_timerOf]

/-- Arming a reset in memory arms it. -/
theorem timerOf_armReset (c : Chip) (request : RebootRequest) :
    timerOf (c.armReset request).memory = (timerOf c.memory).arm request := by
  show timerOf ((RebootTimer.updates request).foldl updateTimer c.memory) = _
  unfold RebootTimer.arm
  generalize c.memory = m
  induction RebootTimer.updates request generalizing m with
  | nil => rfl
  | cons u updates ih => rw [List.foldl_cons, List.foldl_cons, ih, timerOf_updateTimer]

end Rp2040

/-! ### Starting from flash -/

namespace RebootTimer

/-- What matters to the boot ROM and to the loader's start stands in the scratch words. -/
theorem get_of_scratch {t t' : RebootTimer} (h : t.scratch = t'.scratch) (i : Fin 8) :
    t.get (.scratch i) = t'.get (.scratch i) := congrArg (·[i]) h

theorem bootTarget_of_scratch {t t' : RebootTimer} (h : t.scratch = t'.scratch) :
    t.bootTarget = t'.bootTarget := by
  simp only [bootTarget, get_of_scratch h]

/-- A reset that was armed without an entry point starts from flash. -/
theorem bootTarget_arm (t : RebootTimer) {request : RebootRequest} (h : request.entry = 0) :
    (t.arm request).bootTarget = none := by
  have hfirst : (t.arm request).get (.scratch 4) = 0 := by
    simp [arm, updates, startUpdates, h, update, put, get_set]
  unfold bootTarget
  rw [hfirst]
  rfl

/-- Arming a reset leaves the application's note alone. -/
theorem note_arm (t : RebootTimer) (request : RebootRequest) :
    (t.arm request).get noteRegister = t.get noteRegister := by
  unfold arm updates startUpdates noteRegister
  split <;> simp [update, put, get_set]

end RebootTimer

end Reflash
