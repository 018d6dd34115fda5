import Mathlib.Tactic.Common
import Reflash.Machine
import Reflash.Memory
/-! # A machine with a memory

  The machine that carries calls out as memory does: bytes are stored in RAM,
  erasing flash sets every bit and programming it only clears bits. When a reboot
  is asked for, it keeps what memory holds at that time.

  The lemmas say what a change leaves at each address. Addresses are compared as
  numbers, and no run of bytes goes round at the top.
-/

namespace Reflash

/-! ### Changes, byte by byte -/

/-- An address is so far behind another one as their numbers differ. -/
theorem toNat_sub_lt_iff {a start : UInt32} {n : Nat} (hfits : start.toNat + n ≤ UInt32.size) :
    (a - start).toNat < n ↔ start.toNat ≤ a.toNat ∧ a.toNat < start.toNat + n := by
  have ha := a.toNat_lt
  have hs := start.toNat_lt
  have hsub := UInt32.toNat_sub a start
  have hsize : UInt32.size = 4294967296 := rfl
  omega

theorem toNat_sub_of_le {a start : UInt32} (h : start.toNat ≤ a.toNat) :
    (a - start).toNat = a.toNat - start.toNat :=
  UInt32.toNat_sub_of_le a start (UInt32.le_iff_toNat_le.mpr h)

namespace Memory

/-- The addresses of a run go up one by one. -/
theorem toNat_add_ofNat {addr : UInt32} {k n : Nat} (hfits : addr.toNat + n ≤ UInt32.size)
    (hk : k < n) : (addr + UInt32.ofNat k).toNat = addr.toNat + k := by
  have hsize : UInt32.size = 4294967296 := rfl
  rw [UInt32.toNat_add, UInt32.toNat_ofNat']
  omega

variable (m : Memory) (a : UInt32)

/-- Stored bytes are there, and the others are as before. -/
theorem byte_store {start : UInt32} {bytes : Bytes}
    (hfits : start.toNat + bytes.length ≤ UInt32.size) :
    (m.store start bytes).byte a =
      if start.toNat ≤ a.toNat ∧ a.toNat < start.toNat + bytes.length
      then bytes.getD (a.toNat - start.toNat) 0 else m.byte a := by
  have hstored : (m.store start bytes).byte a
      = (bytes.toArray[(a - start).toNat]?).getD (m.byte a) := by
    show Change.apply (.store start bytes.toArray) a (m.byte a) = _
    simp only [Change.apply]
    cases bytes.toArray[(a - start).toNat]? <;> rfl
  rw [hstored]
  by_cases h : start.toNat ≤ a.toNat ∧ a.toNat < start.toNat + bytes.length
  · have hlt : a.toNat - start.toNat < bytes.length := by omega
    rw [if_pos h, toNat_sub_of_le h.1]
    simp [hlt]
  · have hlt := (toNat_sub_lt_iff hfits).not.mpr h
    rw [if_neg h]
    simp [Nat.not_lt.mp hlt]

/-- Storing a word changes nothing before it and nothing behind it. -/
theorem byte_setWord {start : UInt32} (w : UInt32) (hfits : start.toNat + 4 ≤ UInt32.size)
    (hapart : a.toNat < start.toNat ∨ start.toNat + 4 ≤ a.toNat) :
    (m.setWord start w).byte a = m.byte a := by
  have hlength : (Word.bytes w).toList.length = 4 := Vector.length_toList
  unfold setWord
  rw [m.byte_store a (by rw [hlength]; exact hfits), hlength, if_neg (by omega)]

/-- Programmed bytes lose the bits that are clear in what is programmed. -/
theorem byte_program {start : UInt32} {bytes : Bytes}
    (hfits : start.toNat + bytes.length ≤ UInt32.size) :
    (m.program start bytes).byte a =
      if start.toNat ≤ a.toNat ∧ a.toNat < start.toNat + bytes.length
      then m.byte a &&& bytes.getD (a.toNat - start.toNat) 0 else m.byte a := by
  show m.byte a &&& (bytes.toArray[(a - start).toNat]?).getD 0xFF = _
  by_cases h : start.toNat ≤ a.toNat ∧ a.toNat < start.toNat + bytes.length
  · have hlt : a.toNat - start.toNat < bytes.length := by omega
    rw [if_pos h, toNat_sub_of_le h.1]
    simp [hlt]
  · have hlt := (toNat_sub_lt_iff hfits).not.mpr h
    rw [if_neg h, Array.getElem?_eq_none (by simpa using Nat.not_lt.mp hlt)]
    exact UInt8.and_neg_one

/-- What is erased has every bit set, and nothing else changes. -/
theorem byte_erase {start len : UInt32} (hfits : start.toNat + len.toNat ≤ UInt32.size) :
    (m.erase start len).byte a =
      if start.toNat ≤ a.toNat ∧ a.toNat < start.toNat + len.toNat then 0xFF else m.byte a := by
  show (if a - start < len then 0xFF else m.byte a) = _
  simp only [UInt32.lt_iff_toNat_lt, toNat_sub_lt_iff hfits]

/-- An erased sector has every bit set, and nothing else changes. -/
theorem byte_erase_sector {start : UInt32} (haligned : start.toNat % 4096 = 0) :
    (m.erase start 4096).byte a =
      if a.toNat / 4096 = start.toNat / 4096 then 0xFF else m.byte a := by
  have hs := start.toNat_lt
  have hfits : start.toNat + (4096 : UInt32).toNat ≤ UInt32.size := by
    have hsize : UInt32.size = 4294967296 := rfl
    have hlen : (4096 : UInt32).toNat = 4096 := rfl
    omega
  have hiff : start.toNat ≤ a.toNat ∧ a.toNat < start.toNat + (4096 : UInt32).toNat
      ↔ a.toNat / 4096 = start.toNat / 4096 := by
    show start.toNat ≤ a.toNat ∧ a.toNat < start.toNat + 4096 ↔ _
    omega
  simp only [m.byte_erase a hfits, hiff]

/-- Flash after an update. -/
def updateFlash (update : FlashUpdate) : Memory :=
  let erased := match update.erase with
    | some range => m.erase range.addr range.len
    | none => m
  match update.program with
  | some (addr, bytes) => erased.program addr bytes
  | none => erased

end Memory

/-! ### The machine -/

/-- A memory, and every reboot that was asked for, the latest first, with what
    memory held at that time. -/
structure MemoryMachine where
  memory : Memory
  reboots : List (RebootRequest × Memory)

namespace MemoryMachine

instance : Machine MemoryMachine where
  perform b call :=
    match call with
    | .writeRam addr bytes => { b with memory := b.memory.store addr bytes }
    | .updateFlash update => { b with memory := b.memory.updateFlash update }
    | .reboot request => { b with reboots := (request, b.memory) :: b.reboots }
    | _ => b
  load b addr len := b.memory.load addr len.toNat
  length_load b addr len := b.memory.length_load addr len.toNat

/-- A memory of which no reboot was asked yet. -/
def new (memory : Memory) : MemoryMachine := ⟨memory, []⟩

end MemoryMachine

end Reflash
