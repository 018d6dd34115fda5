import Reflash.Word
/-! # Memory

  Memory is a byte at every address. Bytes can be stored; a run of flash can be
  erased, which sets every bit, and programmed, which only clears bits.

  Addresses go round at the top: the byte behind the last address is the first.

  Memory keeps its changes. To read a run, only the changes that matter for it are
  looked at: `within` leaves out the others, `load_eq` says that a run read so
  holds the bytes at its addresses one after the other, and `word_eq` says the
  same of a word.
-/

namespace Reflash

/-- A change of some bytes. -/
inductive Change where
  /-- Bytes were stored. -/
  | store (addr : UInt32) (bytes : Array UInt8)
  /-- Flash was programmed: a bit that was clear stays clear. -/
  | program (addr : UInt32) (bytes : Array UInt8)
  /-- Flash was erased: every bit is set. -/
  | erase (addr len : UInt32)
deriving DecidableEq, Inhabited

namespace Change

/-- The byte at `a` after a change, given the one before. What was before is not
    looked at where it does not matter. -/
@[macro_inline] def apply (c : Change) (a : UInt32) (old : UInt8) : UInt8 :=
  match c with
  | .store addr bytes =>
    match bytes[(a - addr).toNat]? with
    | some b => b
    | none => old
  | .program addr bytes => old &&& (bytes[(a - addr).toNat]?).getD 0xFF
  | .erase addr len => if a - addr < len then 0xFF else old

/-- The first address of a change. -/
def start : Change → UInt32
  | .store addr _ | .program addr _ | .erase addr _ => addr

/-- How many bytes a change is about. -/
def size : Change → Nat
  | .store _ bytes | .program _ bytes => bytes.size
  | .erase _ len => len.toNat

/-- Whether a change can matter for a byte of a run. -/
def touches (c : Change) (addr : UInt32) (len : Nat) : Bool :=
  (c.start - addr).toNat < len || (addr - c.start).toNat < c.size

/-- Whether what was before a change no longer matters for any byte of a run. -/
def hides (c : Change) (addr : UInt32) (len : Nat) : Bool :=
  match c with
  | .program .. => false
  | _ => (addr - c.start).toNat + len ≤ c.size

theorem toNat_add_sub (addr start : UInt32) (i : Nat) :
    (addr + UInt32.ofNat i - start).toNat = ((addr - start).toNat + i) % 4294967296 := by
  have h : addr + UInt32.ofNat i - start = (addr - start) + UInt32.ofNat i := by
    rw [UInt32.sub_eq_add_neg, UInt32.sub_eq_add_neg, UInt32.add_assoc, UInt32.add_assoc,
      UInt32.add_comm (UInt32.ofNat i)]
  rw [h, UInt32.toNat_add, UInt32.toNat_ofNat']
  omega

theorem apply_of_not_touches {c : Change} {addr : UInt32} {len i : Nat} (hi : i < len)
    (h : c.touches addr len = false) (old : UInt8) :
    c.apply (addr + UInt32.ofNat i) old = old := by
  have far : c.size ≤ (addr + UInt32.ofNat i - c.start).toNat := by
    simp only [touches, Bool.or_eq_false_iff, decide_eq_false_iff_not] at h
    have hs := UInt32.toNat_sub c.start addr
    have ha := UInt32.toNat_sub addr c.start
    have hb := addr.toNat_lt
    have hc := c.start.toNat_lt
    rw [toNat_add_sub]
    omega
  cases c with
  | store start bytes =>
    have hn : bytes.size ≤ (addr + UInt32.ofNat i - start).toNat := far
    simp only [apply, Array.getElem?_eq_none hn]
  | program start bytes =>
    have hn : bytes.size ≤ (addr + UInt32.ofNat i - start).toNat := far
    simp only [apply, Array.getElem?_eq_none hn]
    exact UInt8.and_neg_one
  | erase start n =>
    exact if_neg fun hn => Nat.not_lt.2 far (UInt32.lt_iff_toNat_lt.1 hn)

theorem apply_of_hides {c : Change} {addr : UInt32} {len i : Nat} (hi : i < len)
    (h : c.hides addr len = true) (old other : UInt8) :
    c.apply (addr + UInt32.ofNat i) old = c.apply (addr + UInt32.ofNat i) other := by
  have near (hc : (addr - c.start).toNat + len ≤ c.size) :
      (addr + UInt32.ofNat i - c.start).toNat < c.size := by
    rw [toNat_add_sub]
    omega
  cases c with
  | store start bytes =>
    have hn : (addr + UInt32.ofNat i - start).toNat < bytes.size := near (by simpa [hides] using h)
    simp only [apply, Array.getElem?_eq_getElem hn]
  | program start bytes => simp [hides] at h
  | erase start n =>
    have hn : addr + UInt32.ofNat i - start < n :=
      UInt32.lt_iff_toNat_lt.2 (near (by simpa [hides] using h))
    simp only [apply, if_pos hn]

/-- The byte at `a` after some changes, the latest first, given the one before
    them all. -/
def applyAll (initial : UInt8) (a : UInt32) : List Change → UInt8
  | [] => initial
  | c :: before => c.apply a (applyAll initial a before)

/-- The changes that matter for a run. -/
def relevant (addr : UInt32) (len : Nat) : List Change → List Change
  | [] => []
  | c :: before =>
    if c.hides addr len then [c]
    else if c.touches addr len then c :: relevant addr len before
    else relevant addr len before

theorem applyAll_relevant {addr : UInt32} {len i : Nat} (hi : i < len) (initial : UInt8)
    (changes : List Change) :
    applyAll initial (addr + UInt32.ofNat i) (relevant addr len changes)
      = applyAll initial (addr + UInt32.ofNat i) changes := by
  induction changes with
  | nil => rfl
  | cons c before ih =>
    unfold relevant
    split
    · rename_i h
      exact apply_of_hides hi h _ _
    · split
      · exact congrArg (c.apply _) ih
      · rename_i h
        rw [ih]
        exact (apply_of_not_touches hi (Bool.eq_false_iff.2 h) _).symm

end Change

/-- What memory held at first, and its changes since, the latest first. -/
structure Memory where
  initial : UInt32 → UInt8
  changes : List Change
deriving Inhabited

namespace Memory

/-- The byte at an address. -/
def byte (m : Memory) (a : UInt32) : UInt8 := Change.applyAll (m.initial a) a m.changes

/-- Memory after one more change. -/
def change (m : Memory) (c : Change) : Memory := { m with changes := c :: m.changes }

@[simp] theorem byte_change (m : Memory) (c : Change) (a : UInt32) :
    (m.change c).byte a = c.apply a (m.byte a) := rfl

/-! ### Reading -/

/-- Memory without the changes that do not matter for a run. -/
def within (m : Memory) (addr : UInt32) (len : Nat) : Memory :=
  { m with changes := Change.relevant addr len m.changes }

theorem byte_within (m : Memory) {addr : UInt32} {len i : Nat} (hi : i < len) :
    (m.within addr len).byte (addr + UInt32.ofNat i) = m.byte (addr + UInt32.ofNat i) :=
  Change.applyAll_relevant hi _ _

/-- The longest run that is read without halving it. -/
def shortRun : Nat := 64

/-- The bytes from an address on, in front of others. A long run is halved, so that
    few changes are left to look at for each byte. -/
def loadOnto (m : Memory) (addr : UInt32) (len : Nat) (behind : Bytes) : Bytes :=
  if _h : len ≤ shortRun ∨ m.changes.isEmpty then
    ((List.range len).map fun i => m.byte (addr + UInt32.ofNat i)) ++ behind
  else
    let half := len / 2
    let there := addr + UInt32.ofNat half
    (m.within addr half).loadOnto addr half
      ((m.within there (len - half)).loadOnto there (len - half) behind)
termination_by len
decreasing_by
  all_goals
    have long := (not_or.1 _h).1
    simp only [shortRun] at long
    omega

/-- The bytes from an address on. -/
def load (m : Memory) (addr : UInt32) (len : Nat) : Bytes := m.loadOnto addr len []

theorem loadOnto_eq (m : Memory) (addr : UInt32) (len : Nat) (behind : Bytes) :
    m.loadOnto addr len behind
      = ((List.range len).map fun i => m.byte (addr + UInt32.ofNat i)) ++ behind := by
  fun_induction loadOnto m addr len behind with
  | case1 => rfl
  | case2 m addr len behind _ half there behindFirst _ both =>
    rw [both, behindFirst, ← List.append_assoc]
    congr 1
    have hlen : len = half + (len - half) := by omega
    conv => rhs; rw [hlen, List.range_add, List.map_append, List.map_map]
    congr 1
    · refine List.map_congr_left fun i hi => ?_
      exact m.byte_within (List.mem_range.1 hi)
    · refine List.map_congr_left fun i hi => ?_
      rw [m.byte_within (List.mem_range.1 hi)]
      simp only [there, Function.comp_apply, UInt32.ofNat_add, UInt32.add_assoc]

/-- The bytes from an address on are those at the addresses one after the
    other. -/
theorem load_eq (m : Memory) (addr : UInt32) (len : Nat) :
    m.load addr len = (List.range len).map fun i => m.byte (addr + UInt32.ofNat i) := by
  rw [load, loadOnto_eq, List.append_nil]

@[simp] theorem length_load (m : Memory) (addr : UInt32) (len : Nat) :
    (m.load addr len).length = len := by simp [load_eq]

/-- The word at an address. -/
def word (m : Memory) (addr : UInt32) : UInt32 :=
  let near := m.within addr 4
  Word.ofBytes (near.byte addr) (near.byte (addr + 1)) (near.byte (addr + 2)) (near.byte (addr + 3))

/-- A word is made of the bytes at its address and the three behind it. -/
theorem word_eq (m : Memory) (addr : UInt32) :
    m.word addr = Word.ofBytes (m.byte addr) (m.byte (addr + 1)) (m.byte (addr + 2))
      (m.byte (addr + 3)) := by
  have first : (m.within addr 4).byte addr = m.byte addr := by
    have h := @byte_within m addr 4 0 (by decide)
    rwa [show UInt32.ofNat 0 = 0 from rfl, UInt32.add_zero] at h
  have second : (m.within addr 4).byte (addr + 1) = m.byte (addr + 1) :=
    m.byte_within (show 1 < 4 by decide)
  have third : (m.within addr 4).byte (addr + 2) = m.byte (addr + 2) :=
    m.byte_within (show 2 < 4 by decide)
  have fourth : (m.within addr 4).byte (addr + 3) = m.byte (addr + 3) :=
    m.byte_within (show 3 < 4 by decide)
  simp only [word, first, second, third, fourth]

/-- The half word at an address. -/
def half (m : Memory) (addr : UInt32) : UInt32 :=
  Word.ofBytes (m.byte addr) (m.byte (addr + 1)) 0 0

/-! ### Writing -/

/-- Store bytes from an address on. -/
def store (m : Memory) (addr : UInt32) (bytes : Bytes) : Memory :=
  m.change (.store addr bytes.toArray)

/-- Program flash from an address on. A bit that is clear stays clear. -/
def program (m : Memory) (addr : UInt32) (bytes : Bytes) : Memory :=
  m.change (.program addr bytes.toArray)

/-- Erase flash. Every bit is set. -/
def erase (m : Memory) (addr len : UInt32) : Memory := m.change (.erase addr len)

/-- Store a word. -/
def setWord (m : Memory) (addr w : UInt32) : Memory := m.store addr (Word.bytes w).toList

end Memory

end Reflash
