import Reflash.Word
/-! # Sets of indices

  A set of small numbers, one bit for each, over a fixed run of words. The
  words decide how large an index can be: one past the last bit is never in the
  set and cannot be put in.
-/

namespace Reflash

/-- A set of indices below `32 * words.size`. -/
structure IndexSet where
  /-- Bit `i % 32` of word `i / 32` says whether `i` is in the set. -/
  words : Array UInt32
deriving DecidableEq, Inhabited

namespace IndexSet

/-- The empty set over `n` words. -/
def empty (n : Nat) : IndexSet := ⟨Array.replicate n 0⟩

/-- How many indices the words have room for. -/
def capacity (s : IndexSet) : UInt32 := UInt32.ofNat (s.words.size * 32)

/-- The bit that stands for `i` within its word. -/
def mask (i : UInt32) : UInt32 := 1 <<< (i % 32)

/-- Whether `i` is in the set. -/
def contains (s : IndexSet) (i : UInt32) : Bool :=
  match s.words[(i / 32).toNat]? with
  | some w => w &&& mask i != 0
  | none => false

/-- The set with `i` put in, and whether `i` is new. An index beyond the words
    leaves the set as it is and is not new. -/
def insert (s : IndexSet) (i : UInt32) : IndexSet × Bool :=
  match s.words[(i / 32).toNat]? with
  | some w =>
    (⟨s.words.setIfInBounds (i / 32).toNat (w ||| mask i)⟩, w &&& mask i == 0)
  | none => (s, false)

/-- The set with everything taken out. -/
def clear (s : IndexSet) : IndexSet := empty s.words.size

@[simp] theorem size_clear (s : IndexSet) : s.clear.words.size = s.words.size := by
  simp [clear, empty]

@[simp] theorem capacity_clear (s : IndexSet) : s.clear.capacity = s.capacity := by
  simp [capacity]

@[simp] theorem size_insert (s : IndexSet) (i : UInt32) :
    (s.insert i).1.words.size = s.words.size := by
  unfold insert
  split <;> simp

@[simp] theorem capacity_insert (s : IndexSet) (i : UInt32) :
    (s.insert i).1.capacity = s.capacity := by
  simp [capacity]

end IndexSet

end Reflash
