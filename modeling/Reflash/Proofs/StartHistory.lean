import Reflash.Proofs.StartDecision
/-! # A note holds for one start

  The pin, the application's note and the vector table decide together what the loader
  starts, and the note is lost as it is read. So whether a start finds a request depends on
  what happened since the start before, and on nothing further back: `starts` goes through
  any number of starts, between which the application may leave a note and everything else
  on the chip may change.

  `startUp_eq_application_iff` is the decision as a whole, and `noteOf_startUp` says that
  nothing is left of the note, however the start ends.
-/

namespace Reflash

namespace Loader

open Rp2040 (Chip timerAddr vectorTableAddr interruptClearPending interruptClearEnable)
open RebootTimer (noteRegister updateMagic)

/-! ### One start -/

/-- The note that was left on a chip. -/
def noteOf (c : Chip) : UInt32 := c.memory.word (timerAddr noteRegister)

/-- The chip when a start is over. -/
def Started.chip : Started → Chip
  | .application c _ => c
  | .updateMode c => c

section start

variable {c c' : Chip} {pin : PinLevel} {v : VectorTable}

theorem takeUpdateRequest_prepare (c : Chip) :
    (takeUpdateRequest (prepare c)).2 = decide (noteOf c = updateMagic) := by
  unfold noteOf
  rw [← memory_prepare c]
  rfl

/-- The note is gone before anything is decided. -/
theorem noteOf_takeUpdateRequest (c : Chip) : noteOf (takeUpdateRequest c).1 = 0 :=
  c.memory.word_setWord_self 0 (timerAddr_bounds noteRegister).2

/-- The three things that keep the loader from starting an application. -/
theorem Decision.of_eq_start_iff {requested : Bool} {table : VectorTable} :
    Decision.of pin requested table = .start v
      ↔ pin ≠ .low ∧ requested = false ∧ table = v ∧ v.Valid := by
  rw [← v.isBootable_iff]
  unfold Decision.of
  by_cases hpin : pin = .low
  · simp [hpin]
  cases requested with
  | true => simp
  | false =>
    by_cases hvalid : table.isBootable = true
    · simp only [hpin, hvalid, decide_false, Bool.false_or, Bool.false_eq_true, if_false, if_true,
        Decision.start.injEq, ne_eq, not_false_eq_true, true_and]
      exact ⟨fun h => ⟨h, h ▸ hvalid⟩, fun h => h.1⟩
    · simp only [hpin, hvalid, decide_false, Bool.false_or, Bool.false_eq_true, if_false,
        reduceCtorEq, ne_eq, not_false_eq_true, true_and, false_iff, not_and]
      exact fun h => h ▸ hvalid

theorem exists_follow_eq_application_iff {decision : Decision} :
    (∃ c', follow c decision = .application c' v) ↔ decision = .start v := by
  cases decision <;> simp [follow]

/-- Whether an application is started, and which one. A pin that cannot be read counts as
    high. -/
theorem startUp_eq_application_iff :
    (∃ c', startUp c pin = .application c' v) ↔ pin ≠ .low ∧ noteOf c ≠ updateMagic
      ∧ VectorTable.inMemory c.memory appBase = v ∧ v.Valid := by
  rw [startUp_eq, exists_follow_eq_application_iff, Decision.of_eq_start_iff,
    inMemory_takeUpdateRequest, takeUpdateRequest_prepare, decide_eq_false_iff_not]

/-- An application is started on the chip that was handed over to it. -/
theorem chip_of_application (h : startUp c pin = .application c' v) :
    c' = handOver (takeUpdateRequest (prepare c)).1 v := by
  rw [startUp_eq] at h
  generalize Decision.of pin _ _ = decision at h
  cases decision <;> cases h
  rfl

/-- An application finds the vectors that it was started from. -/
theorem vectors_of_application (h : startUp c pin = .application c' v) :
    c'.memory.word vectorTableAddr = appBase := by
  rw [chip_of_application h]
  exact Memory.word_setWord_self _ appBase (by decide)

/-- What is done to interrupts leaves the note alone. -/
theorem noteOf_handOver (c : Chip) (v : VectorTable) : noteOf (handOver c v) = noteOf c := by
  have hnote : (timerAddr noteRegister).toNat = 0x4005800C := rfl
  have hpending : interruptClearPending.toNat = 0xE000E280 := rfl
  have henable : interruptClearEnable.toNat = 0xE000E180 := rfl
  have hvectors : vectorTableAddr.toNat = 0xE000ED08 := rfl
  have hsize : UInt32.size = 4294967296 := rfl
  have hapart : ∀ (m : Memory) (addr w : UInt32), 0xE0000000 ≤ addr.toNat →
      addr.toNat + 4 ≤ UInt32.size →
      (m.setWord addr w).word (timerAddr noteRegister) = m.word (timerAddr noteRegister) :=
    fun m addr w hlow hhigh => m.word_setWord_apart w hhigh (by omega) (by omega)
  unfold noteOf
  refine (hapart _ vectorTableAddr _ (by omega) (by omega)).trans ?_
  refine (hapart _ interruptClearEnable _ (by omega) (by omega)).trans ?_
  exact hapart _ interruptClearPending _ (by omega) (by omega)

/-- However a start ends, nothing is left of the note. -/
theorem noteOf_startUp (c : Chip) (pin : PinLevel) : noteOf (startUp c pin).chip = 0 := by
  cases h : startUp c pin with
  | application c' v =>
    show noteOf c' = 0
    rw [chip_of_application h, noteOf_handOver, noteOf_takeUpdateRequest]
  | updateMode c' =>
    exact (Rp2040.get_timerOf c'.memory noteRegister).symm.trans (note_of_updateMode h)

end start

/-! ### One start after the other -/

/-- What happens until the loader is started again. -/
structure Interlude where
  /-- What becomes of the chip, apart from the note. -/
  change : Chip → Chip
  /-- The note that the application leaves, if it leaves one. -/
  note : Option UInt32
  /-- The pin at the start. -/
  pin : PinLevel

/-- The chip at the next start. -/
def Interlude.lead (i : Interlude) (c : Chip) : Chip :=
  (i.change c).onMemory (Memory.setWord · (timerAddr noteRegister) (i.note.getD (noteOf c)))

/-- A start of the loader. -/
structure Start where
  chip : Chip
  pin : PinLevel

/-- How a start ends. -/
def Start.result (s : Start) : Started := startUp s.chip s.pin

/-- The starts that come of a chip, one after each interlude. -/
def starts (c : Chip) : List Interlude → List Start
  | [] => []
  | i :: rest => ⟨i.lead c, i.pin⟩ :: starts (startUp (i.lead c) i.pin).chip rest

/-- A note that is there before an interlude is found if the application leaves no other. -/
theorem noteOf_lead (i : Interlude) (c : Chip) : noteOf (i.lead c) = i.note.getD (noteOf c) :=
  (i.change c).memory.word_setWord_self _ (timerAddr_bounds noteRegister).2

/-- A start finds a request that was made since the start before, or, if it is the first one,
    a request that was there at the beginning. -/
theorem noteOf_starts_iff {c : Chip} {interludes : List Interlude} {k : Nat} {s : Start}
    {i : Interlude} (hs : (starts c interludes)[k]? = some s) (hi : interludes[k]? = some i) :
    noteOf s.chip = updateMagic
      ↔ i.note = some updateMagic ∨ k = 0 ∧ i.note = none ∧ noteOf c = updateMagic := by
  induction interludes generalizing c k with
  | nil => cases hi
  | cons first rest ih =>
    cases k with
    | zero =>
      obtain rfl := Option.some.inj hs
      obtain rfl := Option.some.inj hi
      show noteOf (first.lead c) = _ ↔ _
      rw [noteOf_lead]
      cases first.note <;> simp
    | succ k =>
      -- The start before has left no note.
      have hclear : noteOf (startUp (first.lead c) first.pin).chip ≠ updateMagic := by
        rw [noteOf_startUp]
        decide
      rw [ih hs hi]
      simp [hclear]

/-- No more starts find a request than requests were made. -/
theorem countP_noteOf_le (c : Chip) (interludes : List Interlude) :
    (starts c interludes).countP (noteOf ·.chip = updateMagic)
      ≤ interludes.countP (·.note = some updateMagic)
        + if noteOf c = updateMagic then 1 else 0 := by
  induction interludes generalizing c with
  | nil => exact Nat.zero_le _
  | cons i rest ih =>
    have hrest := ih (startUp (i.lead c) i.pin).chip
    rw [noteOf_startUp, if_neg (by decide)] at hrest
    have hfirst : noteOf (i.lead c) = updateMagic →
        i.note = some updateMagic ∨ noteOf c = updateMagic := by
      rw [noteOf_lead]
      cases i.note with
      | none => exact .inr
      | some w => exact fun h => .inl (congrArg some h)
    rw [starts, List.countP_cons, List.countP_cons]
    by_cases hfound : noteOf (i.lead c) = updateMagic
    · -- The request was made now, or it was there at the beginning.
      rw [if_pos (decide_eq_true hfound)]
      rcases hfirst hfound with hmade | hthere
      · rw [if_pos (decide_eq_true hmade)]
        omega
      · rw [if_pos hthere]
        omega
    · rw [if_neg (by simpa using hfound)]
      omega

/-- The vector table of the application is made of the first two words of its flash. -/
theorem inMemory_appBase_eq_iff {m : Memory} {v : VectorTable} :
    VectorTable.inMemory m appBase = v
      ↔ m.word 0x10010000 = v.stack ∧ m.word 0x10010004 = v.reset := by
  obtain ⟨stack, reset⟩ := v
  exact Iff.of_eq (VectorTable.mk.injEq _ _ _ _)

/-- From any chip, through any number of starts, between which the application may leave any
    note and the rest of the chip may change in any way. A start jumps to the application just
    if the pin is not low, no request was found and the first two words of its flash are a
    valid vector table; it enters with these words and the vectors are taken from there. Else
    it goes into update mode. In both cases the note, which is the scratch word at 0x4005800C,
    is gone then. So a request is found by the start that comes next after it was made,
    whatever the pin says then, and by none after that: no more starts find one than were
    made. -/
theorem note_holds_once (c : Chip) (interludes : List Interlude) :
    (∀ s ∈ starts c interludes,
      (∀ v, (∃ c', s.result = .application c' v) ↔ s.pin ≠ .low
          ∧ s.chip.memory.word 0x4005800C ≠ 0x0FDA7E00
          ∧ s.chip.memory.word 0x10010000 = v.stack ∧ s.chip.memory.word 0x10010004 = v.reset
          ∧ v.Valid)
        ∧ (∀ c' v, s.result = .application c' v → c'.memory.word 0xE000ED08 = 0x10010000)
        ∧ ((∃ c' v, s.result = .application c' v) ∨ ∃ c', s.result = .updateMode c')
        ∧ s.result.chip.memory.word 0x4005800C = 0)
      ∧ (∀ (k : Nat) (s : Start) (i : Interlude), (starts c interludes)[k]? = some s →
        interludes[k]? = some i →
        (s.chip.memory.word 0x4005800C = 0x0FDA7E00
          ↔ i.note = some 0x0FDA7E00
            ∨ k = 0 ∧ i.note = none ∧ c.memory.word 0x4005800C = 0x0FDA7E00))
      ∧ (starts c interludes).countP (fun s => s.chip.memory.word 0x4005800C = 0x0FDA7E00)
        ≤ interludes.countP (fun i => i.note = some 0x0FDA7E00)
          + if c.memory.word 0x4005800C = 0x0FDA7E00 then 1 else 0 := by
  refine ⟨fun s _ => ⟨fun v => ?_, fun c' v h => vectors_of_application h, ?_, noteOf_startUp _ _⟩,
    fun k s i hs hi => noteOf_starts_iff hs hi, countP_noteOf_le c interludes⟩
  · rw [← and_assoc (a := _ = v.stack), ← inMemory_appBase_eq_iff]
    exact startUp_eq_application_iff
  cases h : s.result with
  | application c' v => exact .inl ⟨c', v, rfl⟩
  | updateMode c' => exact .inr ⟨c', rfl⟩

/-- A chip with an application that was not used yet. -/
def shipped : Chip :=
  Chip.unused.onMemory fun m => (m.setWord 0x10010000 0x20042000).setWord 0x10010004 0x10010101

/-- A request is made, but the pin is low at the next start: it is lost there, and the
    start after that finds the application. A second request is found with the pin high. -/
theorem note_holds_once_shipped :
    ∃ s₀ s₁ s₂ s₃ : Start,
      starts shipped [⟨id, some 0x0FDA7E00, .low⟩, ⟨id, none, .high⟩, ⟨id, some 0x0FDA7E00, .high⟩,
        ⟨id, none, .high⟩] = [s₀, s₁, s₂, s₃]
      ∧ (∃ c', s₀.result = .updateMode c')
      ∧ (∃ c', s₁.result = .application c' ⟨0x20042000, 0x10010101⟩)
      ∧ (∃ c', s₂.result = .updateMode c')
      ∧ ∃ c', s₃.result = .application c' ⟨0x20042000, 0x10010101⟩ := by
  let interludes : List Interlude := [⟨id, some 0x0FDA7E00, .low⟩, ⟨id, none, .high⟩,
    ⟨id, some 0x0FDA7E00, .high⟩, ⟨id, none, .high⟩]
  obtain ⟨hall, hfound, -⟩ := note_holds_once shipped interludes
  have hvalid : VectorTable.Valid ⟨0x20042000, 0x10010101⟩ :=
    (VectorTable.isBootable_iff _).mp (by decide)
  refine ⟨_, _, _, _, rfl, ?_, ?_, ?_, ?_⟩
  · -- The pin is low.
    obtain ⟨happlication, -, hresult, -⟩ := hall _ (List.mem_of_getElem? (i := 0) rfl)
    exact hresult.resolve_left fun ⟨c', v, h⟩ => ((happlication v).mp ⟨c', h⟩).1 rfl
  · obtain ⟨happlication, -⟩ := hall _ (List.mem_of_getElem? (i := 1) rfl)
    exact (happlication _).mpr ⟨by decide, by decide +kernel, by decide +kernel, by decide +kernel,
      hvalid⟩
  · -- The second request is found.
    obtain ⟨happlication, -, hresult, -⟩ := hall _ (List.mem_of_getElem? (i := 2) rfl)
    have hnote := (hfound 2 _ _ rfl rfl).mpr (.inl rfl)
    exact hresult.resolve_left fun ⟨c', v, h⟩ => ((happlication v).mp ⟨c', h⟩).2.1 hnote
  · obtain ⟨happlication, -⟩ := hall _ (List.mem_of_getElem? (i := 3) rfl)
    exact (happlication _).mpr ⟨by decide, by decide +kernel, by decide +kernel, by decide +kernel,
      hvalid⟩

end Loader

end Reflash
