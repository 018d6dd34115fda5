import Reflash.Proofs.CallBounds
import Reflash.Proofs.ChipHistory
import Reflash.Proofs.LoaderUpload
/-! # The loader does not overwrite itself

  Whatever the host sends and whenever the interrupt comes, the loader erases whole
  sectors and programs whole pages of the flash that is left for applications, and stores
  bytes in the RAM that images may use. `Call.Keeps` says this of one call, and
  `keeps_plan` that every call of every job's plan is so: each range is checked before
  anything moves.

  The routines in ROM that change flash are called for one update after the other. Each
  leaves execute-in-place mode, erases, programs and flushes the cache, in this order.
-/

namespace Reflash

open Rp2040 (Chip Event)

/-! ### The routines in ROM -/

namespace Rp2040

/-- A routine in ROM begins, ends or makes a change of flash. -/
def Event.isRoutine : Event → Bool
  | .exitXip | .eraseFlash .. | .programFlash .. | .flushCache => true
  | _ => false

/-- What an update asks the routines to erase. -/
def eraseRoutine (range : EraseRange) : List Event :=
  if range.len = 0 then []
  else [.eraseFlash (Chip.flashOffset range.addr) range.len eraseSize Chip.sectorErase]

/-- What an update asks the routines to program. -/
def programRoutine (addr : UInt32) (bytes : Bytes) : List Event :=
  if bytes.isEmpty then [] else [.programFlash (Chip.flashOffset addr) bytes]

/-- The routines that change flash in an update: erasing comes before programming. -/
def changeRoutines (update : FlashUpdate) : List Event :=
  update.erase.elim [] eraseRoutine
    ++ update.program.elim [] fun page => programRoutine page.1 page.2

/-- The routines that are called for an update of flash, in order. -/
def routines (update : FlashUpdate) : List Event :=
  .exitXip :: changeRoutines update ++ [.flushCache]

end Rp2040

/-- The update of flash that a call asks for. -/
def Call.update? : Call → Option FlashUpdate
  | .updateFlash update => some update
  | _ => none

namespace Rp2040.Chip

variable (c : Chip)

theorem log_eraseFlash (range : EraseRange) :
    (c.eraseFlash (flashOffset range.addr) range.len).log
      = (eraseRoutine range).reverse ++ c.log := by
  unfold eraseFlash eraseRoutine
  split <;> rfl

theorem log_programFlash (addr : UInt32) (bytes : Bytes) :
    (c.programFlash (flashOffset addr) bytes).log
      = (programRoutine addr bytes).reverse ++ c.log := by
  unfold programFlash programRoutine
  split <;> rfl

/-- Between the first routine of an update and the last one stand those that erase and
    program. -/
theorem mem_routines {update : FlashUpdate} {e : Event} (h : e ∈ routines update) :
    e = .exitXip ∨ e = .flushCache
      ∨ (∃ range ∈ update.erase,
          e = .eraseFlash (flashOffset range.addr) range.len eraseSize sectorErase)
      ∨ ∃ page ∈ update.program, page.2 ≠ [] ∧ e = .programFlash (flashOffset page.1) page.2 := by
  obtain ⟨erase, program⟩ := update
  rcases List.mem_append.mp h with hbefore | hflush
  · rcases List.mem_cons.mp hbefore with hexit | hchange
    · exact .inl hexit
    · rcases List.mem_append.mp hchange with herase | hprogram
      · cases erase with
        | none => cases herase
        | some range =>
          simp only [eraseRoutine, Option.elim] at herase
          split at herase
          · cases herase
          · exact .inr (.inr (.inl ⟨range, rfl, List.mem_singleton.mp herase⟩))
      · cases program with
        | none => cases hprogram
        | some page =>
          simp only [programRoutine, Option.elim] at hprogram
          split at hprogram
          · cases hprogram
          · rename_i hbytes
            exact .inr (.inr (.inr ⟨page, rfl, fun hempty => hbytes (List.isEmpty_iff.mpr hempty),
              List.mem_singleton.mp hprogram⟩))
  · exact .inr (.inl (List.mem_singleton.mp hflush))

theorem filter_routines (update : FlashUpdate) :
    (routines update).filter Event.isRoutine = routines update := by
  rw [List.filter_eq_self]
  intro e he
  rcases mem_routines he with rfl | rfl | ⟨_, _, rfl⟩ | ⟨_, _, _, rfl⟩ <;> rfl

/-- An update leaves its routines in the log, with interrupts off. -/
theorem log_updateFlash (update : FlashUpdate) :
    (c.updateFlash update).log
      = ([Event.interruptsOff, Event.connectFlash] ++ routines update
          ++ [Event.enterXip, Event.interruptsOn]).reverse ++ c.log := by
  obtain ⟨erase, program⟩ := update
  cases erase <;> cases program <;>
    simp [updateFlash, disableCache, onMemory, record, routines, changeRoutines, log_eraseFlash,
      log_programFlash]

/-- A call leaves the routines of its update in the log. -/
theorem log_perform (call : Call) :
    ∃ events : List Event, (Machine.perform c call).log = events.reverse ++ c.log
      ∧ events.filter Event.isRoutine = call.update?.elim [] routines := by
  cases call with
  | read | writeRam | complete => exact ⟨[], rfl, rfl⟩
  | exec entry => exact ⟨[.log _, .exec entry], rfl, rfl⟩
  | eject => exact ⟨[.log _], rfl, rfl⟩
  | reboot request => exact ⟨[.log _], rfl, rfl⟩
  | updateFlash update =>
    refine ⟨_, c.log_updateFlash update, ?_⟩
    rw [List.filter_append, List.filter_append, filter_routines]
    exact List.append_nil _

end Rp2040.Chip

/-! ### Calls that keep to the memory of images -/

/-- Whole sectors of the flash of applications. -/
structure EraseRange.Keeps (range : EraseRange) : Prop where
  low : 0x10010000 ≤ range.addr.toNat
  high : range.addr.toNat + range.len.toNat ≤ 0x11000000
  addr : range.addr.toNat % 4096 = 0
  len : range.len.toNat % 4096 = 0

/-- A page of the flash of applications, or nothing. -/
structure KeepsPage (addr : UInt32) (bytes : Bytes) : Prop where
  low : 0x10010000 ≤ addr.toNat
  high : addr.toNat + bytes.length ≤ 0x11000000
  addr : addr.toNat % 256 = 0
  page : bytes = [] ∨ bytes.length = 256

/-- A call changes no other memory than that of images. -/
def Call.Keeps : Call → Prop
  | .writeRam addr bytes => 0x20000000 ≤ addr.toNat ∧ addr.toNat + bytes.length ≤ 0x20030000
  | .updateFlash update =>
    (∀ range ∈ update.erase, range.Keeps) ∧ ∀ page ∈ update.program, KeepsPage page.1 page.2
  | _ => True

/-- A routine that erases or programs gets whole sectors or a page, behind the loader's
    flash and before the end of flash. -/
def Rp2040.Event.Keeps : Event → Prop
  | .eraseFlash offset len _ _ => offset.toNat % 4096 = 0 ∧ len.toNat % 4096 = 0
      ∧ 0x10000 ≤ offset.toNat ∧ offset.toNat + len.toNat ≤ 0x1000000
  | .programFlash offset bytes => bytes.length = 256 ∧ offset.toNat % 256 = 0
      ∧ 0x10000 ≤ offset.toNat ∧ offset.toNat + 256 ≤ 0x1000000
  | _ => True

namespace Loader

open Rp2040 (ramBase ramSize cacheRegion)

variable {addr : UInt32} {n : Nat}

/-- No region of the loader goes beyond the last address. -/
theorem bounded_map : map.Bounded := by decide

/-- All flash of the loader's map is that of applications. -/
theorem flash_bounds (h : map.HasIn .flash addr n) :
    0x10010000 ≤ addr.toNat ∧ addr.toNat + n ≤ 0x11000000 := by
  obtain ⟨r, hr, hkind, hrange⟩ := h
  have hflash : r = appRegion :=
    wellFormed_map.oneFlash r hr appRegion (by decide) hkind rfl
  rw [hflash] at hrange
  exact ⟨(Region.contains_iff.mp hrange.start).1, hrange.stop⟩

/-- All RAM of the loader's map is that of images. -/
theorem ram_bounds (h : map.HasIn .ram addr n) :
    0x20000000 ≤ addr.toNat ∧ addr.toNat + n ≤ 0x20030000 := by
  obtain ⟨r, hr, hkind, hrange⟩ := h
  have hall : ∀ r ∈ map, r.kind = .ram → r = imageRamRegion := by decide
  rw [hall r hr hkind] at hrange
  exact ⟨(Region.contains_iff.mp hrange.start).1, hrange.stop⟩

/-- A call that is in bounds keeps to the memory of images. -/
theorem keeps_of_inBounds {job : Job} {call : Call} (h : call.InBounds map job) : call.Keeps := by
  cases call with
  | read | exec | eject => trivial
  | reboot | complete => exact h.elim
  | writeRam addr bytes => exact ram_bounds h.inRam
  | updateFlash update =>
    obtain ⟨-, herase, hprogram⟩ := h
    refine ⟨fun range hrange => ?_, fun page hpage => ?_⟩
    · have hrange := herase range hrange
      obtain ⟨hlow, hhigh⟩ := flash_bounds hrange.inFlash
      exact ⟨hlow, hhigh, hrange.addr, hrange.len⟩
    · have hpage := hprogram page hpage
      obtain ⟨hlow, hhigh⟩ := flash_bounds hpage.inFlash
      have hlength : page.2.length ≤ 256 := by
        rw [hpage.bytes, List.length_take]
        exact Nat.le_trans (Nat.min_le_left _ _) hpage.inPage
      have hmod := hpage.length
      refine ⟨hlow, hhigh, hpage.addr, ?_⟩
      rw [← List.length_eq_zero_iff]
      omega

/-- Every call that a job leads to keeps to the memory of images. -/
theorem keeps_plan (job : Job) (rebooting : Bool) (lastWriter : Option Channel) :
    ∀ call ∈ (job.plan map rebooting lastWriter).calls, call.Keeps := by
  intro call hcall
  exact keeps_of_inBounds (Job.inBounds_plan bounded_map job rebooting lastWriter call hcall)

/-! ### The loader's own memory -/

/-- The RAM that the loader keeps for itself. -/
def loaderRamRegion : Region := ⟨.ram, ramBase + imageRamSize, ramSize - imageRamSize⟩

/-- The loader uses an address itself: for its code, its data, or the sets of an upload. -/
def IsLoaderAddr (a : UInt32) : Prop :=
  loaderRegion.contains a = true ∨ loaderRamRegion.contains a = true
    ∨ cacheRegion.contains a = true

variable {a : UInt32} {c : Chip} {call : Call}

theorem IsLoaderAddr.bounds (h : IsLoaderAddr a) :
    0x10000000 ≤ a.toNat ∧ a.toNat < 0x10010000 ∨ 0x20030000 ≤ a.toNat ∧ a.toNat < 0x20042000
      ∨ 0x15000000 ≤ a.toNat ∧ a.toNat < 0x15004000 := by
  rcases h with hflash | hram | hcache
  · exact .inl (Region.contains_iff.mp hflash)
  · exact .inr (.inl (Region.contains_iff.mp hram))
  · exact .inr (.inr (Region.contains_iff.mp hcache))

/-- A call that keeps to the memory of images leaves all other bytes alone, but for the
    registers that it is about. -/
theorem byte_perform_of_keeps (hcall : call.Keeps) (hother : ¬ IsImageAddr a) (hcache : OffCache a)
    (hreset : call.isReboot = true → a.toNat < 0x40000000) :
    (Machine.perform c call).memory.byte a = c.memory.byte a := by
  rw [isImageAddr_iff] at hother
  have hsize : UInt32.size = 4294967296 := rfl
  cases call with
  | read | exec | eject | complete => rfl
  | reboot request => exact c.byte_armReset (hreset rfl) request
  | writeRam addr bytes =>
    obtain ⟨hlow, hhigh⟩ := hcall
    refine (c.memory.byte_store a (by omega)).trans (if_neg ?_)
    omega
  | updateFlash update =>
    obtain ⟨erase, program⟩ := update
    obtain ⟨herase, hprogram⟩ := hcall
    refine (c.byte_updateFlash hcache _).trans ?_
    have herased : ∀ range ∈ erase, (c.memory.erase range.addr range.len).byte a
        = c.memory.byte a := by
      intro range hrange
      have hkeeps := herase range hrange
      have hlow := hkeeps.low
      have hhigh := hkeeps.high
      refine (c.memory.byte_erase a (by omega)).trans (if_neg ?_)
      omega
    have hprogrammed : ∀ (m : Memory), ∀ page ∈ program, (m.program page.1 page.2).byte a
        = m.byte a := by
      intro m page hpage
      have hkeeps := hprogram page hpage
      have hlow := hkeeps.low
      have hhigh := hkeeps.high
      refine (m.byte_program a (by omega)).trans (if_neg ?_)
      omega
    cases erase with
    | none =>
      cases program with
      | none => rfl
      | some page => exact hprogrammed c.memory page rfl
    | some range =>
      cases program with
      | none => exact herased range rfl
      | some page =>
        exact (hprogrammed (c.memory.erase range.addr range.len) page rfl).trans (herased range rfl)

/-! ### What a run leaves alone -/

/-- What the loader has made of a chip since it was started on it: it made calls that keep
    to the memory of images, and the log got the routines of their updates. -/
structure Contained (c : Chip) (l : Logged Chip) : Prop where
  calls : ∀ call ∈ l.calls, call.Keeps
  routines : ∃ events : List Event, l.machine.log = events.reverse ++ c.log
    ∧ events.filter Event.isRoutine
      = (l.calls.reverse.filterMap Call.update?).flatMap Rp2040.routines
  memory : ∀ a, IsLoaderAddr a → l.machine.memory.byte a = c.memory.byte a

variable {l l' : Logged Chip}

theorem Contained.perform (h : Contained c l) (hcall : call.Keeps) :
    Contained c (Machine.perform l call) := by
  obtain ⟨events, hlog, hroutines⟩ := h.routines
  obtain ⟨more, hmore, hupdate⟩ := l.machine.log_perform call
  refine ⟨?_, ⟨events ++ more, ?_, ?_⟩, fun a ha => ?_⟩
  · intro made hmade
    rcases List.mem_cons.mp hmade with rfl | hbefore
    · exact hcall
    · exact h.calls made hbefore
  · rw [Logged.machine_perform, hmore, hlog, List.reverse_append, List.append_assoc]
  · rw [Logged.calls_perform, List.reverse_cons, List.filterMap_append, List.flatMap_append,
      List.filter_append, hroutines, hupdate]
    cases hasked : call.update? <;> simp [hasked]
  · have hbounds := ha.bounds
    have hother : ¬ IsImageAddr a := by
      rw [isImageAddr_iff]
      omega
    have hcache : OffCache a := by
      unfold OffCache
      omega
    rw [Logged.machine_perform, byte_perform_of_keeps hcall hother hcache fun _ => by omega,
      h.memory a ha]

theorem Contained.performAll {calls : List Call} (h : Contained c l)
    (hcalls : ∀ call ∈ calls, call.Keeps) : Contained c (Machine.performAll l calls) := by
  induction calls generalizing l with
  | nil => exact h
  | cons call calls ih =>
    exact ih (h.perform (hcalls call List.mem_cons_self))
      fun later hlater => hcalls later (List.mem_cons_of_mem _ hlater)

/-- Nothing that the loader does to the chip leads out of this. -/
theorem Contained.step (h : Contained c l) (hstep : ChipStep map l l') : Contained c l' := by
  cases hstep with
  | noted note =>
    obtain ⟨events, hlog, hroutines⟩ := h.routines
    refine ⟨h.calls, ⟨events ++ [.warn note.text], ?_, ?_⟩, h.memory⟩
    · rw [List.reverse_append]
      exact congrArg (Event.warn note.text :: ·) hlog
    · rw [List.filter_append, hroutines]
      exact List.append_nil _
  | armed request => exact h.perform (show (Call.reboot request).Keeps from trivial)
  | rebooted request => exact h.perform trivial
  | carriedOut job rebooting lastWriter => exact h.performAll (keeps_plan job rebooting lastWriter)

theorem Contained.run (h : Contained c l) (hrun : ChipRun map l l') : Contained c l' := by
  induction hrun with
  | refl => exact h
  | tail _ hstep ih => exact ih.step hstep

theorem contained_new (c : Chip) : Contained c (Logged.new c) := by
  refine ⟨?_, ⟨[], rfl, rfl⟩, fun _ _ => rfl⟩
  intro call hcall
  cases hcall

/-- An address of flash that keeps to its place has an offset. -/
theorem minus_flashBase {addr : UInt32} (h : 0x10010000 ≤ addr.toNat) :
    Word.minus addr Rp2040.flashBase = .ok (Chip.flashOffset addr)
      ∧ (Chip.flashOffset addr).toNat = addr.toNat - 0x10000000 := by
  have hle : Rp2040.flashBase ≤ addr := by
    rw [UInt32.le_iff_toNat_le]
    exact Nat.le_trans (by decide) h
  exact ⟨Word.minus_eq_ok hle, UInt32.toNat_sub_of_le _ _ hle⟩

/-- The routines get offsets that keep to the flash of applications. -/
theorem keeps_routines {update : FlashUpdate} (h : (Call.updateFlash update).Keeps) :
    ∀ e ∈ Rp2040.routines update, e.Keeps := by
  intro e he
  rcases Chip.mem_routines he with rfl | rfl | ⟨range, hrange, rfl⟩ | ⟨page, hpage, hbytes, rfl⟩
  · trivial
  · trivial
  · have hkeeps := h.1 range hrange
    obtain ⟨-, hoffset⟩ := minus_flashBase hkeeps.low
    obtain ⟨hlow, hhigh, haddr, hlen⟩ := hkeeps
    exact ⟨by omega, hlen, by omega, by omega⟩
  · have hkeeps := h.2 page hpage
    obtain ⟨-, hoffset⟩ := minus_flashBase hkeeps.low
    have hlength := hkeeps.page.resolve_left hbytes
    obtain ⟨hlow, hhigh, haddr, -⟩ := hkeeps
    exact ⟨hlength, by omega, by omega, by omega⟩

/-- Whatever bytes come in, in whatever packets, and wherever the interrupt comes, the
    loader does not overwrite itself. It stores bytes in the RAM of images, and the
    addresses of flash that it gives to the routines in ROM have offsets. Between any two
    routines of one update there is no routine of another one; each update leaves
    execute-in-place mode, erases, programs and flushes the cache, in this order. What is
    erased are whole sectors of the flash of applications, and what is programmed is a
    page. So the loader's code, its RAM and the sets of an upload are as before.

    The chip only notes that code was called for the host. What that code does is not
    looked at here. -/
theorem Attended.keeps_to_images (c : Chip) (script : List WriteResult) (actions : List Action) :
    ∃ w, Attended.run ⟨started c script, .away, []⟩ actions = .ok w
      ∧ (∀ addr bytes, .writeRam addr bytes ∈ w.service.chip.calls →
          0x20000000 ≤ addr.toNat ∧ addr.toNat + bytes.length ≤ 0x20030000)
      ∧ (∀ update, .updateFlash update ∈ w.service.chip.calls →
          (∀ range ∈ update.erase,
            Word.minus range.addr Rp2040.flashBase = .ok (Chip.flashOffset range.addr))
          ∧ ∀ page ∈ update.program,
            Word.minus page.1 Rp2040.flashBase = .ok (Chip.flashOffset page.1))
      ∧ (∃ events : List Event, w.service.chip.machine.log = events.reverse ++ c.log
          ∧ events.filter Event.isRoutine
            = (w.service.chip.calls.reverse.filterMap Call.update?).flatMap Rp2040.routines
          ∧ (∀ offset len block command, .eraseFlash offset len block command ∈ events →
              offset.toNat % 4096 = 0 ∧ len.toNat % 4096 = 0
                ∧ 0x10000 ≤ offset.toNat ∧ offset.toNat + len.toNat ≤ 0x1000000)
          ∧ ∀ offset bytes, .programFlash offset bytes ∈ events →
              bytes.length = 256 ∧ offset.toNat % 256 = 0
                ∧ 0x10000 ≤ offset.toNat ∧ offset.toNat + 256 ≤ 0x1000000)
      ∧ ∀ a, IsLoaderAddr a → w.service.chip.machine.memory.byte a = c.memory.byte a := by
  let w₀ : Attended (Logged Chip) := ⟨started c script, .away, []⟩
  have hstart : w₀.Runs config := ⟨Upload.sound_reset (startUpload c), rfl⟩
  obtain ⟨w, hrun, -, hchip⟩ := run_chip hstart actions
  have hw : Contained c w.service.chip := (contained_new c).run hchip
  obtain ⟨events, hlog, hroutines⟩ := hw.routines
  -- Each routine in the log is one of an update that was called for.
  have hevents : ∀ e ∈ events, e.isRoutine = true → e.Keeps := by
    intro e he hroutine
    have hmem := List.mem_filter.mpr ⟨he, hroutine⟩
    rw [hroutines, List.mem_flatMap] at hmem
    obtain ⟨update, hupdate, hmem⟩ := hmem
    obtain ⟨call, hcall, hasked⟩ := List.mem_filterMap.mp hupdate
    have hkeeps := hw.calls call (List.mem_reverse.mp hcall)
    cases call with
    | updateFlash =>
      cases hasked
      exact keeps_routines hkeeps e hmem
    | _ => cases hasked
  refine ⟨w, hrun, fun addr bytes hcall => hw.calls _ hcall, fun update hcall => ?_,
    ⟨events, hlog, hroutines, fun _ _ _ _ he => hevents _ he rfl, fun _ _ he => hevents _ he rfl⟩,
    hw.memory⟩
  obtain ⟨herase, hprogram⟩ := hw.calls _ hcall
  exact ⟨fun range hrange => (minus_flashBase (herase range hrange).low).1,
    fun page hpage => (minus_flashBase (hprogram page hpage).low).1⟩

end Loader

end Reflash
