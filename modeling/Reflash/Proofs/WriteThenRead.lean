import Mathlib
import Reflash.Proofs.Chunks
import Reflash.Proofs.EndToEnd
import Reflash.Proofs.LoaderMemory
/-! # What was written is read again

  The tool writes a file to the RAM that images may use, or to the flash of applications
  after that was erased, and then reads the same range. Each run goes through in chunks
  of a page, over a line that loses nothing, to a loader that has just been started. What
  is read is the file, and no other byte of RAM or flash has changed.

  What the tool says is in `Chunks`, that the loader answers as a flat memory does in
  `LoaderMemory`. What is left are the chunks: each of them lies where the loader lets it
  be written, and one behind the other they are the file.
-/

namespace Reflash

/-! ### Runs of bytes -/

/-- Behind a run that does not reach the last address the addresses go on. -/
theorem toNat_next {addr : UInt32} {n : Nat} (hfits : addr.toNat + n < UInt32.size) :
    (addr + UInt32.ofNat n).toNat = addr.toNat + n :=
  Memory.toNat_add_ofNat (Nat.succ_le_of_lt hfits) (Nat.lt_succ_self n)

namespace FlatMemory

variable {m : FlatMemory} {addr a : UInt32} {bytes xs ys : Bytes} {inRam : Bool}

/-- Memory after bytes were written: to RAM, or to flash. -/
def put (m : FlatMemory) (inRam : Bool) (addr : UInt32) (bytes : Bytes) : FlatMemory :=
  if inRam then m.store addr bytes else m.program addr bytes

/-- The byte that comes of the one before and the one that is written. -/
def blend (inRam : Bool) (old new : UInt8) : UInt8 := if inRam then new else old &&& new

theorem put_apply (m : FlatMemory) (inRam : Bool) (addr : UInt32) (bytes : Bytes) (a : UInt32) :
    m.put inRam addr bytes a =
      if addr.toNat ≤ a.toNat ∧ a.toNat < addr.toNat + bytes.length
      then blend inRam (m a) (bytes.getD (a.toNat - addr.toNat) 0) else m a := by
  cases inRam <;> rfl

theorem put_nil : m.put inRam addr [] = m := by
  funext a
  rw [put_apply, if_neg]
  rw [List.length_nil]
  omega

/-- Two runs that lie one behind the other are one. -/
theorem put_append (hfits : addr.toNat + (xs ++ ys).length < UInt32.size) :
    (m.put inRam addr xs).put inRam (addr + UInt32.ofNat xs.length) ys
      = m.put inRam addr (xs ++ ys) := by
  funext a
  rw [List.length_append] at hfits
  have hnext : (addr + UInt32.ofNat xs.length).toNat = addr.toNat + xs.length :=
    toNat_next (by omega)
  rw [put_apply, put_apply, put_apply, hnext, List.length_append]
  by_cases hbefore : a.toNat < addr.toNat + xs.length
  · -- The address is not in the second run.
    rw [if_neg (by omega)]
    by_cases hlow : addr.toNat ≤ a.toNat
    · rw [if_pos ⟨hlow, hbefore⟩, if_pos (by omega), List.getD_append _ _ _ _ (by omega)]
    · rw [if_neg (by omega), if_neg (by omega)]
  · rw [if_neg (by omega : ¬ (addr.toNat ≤ a.toNat ∧ a.toNat < addr.toNat + xs.length))]
    by_cases hhigh : a.toNat < addr.toNat + xs.length + ys.length
    · rw [if_pos (by omega), if_pos (by omega), List.getD_append_right _ _ _ _ (by omega),
        Nat.sub_sub]
    · rw [if_neg (by omega), if_neg (by omega)]

/-- Some bytes are read from where each of them is. -/
theorem load_eq_iff (hfits : addr.toNat + bytes.length < UInt32.size) :
    m.load addr (UInt32.ofNat bytes.length) = bytes
      ↔ ∀ a : UInt32, addr.toNat ≤ a.toNat → a.toNat < addr.toNat + bytes.length →
        m a = bytes.getD (a.toNat - addr.toNat) 0 := by
  have hlen : (UInt32.ofNat bytes.length).toNat = bytes.length :=
    UInt32.toNat_ofNat_of_lt' (Nat.lt_of_le_of_lt (Nat.le_add_left _ _) hfits)
  have hthere : ∀ k < bytes.length, (addr + UInt32.ofNat k).toNat = addr.toNat + k :=
    fun k hk => Memory.toNat_add_ofNat (Nat.le_of_lt hfits) hk
  unfold load
  rw [hlen]
  constructor
  · -- Each address of the range is as far from its start as its byte is in the list.
    intro hload a hlow hhigh
    have hk : a.toNat - addr.toNat < bytes.length := by omega
    have ha : addr + UInt32.ofNat (a.toNat - addr.toNat) = a := by
      rw [← UInt32.toNat_inj, hthere _ hk]
      omega
    rw [← hload, List.getD_eq_getElem _ _ (by simpa using hk)]
    simp [ha]
  · intro h
    refine List.ext_getElem (by simp) fun k hk hk' => ?_
    rw [List.getElem_map, List.getElem_range, h _ (by rw [hthere k hk']; omega)
      (by rw [hthere k hk']; omega), hthere k hk', Nat.add_sub_cancel_left,
      List.getD_eq_getElem _ _ hk']

/-- Two runs are there if the whole of them is. -/
theorem load_append (hfits : addr.toNat + (xs ++ ys).length < UInt32.size)
    (h : m.load addr (UInt32.ofNat (xs ++ ys).length) = xs ++ ys) :
    m.load addr (UInt32.ofNat xs.length) = xs
      ∧ m.load (addr + UInt32.ofNat xs.length) (UInt32.ofNat ys.length) = ys := by
  rw [load_eq_iff hfits] at h
  rw [List.length_append] at hfits h
  have hnext : (addr + UInt32.ofNat xs.length).toNat = addr.toNat + xs.length :=
    toNat_next (by omega)
  rw [load_eq_iff (by omega), load_eq_iff (by omega), hnext]
  constructor
  · intro a hlow hhigh
    rw [h a hlow (by omega), List.getD_append _ _ _ _ (by omega)]
  · intro a hlow hhigh
    rw [h a (by omega) (by omega), List.getD_append_right _ _ _ _ (by omega), Nat.sub_sub]

/-- To RAM, and to flash that was erased, bytes are written as they are. -/
theorem put_eq_store (hblank : inRam = false → ∀ a : UInt32, addr.toNat ≤ a.toNat →
    a.toNat < addr.toNat + bytes.length → m a = 0xFF) :
    m.put inRam addr bytes = m.store addr bytes := by
  cases inRam with
  | true => rfl
  | false =>
    funext a
    show m.program addr bytes a = m.store addr bytes a
    unfold program store
    by_cases hrange : addr.toNat ≤ a.toNat ∧ a.toNat < addr.toNat + bytes.length
    · rw [if_pos hrange, if_pos hrange, hblank rfl a hrange.1 hrange.2]
      exact UInt8.neg_one_and
    · rw [if_neg hrange, if_neg hrange]

/-- What was stored is there. -/
theorem load_store (hfits : addr.toNat + bytes.length < UInt32.size) :
    (m.store addr bytes).load addr (UInt32.ofNat bytes.length) = bytes := by
  rw [load_eq_iff hfits]
  exact fun a hlow hhigh => if_pos ⟨hlow, hhigh⟩

theorem store_congr {m' : FlatMemory} (h : m a = m' a) :
    m.store addr bytes a = m'.store addr bytes a := by
  unfold store
  rw [h]

end FlatMemory

/-! ### Where the chunks lie -/

/-- Pieces of a list are whole if the list is made of them. -/
theorem length_mod_of_mem_pieces {α : Type} {n : Nat} (hn : 0 < n) {xs piece : List α}
    (hwhole : xs.length % n = 0) (h : piece ∈ pieces n xs) : piece.length % n = 0 := by
  induction xs using pieces.induct n with
  | case1 => simp [pieces] at h
  | case2 a rest ih =>
    rw [pieces] at h
    have hdvd : n ∣ rest.length + 1 := Nat.dvd_of_mod_eq_zero hwhole
    have hle : n ≤ rest.length + 1 := Nat.le_of_dvd (Nat.succ_pos _) hdvd
    rcases List.mem_cons.mp h with rfl | h
    · have hpiece : (a :: rest.take (n - 1)).length = n := by
        rw [List.length_cons, List.length_take]
        omega
      rw [hpiece, Nat.mod_self]
    · -- What is left is shorter by one whole piece.
      refine ih ?_ h
      have hlater : (rest.drop (n - 1)).length = rest.length + 1 - n := by
        rw [List.length_drop]
        omega
      rw [hlater]
      exact Nat.mod_eq_zero_of_dvd (Nat.dvd_sub hdvd (Nat.dvd_refl n))

namespace MemoryRequest

variable {addr : UInt32} {chunk : Bytes}

/-- A request for a page at most is not long. -/
theorem isLong_write (h : chunk.length ≤ 256) : (MemoryRequest.write addr chunk).isLong = false :=
  decide_eq_false (Nat.not_lt.mpr h)

theorem isLong_readOf (h : chunk.length ≤ 256) : (readOf addr chunk).isLong = false := by
  refine decide_eq_false (Nat.not_lt.mpr ?_)
  rwa [toNat_length h]

theorem isLong_each {request : UInt32 → Bytes → MemoryRequest} {chunks : List Bytes}
    (h : ∀ a, ∀ chunk ∈ chunks, (request a chunk).isLong = false) :
    ∀ r ∈ each request addr chunks, r.isLong = false := by
  induction chunks generalizing addr with
  | nil => nofun
  | cons chunk rest ih =>
    intro r hr
    rcases List.mem_cons.mp hr with rfl | hr
    · exact h addr chunk List.mem_cons_self
    · exact ih (fun a later hlater => h a later (List.mem_cons_of_mem _ hlater)) r hr

end MemoryRequest

namespace Loader

open Rp2040 (Chip)

/-- Chunks, one behind the other, that the loader lets be written: in RAM they are up to a
    page long, in flash they are pages. -/
structure Placed (inRam : Bool) (addr : UInt32) (chunks : List Bytes) : Prop where
  low : (imageRegion inRam).base.toNat ≤ addr.toNat
  high : addr.toNat + chunks.flatten.length ≤ (imageRegion inRam).stop
  filled : ∀ chunk ∈ chunks, chunk ≠ []
  short : ∀ chunk ∈ chunks, chunk.length ≤ 256
  addrWhole : inRam = false → addr.toNat % 256 = 0
  chunkWhole : inRam = false → ∀ chunk ∈ chunks, chunk.length % 256 = 0

/-- A file that lies in one region is written in such chunks. -/
theorem placed_pieces {inRam : Bool} {addr : UInt32} {file : Bytes}
    (hlow : (imageRegion inRam).base.toNat ≤ addr.toNat)
    (hhigh : addr.toNat + file.length ≤ (imageRegion inRam).stop)
    (hpages : inRam = false → addr.toNat % 256 = 0 ∧ file.length % 256 = 0) :
    Placed inRam addr (pieces maxTransfer file) :=
  ⟨hlow, by rwa [flatten_pieces], fun _ h => ne_nil_of_mem_pieces h,
    fun _ h => length_le_of_mem_pieces (by decide) h, fun hflash => (hpages hflash).1,
    fun hflash _ h => length_mod_of_mem_pieces (by decide) (hpages hflash).2 h⟩

namespace Placed

variable {inRam : Bool} {addr : UInt32} {chunk : Bytes} {chunks rest : List Bytes}
  {m : FlatMemory}

/-- No chunk reaches the last address. -/
theorem fits (h : Placed inRam addr chunks) :
    addr.toNat + chunks.flatten.length < UInt32.size := by
  have hstop : (imageRegion inRam).stop < UInt32.size := by
    cases inRam <;> decide
  exact Nat.lt_of_le_of_lt h.high hstop

theorem has (h : Placed inRam addr (chunk :: rest)) :
    (imageRegion inRam).Has addr chunk.length := by
  have hpos : 0 < chunk.length := List.length_pos_iff.mpr (h.filled chunk List.mem_cons_self)
  have hhigh := h.high
  rw [List.flatten_cons, List.length_append] at hhigh
  refine ⟨Region.contains_iff.mpr ⟨h.low, ?_⟩, by omega⟩
  show addr.toNat < (imageRegion inRam).stop
  omega

/-- The chunks behind the first one lie so, too. -/
theorem tail (h : Placed inRam addr (chunk :: rest)) :
    Placed inRam (addr + UInt32.ofNat chunk.length) rest := by
  have hfits := h.fits
  have hhigh := h.high
  rw [List.flatten_cons, List.length_append] at hfits hhigh
  have hnext : (addr + UInt32.ofNat chunk.length).toNat = addr.toNat + chunk.length :=
    toNat_next (by omega)
  -- A page behind the start of a page there is the start of a page.
  refine ⟨?_, ?_, fun c hc => h.filled c (List.mem_cons_of_mem _ hc),
    fun c hc => h.short c (List.mem_cons_of_mem _ hc), fun hflash => ?_,
    fun hflash c hc => h.chunkWhole hflash c (List.mem_cons_of_mem _ hc)⟩
  · rw [hnext]
    exact Nat.le_trans h.low (Nat.le_add_right _ _)
  · rw [hnext]
    omega
  · have haddr := h.addrWhole hflash
    have hchunk := h.chunkWhole hflash chunk List.mem_cons_self
    rw [hnext]
    omega

/-- The first chunk belongs into RAM just when all of them are to go there. -/
theorem hasIn_ram_iff (h : Placed inRam addr (chunk :: rest)) :
    map.HasIn .ram addr chunk.length ↔ inRam = true := by
  have hlow := h.low
  have hhas := h.has
  cases inRam with
  | true => exact iff_of_true ⟨imageRegion true, by decide, rfl, hhas⟩ rfl
  | false =>
    refine iff_of_false (fun hram => ?_) Bool.false_ne_true
    have hflash : (imageRegion false).stop = 0x11000000 := rfl
    have hstop := hhas.stop
    have hbounds := ram_bounds hram
    omega

/-- The first chunk is written. -/
theorem write (h : Placed inRam addr (chunk :: rest)) (m : FlatMemory) :
    (MemoryRequest.write addr chunk).status map = .ok
      ∧ m.after map (.write addr chunk) = m.put inRam addr chunk := by
  have hram := h.hasIn_ram_iff
  have hstatus : (MemoryRequest.write addr chunk).status map = .ok := by
    unfold MemoryRequest.status
    cases inRam with
    | true => exact if_pos (hram.mpr rfl)
    | false =>
      have hflash : map.HasIn .flash addr chunk.length := ⟨imageRegion false, by decide, rfl, h.has⟩
      have hpages := h.chunkWhole rfl chunk List.mem_cons_self
      simp only [hram, Bool.false_eq_true, if_false, if_pos hflash]
      exact if_pos ⟨h.addrWhole rfl, hpages⟩
  have hshort : (MemoryRequest.write addr chunk).isLong = false :=
    MemoryRequest.isLong_write (h.short chunk List.mem_cons_self)
  refine ⟨hstatus, ?_⟩
  unfold FlatMemory.after FlatMemory.put
  rw [if_neg (not_or.mpr ⟨Bool.eq_false_iff.mp hshort, not_not.mpr hstatus⟩)]
  simp only [hram]

/-- The first chunk may be read. -/
theorem status_read (h : Placed inRam addr (chunk :: rest)) :
    (MemoryRequest.readOf addr chunk).status map = .ok := by
  have hmem : imageRegion inRam ∈ map := by
    cases inRam <;> decide
  have hlen : (UInt32.ofNat chunk.length).toNat = chunk.length :=
    MemoryRequest.toNat_length (h.short chunk List.mem_cons_self)
  refine if_pos ?_
  rw [hlen]
  exact ⟨_, hmem, h.has⟩

/-! ### One chunk after the other -/

/-- All chunks are written. -/
theorem talk_write (h : Placed inRam addr chunks) (m : FlatMemory) (token : UInt32) :
    m.talk map token (MemoryRequest.each .write addr chunks)
      = writeExchanges token addr chunks := by
  induction chunks generalizing m token addr with
  | nil => rfl
  | cons chunk rest ih =>
    -- How the next request ends does not depend on what is in memory.
    have hwrite := (h.write m).1
    have hlater := ih h.tail (m.after map (.write addr chunk)) (token + 1)
    unfold writeExchanges at hlater ⊢
    rw [MemoryRequest.each, FlatMemory.talk, chunkExchanges, hwrite, hlater]
    rfl

/-- The chunks are the bytes that memory holds then. -/
theorem afterAll_write (h : Placed inRam addr chunks) (m : FlatMemory) :
    m.afterAll map (MemoryRequest.each .write addr chunks) = m.put inRam addr chunks.flatten := by
  induction chunks generalizing m addr with
  | nil => exact FlatMemory.put_nil.symm
  | cons chunk rest ih =>
    have hwrite := (h.write m).2
    have hlater := ih h.tail (m.put inRam addr chunk)
    show FlatMemory.afterAll map (m.after map (.write addr chunk)) _ = _
    rw [hwrite, hlater, List.flatten_cons, FlatMemory.put_append h.fits]

/-- All chunks are read, if they are there. -/
theorem talk_read (h : Placed inRam addr chunks)
    (hload : m.load addr (UInt32.ofNat chunks.flatten.length) = chunks.flatten) (token : UInt32) :
    m.talk map token (MemoryRequest.each .readOf addr chunks)
      = readExchanges token addr chunks := by
  induction chunks generalizing token addr with
  | nil => rfl
  | cons chunk rest ih =>
    obtain ⟨hchunk, hrest⟩ := FlatMemory.load_append h.fits hload
    have hlater := ih h.tail hrest (token + 1)
    have hread : (MemoryRequest.readOf addr chunk).response .ok token m.load
        = .data token .ok chunk := congrArg (Response.data token .ok) hchunk
    have hsame : m.after map (.readOf addr chunk) = m := m.after_read map addr _
    unfold readExchanges at hlater ⊢
    rw [MemoryRequest.each, FlatMemory.talk, chunkExchanges, h.status_read, hread, hsame, hlater]

end Placed

/-- Memory is as it was when chunks of it were read. -/
theorem afterAll_read (m : FlatMemory) (addr : UInt32) (chunks : List Bytes) :
    m.afterAll map (MemoryRequest.each .readOf addr chunks) = m := by
  induction chunks generalizing addr with
  | nil => rfl
  | cons chunk rest ih =>
    show FlatMemory.afterAll map (m.after map (.readOf addr chunk)) _ = m
    rw [show m.after map (.readOf addr chunk) = m from m.after_read map addr _]
    exact ih _

/-! ### Whole runs -/

/-- What comes of writing a file to memory and reading it again: both runs go well, the far
    end is `mid` between them and `line` in the end, and what is read is the file. After each
    of them memory holds the file, and is as before elsewhere. -/
structure WrittenAndRead (d : Desk (Line (Logged Chip))) (port path : String) (addr : UInt32)
    (file : Bytes) (mid line : Line (Logged Chip)) : Prop where
  write : d.run ⟨some port, .write addr path⟩ = (.ok (), d.written path addr file mid)
  read : ∀ output,
    (d.written path addr file mid).run ⟨some port, .read addr (UInt32.ofNat file.length) output⟩
      = ((d.written path addr file mid).received addr file line).reported addr file output
  memory : ∀ l ∈ [mid, line], ∀ a, OffCache a → l.service.chip.machine.memory.byte a
    = FlatMemory.store d.farEnd.service.chip.machine.memory.byte addr file a

namespace Service.Holds

variable {d : Desk (Line (Logged Chip))} {port path : String} {addr : UInt32} {file : Bytes}
  {m : FlatMemory} (h : d.farEnd.service.Holds m) (hport : d.port = some port)
  (hbuffer : d.buffer = [])

include h hport hbuffer

/-- A file is written to RAM, or to flash that was erased, and read again. -/
theorem writtenAndRead {inRam : Bool} (hplaced : Placed inRam addr (pieces maxTransfer file))
    (hblank : inRam = false → ∀ a : UInt32, addr.toNat ≤ a.toNat →
      a.toNat < addr.toNat + file.length → m a = 0xFF)
    (hfile : d.fetch path = .ok file) :
    ∃ mid line, WrittenAndRead d port path addr file mid line := by
  let chunks := pieces maxTransfer file
  have hwhole : chunks.flatten = file := flatten_pieces _ _
  have hfits : addr.toNat + file.length < UInt32.size := by
    have hchunks := hplaced.fits
    rwa [hwhole] at hchunks
  -- The chunks are written.
  obtain ⟨mid, hwrites, hmid⟩ := h.converses
    (MemoryRequest.isLong_each fun _ c hc => MemoryRequest.isLong_write (hplaced.short c hc))
  rw [hplaced.talk_write] at hwrites
  rw [hplaced.afterAll_write, hwhole, FlatMemory.put_eq_store hblank] at hmid
  -- They are read.
  have hload : (m.store addr file).load addr (UInt32.ofNat chunks.flatten.length)
      = chunks.flatten := by
    rw [hwhole]
    exact FlatMemory.load_store hfits
  obtain ⟨line, hreads, hline⟩ := hmid.converses
    (MemoryRequest.isLong_each fun _ c hc => MemoryRequest.isLong_readOf (hplaced.short c hc))
  rw [hplaced.talk_read hload] at hreads
  rw [afterAll_read] at hline
  refine ⟨mid, line, Desk.run_write hport hbuffer hfile hwrites, fun output => ?_, ?_⟩
  · exact Desk.run_read (d := d.written path addr file mid) output hport hbuffer
      (Nat.lt_of_le_of_lt (Nat.le_add_left _ _) hfits) hreads
  · intro l hl a ha
    have hbefore : d.farEnd.service.chip.machine.memory.byte a = m a := h.memory a ha
    have hafter : l.service.chip.machine.memory.byte a = m.store addr file a := by
      rcases List.mem_pair.mp hl with rfl | rfl
      · exact hmid.memory a ha
      · exact hline.memory a ha
    exact hafter.trans (FlatMemory.store_congr hbefore.symm)

/-- Sectors of the flash of applications are erased. -/
theorem erased {range : EraseRange} (hrange : range.Keeps) (hlen : 0 < range.len.toNat) :
    ∃ line, d.run ⟨some port, .erase range.addr range.len⟩
        = (.ok (), d.erased range.addr range.len line)
      ∧ line.service.Holds (m.erase range.addr range.len) := by
  let request : MemoryRequest := .erase range.addr range.len
  have hflash : map.HasIn .flash range.addr range.len.toNat := by
    refine ⟨appRegion, by decide, rfl, Region.contains_iff.mpr ⟨hrange.low, ?_⟩, hrange.high⟩
    have hhigh := hrange.high
    show range.addr.toNat < 0x11000000
    omega
  have hstatus : request.status map = .ok := by
    show (if _ then _ else _) = _
    rw [if_pos hflash, if_pos ⟨hlen, hrange.addr, hrange.len⟩]
  have hafter : m.after map request = m.erase range.addr range.len :=
    if_neg (not_or.mpr ⟨Bool.false_ne_true, not_not.mpr hstatus⟩)
  have hshort : ∀ r ∈ [request], r.isLong = false := by
    intro r hr
    rw [List.mem_singleton.mp hr]
    rfl
  obtain ⟨line, hconverses, hline⟩ := h.converses hshort
  rw [FlatMemory.talk, FlatMemory.talk, hstatus] at hconverses
  rw [show m.afterAll map [request] = _ from hafter] at hline
  cases hconverses with
  | cons hanswers hnone =>
    cases hnone
    exact ⟨line, Desk.run_erase hport hbuffer hanswers, hline⟩

end Service.Holds

end Loader

open Loader

/-- The tool writes a file to a loader that has just been started, and reads the same range
    again, over a line that loses nothing. If the file lies in the RAM of images both runs
    succeed and the file is what is read, whatever its length. In the flash of applications
    it is so for whole pages, once the tool has erased whole sectors around them. Nothing
    else in memory changes, but for the register that turns the cache off.

    Bytes may be cut into packets in any way, and the interrupt may come anywhere in
    between. What is read is shown, or put into a file, which is then up to the desk. -/
theorem write_then_read {d : Desk (Line (Logged Rp2040.Chip))} {port path : String}
    {addr : UInt32} {file : Bytes} (chip : Rp2040.Chip) (script : List WriteResult)
    (schedule : List (List LineEvent)) (hsome : file ≠ []) (hscript : .failed ∉ script)
    (hport : d.port = some port) (hbuffer : d.buffer = []) (hfile : d.fetch path = .ok file)
    (hstart : d.farEnd = ⟨started chip script, schedule, []⟩) :
    (imageRamRegion.Has addr file.length →
      ∃ mid line, WrittenAndRead d port path addr file mid line)
    ∧ (addr.toNat % 256 = 0 → file.length % 256 = 0 →
      ∀ range : EraseRange, range.Keeps → range.addr.toNat ≤ addr.toNat →
        addr.toNat + file.length ≤ range.addr.toNat + range.len.toNat →
        ∃ blank mid line,
          d.run ⟨some port, .erase range.addr range.len⟩
            = (.ok (), d.erased range.addr range.len blank)
          ∧ (∀ a, OffCache a → blank.service.chip.machine.memory.byte a
            = FlatMemory.erase chip.memory.byte range.addr range.len a)
          ∧ WrittenAndRead (d.erased range.addr range.len blank) port path addr file mid line) := by
  have hholds : d.farEnd.service.Holds chip.memory.byte := by
    rw [hstart]
    exact Service.holds_started chip hscript
  constructor
  · intro hram
    have hplaced : Placed true addr (pieces maxTransfer file) :=
      placed_pieces (Region.contains_iff.mp hram.start).1 hram.stop nofun
    exact hholds.writtenAndRead hport hbuffer hplaced nofun hfile
  · intro haddr hlength range hrange hlow hhigh
    have hpos : 0 < file.length := List.length_pos_iff.mpr hsome
    obtain ⟨blank, herase, hblank⟩ := hholds.erased hport hbuffer hrange (by omega)
    have hplaced : Placed false addr (pieces maxTransfer file) :=
      placed_pieces (Nat.le_trans hrange.low hlow) (Nat.le_trans hhigh hrange.high)
        fun _ => ⟨haddr, hlength⟩
    -- The file lies where memory is blank.
    have hclear : ∀ a : UInt32, addr.toNat ≤ a.toNat → a.toNat < addr.toNat + file.length →
        FlatMemory.erase chip.memory.byte range.addr range.len a = 0xFF :=
      fun a ha hb => if_pos ⟨by omega, by omega⟩
    let e := d.erased range.addr range.len blank
    have hfetch : e.fetch path = .ok file :=
      (Desk.fetch_congr (show e.files = d.files from rfl) path).trans hfile
    obtain ⟨mid, line, hrest⟩ := Service.Holds.writtenAndRead (d := e) hblank hport hbuffer
      hplaced (fun _ => hclear) hfetch
    exact ⟨blank, mid, line, herase, hblank.memory, hrest⟩

/-- 300 bytes at the very end of the RAM of images, and two pages at the end of flash, in a
    sector that is erased first, over a line on which a frame comes in as short packets. -/
theorem write_then_read_atTheEnd :
    (imageRamRegion.Has 0x2002FED4 300
      ∧ ∃ mid line, WrittenAndRead (deskWith (List.replicate 300 0x2A) choppyLine) "p" "a"
          0x2002FED4 (List.replicate 300 0x2A) mid line)
    ∧ (EraseRange.Keeps ⟨0x10FFF000, 0x1000⟩
      ∧ ∃ blank mid line,
          (deskWith (List.replicate 512 0x2A) choppyLine).run ⟨some "p", .erase 0x10FFF000 0x1000⟩
            = (.ok (), (deskWith (List.replicate 512 0x2A) choppyLine).erased 0x10FFF000 0x1000
                blank)
          ∧ WrittenAndRead ((deskWith (List.replicate 512 0x2A) choppyLine).erased 0x10FFF000
              0x1000 blank) "p" "a" 0x10FFFE00 (List.replicate 512 0x2A) mid line) := by
  have hram : imageRamRegion.Has 0x2002FED4 300 := by decide
  have hkeeps : EraseRange.Keeps ⟨0x10FFF000, 0x1000⟩ :=
    ⟨by decide, by decide, by decide, by decide⟩
  have hsome (n : Nat) : List.replicate (n + 1) (0x2A : UInt8) ≠ [] := List.cons_ne_nil _ _
  refine ⟨⟨hram, ?_⟩, hkeeps, ?_⟩
  · refine (write_then_read .unused [.takes 3, .blocked] choppyLine.schedule (hsome 299)
      (by decide) rfl rfl (fetch_deskWith _ choppyLine) rfl).1 ?_
    rw [List.length_replicate]
    exact hram
  · have haddr : (0x10FFFE00 : UInt32).toNat % 256 = 0 := by decide
    obtain ⟨blank, mid, line, herase, -, hrest⟩ := (write_then_read .unused [.takes 3, .blocked]
      choppyLine.schedule (hsome 511) (by decide) rfl rfl (fetch_deskWith _ choppyLine) rfl).2
      haddr (by rw [List.length_replicate]) ⟨0x10FFF000, 0x1000⟩ hkeeps (by decide)
      (by rw [List.length_replicate]; decide)
    exact ⟨blank, mid, line, herase, hrest⟩

end Reflash
