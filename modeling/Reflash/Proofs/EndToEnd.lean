import Mathlib
import Reflash.Proofs.Conversation
import Reflash.Proofs.LoaderUpload
/-! # From the file to the chip

  The tool sends a packed image over the line to a loader that has just been started.
  What the tool asks and hears is in `Conversation`, what the loader makes of one command
  in `LoaderUpload`. Here they meet: the line answers each sector in turn, so that the
  whole conversation takes place, and the image is on the chip.
-/

namespace Reflash

namespace Loader

open Rp2040 (Chip)

/-! ### All sectors -/

variable {img : PagedImage} {inRam : Bool} {capacity : UInt32} {n : Nat} {l : Line (Logged Chip)}

/-- The rest of the sectors are answered one after the other, and then the loader has got
    them all. -/
theorem Filling.converses (h : Filling img inRam capacity n l.service)
    (hlies : ∀ i < img.numBlocks, img.Lies capacity inRam map i)
    (himage : ∀ i < img.numBlocks, ∀ a, img.InPage i a → IsImageAddr a) {rest : Nat}
    (hrest : n + rest = img.count) :
    ∃ l', Converses l (sectorExchanges n ((img.sectors config.familyId).drop n)) l'
      ∧ Filling img inRam capacity img.count l'.service := by
  induction rest generalizing n l with
  | zero =>
    obtain rfl : n = img.count := hrest
    have hnone : (img.sectors config.familyId).drop img.count = [] :=
      List.drop_of_length_le (Nat.le_of_eq (img.length_sectors _))
    rw [hnone]
    exact ⟨l, .nil l, h⟩
  | succ rest ih =>
    have hn : n < img.count := by omega
    have hnext : (img.sectors config.familyId).drop n
        = img.sector config.familyId (UInt32.ofNat n)
          :: (img.sectors config.familyId).drop (n + 1) := by
      have hlength : n < (img.sectors config.familyId).length := by
        rw [img.length_sectors]
        exact hn
      rw [List.drop_eq_getElem_cons hlength]
      simp [PagedImage.sectors]
    obtain ⟨t, hcarry, hsent, ht⟩ := h.sector hn hlies himage n (l.schedule.headD [])
    obtain ⟨l', hconverses, hl'⟩ := ih
      (l := ⟨t.collected, l.schedule.tail, Frame.wrap (Encode.response _) :: l.answers⟩) ht
      (by omega)
    rw [hnext]
    exact ⟨l', .cons (Line.answers_of_carry hcarry hsent) hconverses, hl'⟩

end Loader

open Loader

/-- An image that was packed for the loader is sent to a loader that has just been started,
    over a line that loses nothing. All its pages lie in the flash of applications, or all
    in the RAM of images. However the bytes are cut into packets, and wherever the
    interrupt comes in between, the tool sends each sector once and then asks how it went,
    all answers are those that are due, and the run succeeds. The image is in memory then,
    and one reset was asked for, which starts it. -/
theorem flash_end_to_end {image : Bytes} {base : UInt32} {sectors : List Sector} {inRam : Bool}
    {d : Desk (Line (Logged Rp2040.Chip))} {port path : String} (chip : Rp2040.Chip)
    (script : List WriteResult) (schedule : List (List LineEvent))
    (hpack : ImageFile.pack image base Header.rp2040Family = .ok sectors)
    (hplace : ∀ k < sectors.length,
      (imageRegion inRam).covers (base + UInt32.ofNat k * pageSize) pageSize = true)
    (hscript : .failed ∉ script) (hport : d.port = some port) (hbuffer : d.buffer = [])
    (hfile : d.fetch path = .ok (ImageFile.toBytes sectors))
    (hstart : d.farEnd = ⟨started chip script, schedule, []⟩) :
    ∃ exchanges line,
      exchanges = flashExchanges sectors (completeReport (UInt32.ofNat sectors.length) inRam)
      ∧ d.run ⟨some port, .flash path⟩ = (.ok (),
        { d with
          printed := d.printed ++ Desk.flashText path sectors.length
          farEnd := line
          frames := (exchanges.map fun e => Frame.wrap (Encode.command e.1)).reverse ++ d.frames })
      ∧ line.answers = (exchanges.map fun e => Frame.wrap (Encode.response e.2)).reverse
      ∧ (TokenCounter.unknown.follow (exchanges.map Prod.snd)).isSome = true
      ∧ line.service.chip.machine.memory.load base (256 * sectors.length) = ImageFile.padded image
      ∧ line.service.chip.calls.filter Call.isReboot = [.reboot (rebootInto inRam base)]
      ∧ line.service.device.core.rebooting = true := by
  obtain ⟨img, rfl, hbytes, rfl⟩ := ImageFile.pack_eq_ok hpack
  rw [PagedImage.length_sectors] at hplace ⊢
  have hlies : ∀ i < img.numBlocks,
      img.Lies (startUpload chip).erasedSectors.capacity inRam map i :=
    fun i hi => lies_page chip hplace hi
  have himage : ∀ i < img.numBlocks, ∀ a, img.InPage i a → IsImageAddr a :=
    fun i hi a ha => isImageAddr_of_inPage hplace hi ha
  -- The line answers the sectors, and then reports.
  obtain ⟨l, hsectors, hfilled⟩ :=
    Filling.converses (l := ⟨started chip script, schedule, []⟩)
      (filling_started chip hscript hplace) hlies himage (Nat.zero_add img.count)
  obtain ⟨t, hcarry, hsent, hcore, hchip⟩ := hfilled.status (l.schedule.headD [])
  let report := completeReport img.numBlocks inRam
  let line : Line (Logged Rp2040.Chip) :=
    ⟨t.collected, l.schedule.tail, Frame.wrap (Encode.response report) :: l.answers⟩
  have hconverses : Converses d.farEnd
      (flashExchanges (img.sectors Header.rp2040Family) report) line := by
    rw [hstart]
    exact converses_append.mpr ⟨l, hsectors, .cons (Line.answers_of_carry hcarry hsent) (.nil _)⟩
  obtain ⟨c, hfollow⟩ := follow_flashExchanges (img.sectors Header.rp2040Family)
    (show report.completion = none from rfl)
  have hne : img.sectors Header.rp2040Family ≠ [] := by
    rw [← List.length_pos_iff, PagedImage.length_sectors]
    exact img.pos
  have hblocks : ∀ s ∈ img.sectors Header.rp2040Family, ∃ block,
      Block.ofSectorFor? s Header.rp2040Family = .ok block := by
    intro s hs
    obtain ⟨i, -, rfl⟩ := PagedImage.mem_sectors.mp hs
    exact ⟨_, img.ofSectorFor?_sector _ i⟩
  have hfew : (img.sectors Header.rp2040Family).length < UInt32.size := by
    rw [PagedImage.length_sectors]
    exact img.count_lt
  have hreport : report.Fits .device := trivial
  have hheld := Desk.hold_flash hfile hne hfew hblocks hbuffer hconverses hfollow hreport rfl
  rw [PagedImage.length_sectors] at hheld
  refine ⟨_, line, rfl, ?_, ?_, ?_, ?_, ?_, ?_⟩
  · rw [Desk.run_eq_of_hold hport hheld, Desk.asked, List.map_map]
    rfl
  · rw [Line.answers_of_converses hconverses, hstart]
    exact List.append_nil _
  · show (TokenCounter.unknown.follow _).isSome = true
    exact Option.isSome_iff_exists.mpr ⟨c, hfollow⟩
  · rw [← hbytes]
    refine img.load_eq_bytes fun i hi => ?_
    show img.Holds t.chip.machine.memory i
    rw [hchip]
    exact hfilled.holds (Nat.le_refl _) hi
  · show t.chip.calls.filter Call.isReboot = _
    rw [hchip, hfilled.reboots, if_neg (Nat.lt_irrefl _)]
  · show t.device.core.rebooting = true
    rw [hcore, hfilled.underway.due, subset_take_iff]

/-- A desk with one file and one port. -/
def deskWith {π : Type} (file : Bytes) (farEnd : π) : Desk π :=
  { Desk.bare [("a", file)] farEnd with port := some "p" }

theorem fetch_deskWith {π : Type} (file : Bytes) (farEnd : π) :
    (deskWith file farEnd).fetch "a" = .ok file := by
  have hparts : "a".splitOn "/" = ["a"] := by cbv
  have hnul : "a".contains '\x00' = false := by cbv
  have hshort : ¬ Desk.longestPath < "a".utf8ByteSize := by
    rw [show "a".utf8ByteSize = 1 by cbv]
    decide
  have hsome : "a".isEmpty = false := by cbv
  have hunknown : Surroundings.find? "" "a" = none :=
    Option.isNone_iff_eq_none.mp (by decide +kernel)
  have hname : Surroundings.tooLong "" "a" = false := by cbv
  have hopen : Surroundings.sealing? "" = none := by cbv
  have hlast : Desk.lastPlace "" "a" = .ok (.file "a") := by
    unfold Desk.lastPlace
    rw [hname, hopen]
    rfl
  have hplace : (deskWith file farEnd).place "a" = .ok (.file "a") := by
    unfold Desk.place
    simp only [hparts, hnul, if_neg hshort, hsome, Bool.false_eq_true, if_false]
    show (deskWith file farEnd).walk false "" ["a"] = _
    unfold Desk.walk
    rw [if_neg (by decide), if_neg (by decide), hunknown]
    exact hlast
  unfold Desk.fetch
  rw [hplace]
  rfl

/-- A line on which the first frame comes in as some short packets, with the interrupt and
    the worker in between, and to a loader whose first answer is taken in two parts. -/
def choppyLine : Line (Logged Rp2040.Chip) :=
  { service := started .unused [.takes 3, .blocked]
    schedule := [[.arrive ⟨9, by decide⟩, .interrupt, .take, .arrive ⟨63, by decide⟩, .interrupt],
      [.carryOut]]
    answers := [] }

/-- Over such a line an image of two pages gets into the flash of applications. -/
theorem flash_end_to_end_twoPages :
    ∃ sectors, ImageFile.pack (List.replicate 300 0x2A) 0x10010000 Header.rp2040Family = .ok sectors
      ∧ sectors.length = 2
      ∧ ∃ line, (deskWith (ImageFile.toBytes sectors) choppyLine).run ⟨some "p", .flash "a"⟩
          = (.ok (), { deskWith (ImageFile.toBytes sectors) line with
              printed := "" ++ Desk.flashText "a" sectors.length
              frames := ((flashExchanges sectors (completeReport 2 false)).map
                fun e => Frame.wrap (Encode.command e.1)).reverse })
        ∧ line.service.chip.machine.memory.load 0x10010000 512
          = ImageFile.padded (List.replicate 300 0x2A)
        ∧ line.service.chip.calls.filter Call.isReboot
          = [.reboot ⟨0, 0, config.rebootDelayMs⟩] := by
  obtain ⟨sectors, hpack⟩ : ∃ sectors, ImageFile.pack (List.replicate 300 0x2A) 0x10010000
      Header.rp2040Family = .ok sectors :=
    ImageFile.exists_pack_eq_ok _ (by rw [List.length_replicate]; decide) (by decide)
      (by rw [List.length_replicate]; decide)
  have hlength : sectors.length = 2 := by
    rw [ImageFile.length_pack hpack, List.length_replicate]
  have hplace : ∀ k < sectors.length,
      (imageRegion false).covers (0x10010000 + UInt32.ofNat k * pageSize) pageSize = true := by
    rw [hlength]
    decide
  obtain ⟨_, line, rfl, hrun, -, -, hload, hreboots, -⟩ := flash_end_to_end .unused
    [.takes 3, .blocked] choppyLine.schedule hpack hplace (by decide) rfl rfl
    (fetch_deskWith (ImageFile.toBytes sectors) choppyLine) rfl
  rw [hlength] at hload hrun
  refine ⟨sectors, hpack, hlength, line, ?_, hload, hreboots⟩
  rw [hrun, hlength]
  simp only [deskWith, Desk.bare, List.append_nil]
  rfl

end Reflash
