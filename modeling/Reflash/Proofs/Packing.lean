import Reflash.Proofs.Conversation
/-! # Packing loses nothing

  An image goes into a file page by page. The file is cut into its sectors again, each sector is
  read as a page for the family that was asked for, and the payloads in a row are the image, filled
  up with erased bytes. All of this holds up to the very top of the address space, where the end of
  an image is no longer an address: a summary then shows the last address there is.
-/

namespace Reflash

/-- A capped sum is the sum or the largest word, whichever is smaller. -/
theorem Word.toNat_plusCapped (a b : UInt32) :
    (plusCapped a b).toNat = min (a.toNat + b.toNat) 0xFFFFFFFF := by
  have hsize : UInt32.size = 4294967296 := rfl
  unfold plusCapped
  by_cases h : a.toNat + b.toNat < UInt32.size
  · rw [if_pos h, UInt32.toNat_add]
    omega
  · rw [if_neg h, show (0xFFFFFFFF : UInt32).toNat = 0xFFFFFFFF from rfl]
    omega

namespace PagedImage

variable (img : PagedImage) (familyId : UInt32)

/-! ### The pages in a row -/

/-- The blocks for all pages, one after the other. -/
def blocks : List Block := (List.range img.count).map fun k => img.block familyId (UInt32.ofNat k)

@[simp] theorem length_blocks : (img.blocks familyId).length = img.count := by simp [blocks]

theorem getElem?_blocks {k : Nat} {b : Block} (h : (img.blocks familyId)[k]? = some b) :
    k < img.count ∧ b = img.block familyId (UInt32.ofNat k) := by
  have hk : k < img.count := by
    rw [← img.length_blocks familyId]
    exact (List.getElem?_eq_some_iff.mp h).1
  rw [blocks, List.getElem?_map, List.getElem?_range hk] at h
  exact ⟨hk, (Option.some.inj h).symm⟩

/-- Every sector of the image is read as the block for its page. -/
theorem mapM_sectors :
    (img.sectors familyId).mapM (Block.ofSectorFor? · familyId) = .ok (img.blocks familyId) := by
  have hread : (Block.ofSectorFor? · familyId) ∘ (fun k => img.sector familyId (UInt32.ofNat k))
      = fun k => (pure (img.block familyId (UInt32.ofNat k)) : Except Unusable Block) :=
    funext fun k => img.ofSectorFor?_sector familyId (UInt32.ofNat k)
  rw [sectors, List.mapM_map, hread, List.mapM_pure]
  rfl

/-- The first pages in a row are the beginning of the image. -/
theorem flatMap_page {n : Nat} (hn : n ≤ img.count) :
    (List.range n).flatMap (fun k => img.page (UInt32.ofNat k)) = img.bytes.take (256 * n) := by
  induction n with
  | zero => rfl
  | succ n ih =>
    -- One more page takes up where the first `n` pages end.
    have hpage : img.page (UInt32.ofNat n) = (img.bytes.drop (256 * n)).take 256 := by
      rw [page, toNat_ofNat hn]
    rw [List.range_succ, List.flatMap_append, ih (Nat.le_of_succ_le hn), List.flatMap_singleton,
      hpage, Nat.mul_succ, List.take_add]

/-- The payloads in a row are the image. -/
theorem flatMap_payload : (img.blocks familyId).flatMap Block.payload = img.bytes := by
  have hpayload : ∀ k ∈ List.range img.count,
      (img.block familyId (UInt32.ofNat k)).payload = img.page (UInt32.ofNat k) := by
    intro k hk
    exact payload_block (ofNat_lt (List.mem_range.mp hk))
  rw [blocks, List.flatMap_map, List.flatMap_congr hpayload, img.flatMap_page (Nat.le_refl _),
    ← img.length_bytes, List.take_length]

/-! ### The summary -/

open ImageFile

/-- Where a page ends, as a summary shows it. -/
def shownEnd (i : UInt32) : UInt32 := Word.plusCapped (img.addr i) pageSize

variable {img familyId}

theorem toNat_shownEnd {i : UInt32} (hi : i < img.numBlocks) :
    (img.shownEnd i).toNat = min (img.base.toNat + 256 * (i.toNat + 1)) 0xFFFFFFFF := by
  rw [shownEnd, Word.toNat_plusCapped, toNat_addr hi, toNat_pageSize, Nat.mul_succ,
    Nat.add_assoc]

/-- The first page starts where the image does. -/
theorem addr_zero : img.addr 0 = img.base := by
  rw [addr, UInt32.zero_mul, UInt32.add_zero]

/-- A page that starts no lower and ends no lower than what was seen counts, and moves the end. -/
theorem addBlock_page {i stop : UInt32} (n : UInt32) (hbase : img.base ≤ img.addr i)
    (hstop : stop ≤ img.shownEnd i) :
    Summary.addBlock ⟨n, 0, n, some img.numBlocks, some img.base, some stop⟩
        (img.block familyId i).header
      = ⟨n + 1, 0, n + 1, some img.numBlocks, some img.base, some (img.shownEnd i)⟩ := by
  have hlower : Summary.lower (some img.base) (img.addr i) = img.base := if_pos hbase
  have hhigher : Summary.higher (some stop) (img.shownEnd i) = img.shownEnd i := if_pos hstop
  show (⟨n + 1, 0, n + 1, some img.numBlocks, some (Summary.lower (some img.base) (img.addr i)),
    some (Summary.higher (some stop) (img.shownEnd i))⟩ : Summary) = _
  rw [hlower, hhigher]

/-- The summary of the first pages, one at least. No page starts below the first one or ends above
    the last one. -/
theorem summarize_firstSectors {n : Nat} (hn : n < img.count) :
    summarize ((List.range (n + 1)).map fun k => img.sector familyId (UInt32.ofNat k)) familyId
      = ⟨UInt32.ofNat (n + 1), 0, UInt32.ofNat (n + 1), some img.numBlocks, some img.base,
        some (img.shownEnd (UInt32.ofNat n))⟩ := by
  have hadd : ∀ (i : UInt32) (s : Summary), Summary.add familyId s (img.sector familyId i)
      = s.addBlock (img.block familyId i).header := by
    intro i s
    simp only [Summary.add, img.ofSectorFor?_sector]
  -- With each further page the count goes up and the end moves, and all else stays.
  induction n with
  | zero =>
    rw [List.range_one, List.map_singleton, summarize, List.foldl_cons, hadd, List.foldl_nil,
      ← addr_zero]
    rfl
  | succ n ih =>
    have hbefore := Nat.lt_of_succ_lt hn
    have hsummary := ih hbefore
    unfold summarize at hsummary ⊢
    rw [List.range_succ, List.map_append, List.map_singleton, List.foldl_append, hsummary,
      List.foldl_cons, hadd, List.foldl_nil]
    have hlow : img.base ≤ img.addr (UInt32.ofNat (n + 1)) := by
      rw [UInt32.le_iff_toNat_le, toNat_addr (ofNat_lt hn)]
      exact Nat.le_add_right _ _
    have hhigh : img.shownEnd (UInt32.ofNat n) ≤ img.shownEnd (UInt32.ofNat (n + 1)) := by
      rw [UInt32.le_iff_toNat_le, toNat_shownEnd (ofNat_lt hbefore), toNat_shownEnd (ofNat_lt hn),
        toNat_ofNat hbefore, toNat_ofNat hn]
      omega
    rw [UInt32.ofNat_add (n + 1) 1]
    exact addBlock_page (UInt32.ofNat (n + 1)) hlow hhigh

theorem summarize_sectors (img : PagedImage) (familyId : UInt32) :
    summarize (img.sectors familyId) familyId
      = ⟨img.numBlocks, 0, img.numBlocks, some img.numBlocks, some img.base,
        some (UInt32.ofNat (min (img.base.toNat + 256 * img.count) 0xFFFFFFFF))⟩ := by
  obtain ⟨n, hn⟩ : ∃ n, img.count = n + 1 :=
    ⟨img.count - 1, (Nat.succ_pred_eq_of_pos img.pos).symm⟩
  have hlast : n < img.count := by omega
  have hstop : img.shownEnd (UInt32.ofNat n)
      = UInt32.ofNat (min (img.base.toNat + 256 * img.count) 0xFFFFFFFF) := by
    have hnat := toNat_shownEnd (ofNat_lt hlast)
    rw [toNat_ofNat hlast, ← hn] at hnat
    rw [← hnat, UInt32.ofNat_toNat]
  have hsummary := @summarize_firstSectors img familyId n hlast
  rw [hstop, ← hn] at hsummary
  exact hsummary

end PagedImage

namespace ImageFile

variable {image : Bytes} {base familyId : UInt32}

/-- An image can be packed exactly if there is something of it, it starts at a page and it ends
    within the address space. -/
theorem exists_pack_eq_ok_iff : (∃ sectors, pack image base familyId = .ok sectors)
    ↔ image ≠ [] ∧ base.toNat % 256 = 0 ∧ base.toNat + image.length ≤ 2 ^ 32 := by
  constructor
  · rintro ⟨sectors, h⟩
    obtain ⟨img, rfl, hbytes, -⟩ := pack_eq_ok h
    have hlength := img.length_bytes
    rw [hbytes, length_padded] at hlength
    have hpos := img.pos
    have hfits := img.fits
    have hsize : UInt32.size = 2 ^ 32 := rfl
    refine ⟨?_, img.aligned, by omega⟩
    rintro rfl
    rw [List.length_nil] at hlength
    omega
  · rintro ⟨hne, hbase, hfits⟩
    have haligned : base % pageSize = 0 := by
      rw [← UInt32.toNat_inj, UInt32.toNat_mod, toNat_pageSize]
      exact hbase
    exact exists_pack_eq_ok familyId (List.length_pos_iff.mpr hne) haligned hfits

/-- No sum leaves the range of a word while an image is packed. -/
theorem pack_ne_fault (f : Fault) : pack image base familyId ≠ .error (.fault f) := by
  intro h
  have hnone : ¬ ∃ sectors, pack image base familyId = .ok sectors := by
    rintro ⟨sectors, hok⟩
    rw [h] at hok
    cases hok
  -- An image that cannot be packed is turned away before any page is made.
  unfold pack at h
  split at h
  · cases h
  split at h
  · cases h
  split at h
  · cases h
  rename_i hempty hmisaligned hlong
  apply hnone
  apply exists_pack_eq_ok familyId
  · rw [List.length_pos_iff]
    rintro rfl
    exact hempty rfl
  · simpa using hmisaligned
  · exact Nat.not_lt.mp hlong

/-- Packing loses nothing.

    It succeeds exactly on an image that is not empty, starts at a page and ends within the address
    space, and never with a sum out of range. The file is then cut into as many sectors as the image
    has pages. Each is read as a page for the family, with its number, the number of pages and the
    address that is due. The payloads in a row are the image, followed by erased bytes only, and a
    summary shows all of it. -/
theorem pack_lossless (image : Bytes) (base familyId : UInt32) :
    ((∃ sectors, pack image base familyId = .ok sectors)
        ↔ image ≠ [] ∧ base.toNat % 256 = 0 ∧ base.toNat + image.length ≤ 2 ^ 32)
      ∧ (∀ f, pack image base familyId ≠ .error (.fault f))
      ∧ ∀ sectors, pack image base familyId = .ok sectors →
        let count := (image.length + 255) / 256
        sectors? (toBytes sectors) = some sectors ∧ sectors.length = count ∧ count ≤ 2 ^ 24
          ∧ (∃ blocks, sectors.mapM (Block.ofSectorFor? · familyId) = .ok blocks
            ∧ blocks.length = count
            ∧ (∀ (k : Nat) (b : Block), blocks[k]? = some b →
              b.header.blockNo.toNat = k ∧ b.header.numBlocks.toNat = count
                ∧ b.header.targetAddr.toNat = base.toNat + 256 * k)
            ∧ blocks.flatMap Block.payload
              = image ++ List.replicate (256 * count - image.length) 0xFF)
          ∧ summarize sectors familyId = ⟨UInt32.ofNat count, 0, UInt32.ofNat count,
            some (UInt32.ofNat count), some base,
            some (UInt32.ofNat (min (base.toNat + 256 * count) 0xFFFFFFFF))⟩ := by
  refine ⟨exists_pack_eq_ok_iff, pack_ne_fault, ?_⟩
  intro sectors h count
  obtain ⟨img, rfl, hbytes, rfl⟩ := pack_eq_ok h
  have hcount : img.count = count := by
    have hlength := img.length_bytes
    rw [hbytes, length_padded] at hlength
    omega
  have hfits := img.fits
  have hsize : UInt32.size = 2 ^ 32 := rfl
  refine ⟨?_, ?_, by omega, ⟨img.blocks familyId, img.mapM_sectors familyId, ?_, ?_, ?_⟩, ?_⟩
  · apply sectors?_toBytes
    rw [← List.length_pos_iff, PagedImage.length_sectors]
    exact img.pos
  · rw [PagedImage.length_sectors, hcount]
  · rw [PagedImage.length_blocks, hcount]
  · intro k b hb
    obtain ⟨hk, rfl⟩ := img.getElem?_blocks familyId hb
    have haddr := PagedImage.toNat_addr (PagedImage.ofNat_lt hk)
    rw [PagedImage.toNat_ofNat hk] at haddr
    exact ⟨PagedImage.toNat_ofNat hk, by rw [← hcount]; exact img.toNat_numBlocks, haddr⟩
  · rw [img.flatMap_payload familyId, hbytes]
    rfl
  · rw [← hcount]
    exact img.summarize_sectors familyId

/-- Three bytes at the last page there is: the image ends where there is no address left, and the
    summary shows the last one. -/
theorem pack_lossless_lastPage : ∃ sectors, pack [1, 2, 3] 0xFFFFFF00 7 = .ok sectors
    ∧ sectors? (toBytes sectors) = some sectors
    ∧ summarize sectors 7 = ⟨1, 0, 1, some 1, some 0xFFFFFF00, some 0xFFFFFFFF⟩ := by
  obtain ⟨hok, -, hlossless⟩ := pack_lossless [1, 2, 3] 0xFFFFFF00 7
  obtain ⟨sectors, h⟩ := hok.mpr (by decide)
  obtain ⟨hfile, -, -, -, hsummary⟩ := hlossless sectors h
  exact ⟨sectors, h, hfile, hsummary.trans (by decide +kernel)⟩

end ImageFile

end Reflash
