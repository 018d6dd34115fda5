import Mathlib.Data.List.GetD
import Mathlib.Data.List.Range
import Reflash.ImageFile
import Reflash.Proofs.AddressMap
import Reflash.Proofs.MemoryMachine
import Reflash.Proofs.Sector
/-! # Packed images

  A `PagedImage` is an image cut into pages: what its bytes are, where they go,
  and that they fit there. What `pack` makes of an image are the sectors of its
  pages, one after the other, where the image is filled up with erased bytes to
  whole pages.
-/

namespace Reflash

/-- An image of whole pages and the address that it starts at. -/
structure PagedImage where
  base : UInt32
  bytes : Bytes
  /-- How many pages there are. -/
  count : Nat
  pos : 0 < count
  length_bytes : bytes.length = 256 * count
  aligned : base.toNat % 256 = 0
  /-- The image ends within the address space. -/
  fits : base.toNat + 256 * count ≤ UInt32.size

namespace PagedImage

variable (img : PagedImage) (familyId i j a : UInt32)

/-! ### Pages -/

/-- The number of pages, as a block announces it. -/
def numBlocks : UInt32 := UInt32.ofNat img.count

/-- Where a page goes. -/
def addr : UInt32 := img.base + i * pageSize

/-- The bytes of a page. -/
def page : Bytes := (img.bytes.drop (256 * i.toNat)).take 256

/-- The block for a page. -/
def block : Block := ⟨Header.page (img.addr i) i img.numBlocks familyId, dataArea (img.page i)⟩

/-- The sector for a page. -/
def sector : Sector := (img.block familyId i).toSector

/-- The sectors for all pages, one after the other. -/
def sectors : List Sector :=
  (List.range img.count).map fun k => img.sector familyId (UInt32.ofNat k)

/-- What the image wants at an address. -/
def want : UInt8 := img.bytes.getD (a.toNat - img.base.toNat) 0

/-- An address belongs to a page. -/
def InPage : Prop := (img.addr i).toNat ≤ a.toNat ∧ a.toNat < (img.addr i).toNat + 256

instance : Decidable (img.InPage i a) := inferInstanceAs (Decidable (_ ∧ _))

theorem count_lt : img.count < UInt32.size := by
  have hfits := img.fits
  have hpos := img.pos
  omega

@[simp] theorem toNat_numBlocks : img.numBlocks.toNat = img.count :=
  UInt32.toNat_ofNat_of_lt' img.count_lt

theorem numBlocks_ne_zero : img.numBlocks ≠ 0 := by
  intro h
  have hzero := congrArg UInt32.toNat h
  have hpos := img.pos
  rw [toNat_numBlocks] at hzero
  exact Nat.ne_of_gt hpos hzero

variable {img familyId i j a}

theorem lt_count (hi : i < img.numBlocks) : i.toNat < img.count := by
  have h := UInt32.lt_iff_toNat_lt.mp hi
  rwa [toNat_numBlocks] at h

theorem toNat_ofNat {k : Nat} (hk : k < img.count) : (UInt32.ofNat k).toNat = k :=
  UInt32.toNat_ofNat_of_lt' (Nat.lt_trans hk img.count_lt)

theorem ofNat_lt {k : Nat} (hk : k < img.count) : UInt32.ofNat k < img.numBlocks := by
  rwa [UInt32.lt_iff_toNat_lt, toNat_ofNat hk, toNat_numBlocks]

theorem toNat_addr (hi : i < img.numBlocks) :
    (img.addr i).toNat = img.base.toNat + 256 * i.toNat := by
  have hlt := lt_count hi
  have hfits := img.fits
  have hsize : UInt32.size = 4294967296 := rfl
  unfold addr
  rw [UInt32.toNat_add, UInt32.toNat_mul, toNat_pageSize]
  omega

theorem toNat_addr_mod (hi : i < img.numBlocks) : (img.addr i).toNat % 256 = 0 := by
  have haligned := img.aligned
  rw [toNat_addr hi]
  omega

theorem addr_mod_pageSize (hi : i < img.numBlocks) : img.addr i % pageSize = 0 := by
  rw [← UInt32.toNat_inj, UInt32.toNat_mod, toNat_pageSize]
  exact toNat_addr_mod hi

theorem page_fits (hi : i < img.numBlocks) : (img.addr i).toNat + 256 ≤ UInt32.size := by
  have hlt := lt_count hi
  have hfits := img.fits
  rw [toNat_addr hi]
  omega

theorem length_page (hi : i < img.numBlocks) : (img.page i).length = 256 := by
  have hlt := lt_count hi
  unfold page
  rw [List.length_take, List.length_drop, img.length_bytes]
  omega

/-- A page holds what the image wants at its addresses. -/
theorem getD_page (hi : i < img.numBlocks) (ha : img.InPage i a) :
    (img.page i).getD (a.toNat - (img.addr i).toNat) 0 = img.want a := by
  obtain ⟨hlow, hhigh⟩ := ha
  rw [toNat_addr hi] at hlow hhigh ⊢
  have hin : a.toNat - (img.base.toNat + 256 * i.toNat) < 256 := by omega
  have hsplit : a.toNat - img.base.toNat
      = 256 * i.toNat + (a.toNat - (img.base.toNat + 256 * i.toNat)) := by omega
  unfold page
  rw [want, List.getD_eq_getElem?_getD, List.getElem?_take_of_lt hin, List.getElem?_drop,
    ← hsplit, ← List.getD_eq_getElem?_getD]

/-- No address belongs to two pages. -/
theorem InPage.eq (hi : i < img.numBlocks) (hj : j < img.numBlocks) (hai : img.InPage i a)
    (haj : img.InPage j a) : i = j := by
  obtain ⟨hli, hhi⟩ := hai
  obtain ⟨hlj, hhj⟩ := haj
  rw [toNat_addr hi] at hli hhi
  rw [toNat_addr hj] at hlj hhj
  apply UInt32.toNat_inj.mp
  omega

/-- The pages of an image lie within it. -/
theorem InPage.bounds (hi : i < img.numBlocks) (ha : img.InPage i a) :
    img.base.toNat ≤ a.toNat ∧ a.toNat < img.base.toNat + 256 * img.count := by
  obtain ⟨hlow, hhigh⟩ := ha
  have hlt := lt_count hi
  rw [toNat_addr hi] at hlow hhigh
  omega

theorem inPage_addr (i : UInt32) : img.InPage i (img.addr i) :=
  ⟨Nat.le_refl _, Nat.lt_add_of_pos_right (by decide)⟩

/-- All of a page lies in one erase sector. -/
theorem InPage.sector_eq (hi : i < img.numBlocks) (ha : img.InPage i a) :
    a.toNat / 4096 = (img.addr i).toNat / 4096 := by
  obtain ⟨hlow, hhigh⟩ := ha
  have hmod := toNat_addr_mod hi
  omega

/-- The sector for a page is read back as its block. -/
theorem ofSectorFor?_sector (img : PagedImage) (familyId i : UInt32) :
    Block.ofSectorFor? (img.sector familyId i) familyId = .ok (img.block familyId i) :=
  Block.ofSectorFor?_page _ _ _ _ _

@[simp] theorem length_sectors (img : PagedImage) (familyId : UInt32) :
    (img.sectors familyId).length = img.count := by simp [sectors]

/-- An image of two pages has two sectors. -/
theorem sectors_of_two (img : PagedImage) (hcount : img.count = 2) (familyId : UInt32) :
    img.sectors familyId = [img.sector familyId 0, img.sector familyId 1] := by
  unfold sectors
  rw [hcount]
  rfl

theorem mem_sectors {s : Sector} :
    s ∈ img.sectors familyId ↔ ∃ i < img.numBlocks, s = img.sector familyId i := by
  simp only [sectors, List.mem_map, List.mem_range]
  constructor
  · rintro ⟨k, hk, rfl⟩
    exact ⟨UInt32.ofNat k, ofNat_lt hk, rfl⟩
  · rintro ⟨i, hi, rfl⟩
    exact ⟨i.toNat, lt_count hi, by rw [UInt32.ofNat_toNat]⟩

theorem payload_block (hi : i < img.numBlocks) : (img.block familyId i).payload = img.page i :=
  Block.payload_page _ _ _ _ (length_page hi)

/-! ### Pages in memory -/

/-- Memory holds a page. -/
def Holds (img : PagedImage) (m : Memory) (i : UInt32) : Prop :=
  ∀ a, img.InPage i a → m.byte a = img.want a

/-- A page that is stored is held, and nothing else changes. -/
theorem byte_store_page (hi : i < img.numBlocks) (m : Memory) (a : UInt32) :
    (m.store (img.addr i) (img.page i)).byte a
      = if img.InPage i a then img.want a else m.byte a := by
  have hlength := length_page hi
  rw [m.byte_store a (by rw [hlength]; exact page_fits hi), hlength]
  by_cases ha : img.InPage i a
  · rw [if_pos ha, ← getD_page hi ha]
    exact if_pos ha
  · rw [if_neg ha]
    exact if_neg ha

/-- A page that is programmed keeps the bits that both the image and memory have,
    and nothing else changes. -/
theorem byte_program_page (hi : i < img.numBlocks) (m : Memory) (a : UInt32) :
    (m.program (img.addr i) (img.page i)).byte a
      = if img.InPage i a then m.byte a &&& img.want a else m.byte a := by
  have hlength := length_page hi
  rw [m.byte_program a (by rw [hlength]; exact page_fits hi), hlength]
  by_cases ha : img.InPage i a
  · rw [if_pos ha, ← getD_page hi ha]
    exact if_pos ha
  · rw [if_neg ha]
    exact if_neg ha

/-- Where all pages are held, memory reads as the image. -/
theorem load_eq_bytes (img : PagedImage) {m : Memory} (h : ∀ i < img.numBlocks, img.Holds m i) :
    m.load img.base (256 * img.count) = img.bytes := by
  rw [Memory.load_eq]
  apply List.ext_getElem
  · simp [img.length_bytes]
  · intro k hk hk'
    rw [img.length_bytes] at hk'
    have hfits := img.fits
    have hsize : UInt32.size = 4294967296 := rfl
    -- The address of byte `k`, and the page that it belongs to.
    have hnat : (img.base + UInt32.ofNat k).toNat = img.base.toNat + k :=
      Memory.toNat_add_ofNat (n := 256 * img.count) (by omega) (by omega)
    have hpage : (UInt32.ofNat (k / 256)).toNat = k / 256 := by
      rw [UInt32.toNat_ofNat']
      omega
    have hlt : UInt32.ofNat (k / 256) < img.numBlocks := by
      rw [UInt32.lt_iff_toNat_lt, hpage, toNat_numBlocks]
      omega
    have hin : img.InPage (UInt32.ofNat (k / 256)) (img.base + UInt32.ofNat k) := by
      unfold InPage
      rw [toNat_addr hlt, hpage, hnat]
      omega
    simp only [List.getElem_map, List.getElem_range, h _ hlt _ hin, want, hnat,
      Nat.add_sub_cancel_left]
    rw [List.getD_eq_getElem _ _ (by rw [img.length_bytes]; exact hk')]

end PagedImage

/-! ### What packing makes -/

theorem pieces_append {α : Type} {n : Nat} {piece : List α} (hlength : piece.length = n)
    (hn : 0 < n) (rest : List α) : pieces n (piece ++ rest) = piece :: pieces n rest := by
  cases piece with
  | nil => exact absurd hlength (Nat.ne_of_lt hn)
  | cons a others =>
    have hothers : n - 1 = others.length := by
      rw [← hlength]
      rfl
    rw [List.cons_append, pieces, hothers, List.take_left, List.drop_left]

theorem getElem?_pieces {α : Type} {n : Nat} (hn : 0 < n) (xs : List α) (k : Nat) :
    (pieces n xs)[k]? = if n * k < xs.length then some ((xs.drop (n * k)).take n) else none := by
  -- Each piece after the first one is a piece of what is left.
  induction xs using pieces.induct n generalizing k with
  | case1 => simp [pieces]
  | case2 a rest ih =>
    have htake : (a :: rest).take n = a :: rest.take (n - 1) := by
      obtain ⟨m, rfl⟩ : ∃ m, n = m + 1 := ⟨n - 1, by omega⟩
      rfl
    rw [pieces]
    cases k with
    | zero => simp [htake]
    | succ k =>
      have hmul : n * (k + 1) = n * k + (n - 1) + 1 := by
        rw [Nat.mul_succ]
        omega
      rw [List.getElem?_cons_succ, ih, hmul, List.drop_succ_cons, List.drop_drop, List.length_drop,
        List.length_cons, Nat.add_comm (n * k) (n - 1)]
      by_cases h : n * k < rest.length - (n - 1)
      · rw [if_pos h, if_pos (by omega)]
      · rw [if_neg h, if_neg (by omega)]

theorem length_pieces {α : Type} {n : Nat} (hn : 0 < n) (xs : List α) :
    (pieces n xs).length = (xs.length + (n - 1)) / n := by
  induction xs using pieces.induct n with
  | case1 =>
    have hnone : ([] : List α).length + (n - 1) < n := by
      rw [List.length_nil]
      omega
    rw [pieces, Nat.div_eq_of_lt hnone, List.length_nil]
  | case2 a rest ih =>
    rw [pieces, List.length_cons, ih, List.length_drop, List.length_cons]
    by_cases h : rest.length ≤ n - 1
    · -- The rest fits in the first piece.
      have hzero : rest.length - (n - 1) + (n - 1) = n - 1 := by omega
      have hone : rest.length + 1 + (n - 1) = rest.length + n := by omega
      rw [hzero, Nat.div_eq_of_lt (by omega), hone, Nat.add_div_right _ hn,
        Nat.div_eq_of_lt (by omega)]
    · have hmore : rest.length + 1 + (n - 1) = (rest.length - (n - 1) + (n - 1)) + n := by omega
      rw [hmore, Nat.add_div_right _ hn]

/-- What a list of things that all came out well holds. -/
theorem getElem?_mapM {α β ε : Type} {f : α → Except ε β} {xs : List α} {ys : List β}
    (h : xs.mapM f = .ok ys) :
    ys.length = xs.length
      ∧ ∀ (k : Nat) (x : α), xs[k]? = some x → ∃ y, ys[k]? = some y ∧ f x = .ok y := by
  induction xs generalizing ys with
  | nil =>
    cases h
    exact ⟨rfl, nofun⟩
  | cons x xs ih =>
    rw [List.mapM_cons] at h
    cases hx : f x with
    | error e =>
      rw [hx] at h
      cases h
    | ok y =>
      cases hxs : xs.mapM f with
      | error e =>
        rw [hx, hxs] at h
        cases h
      | ok rest =>
        rw [hx, hxs] at h
        cases h
        obtain ⟨hlength, hall⟩ := ih hxs
        refine ⟨congrArg (· + 1) hlength, ?_⟩
        intro k z hz
        cases k with
        | zero =>
          cases hz
          exact ⟨y, rfl, hx⟩
        | succ k => exact hall k z hz

theorem Word.times_cases (a b : UInt32) :
    times a b = .ok (a * b) ∨ times a b = .error .overflow := by
  unfold times
  split
  · exact .inl rfl
  · exact .inr rfl

theorem Word.plus_cases (a b : UInt32) :
    plus a b = .ok (a + b) ∨ plus a b = .error .overflow := by
  unfold plus
  split
  · exact .inl rfl
  · exact .inr rfl

namespace ImageFile

/-- An image filled up with erased bytes to whole pages. -/
def padded (image : Bytes) : Bytes :=
  image ++ List.replicate (256 * ((image.length + 255) / 256) - image.length) erasedByte

theorem length_padded (image : Bytes) :
    (padded image).length = 256 * ((image.length + 255) / 256) := by
  unfold padded
  rw [List.length_append, List.length_replicate]
  omega

/-- A page of the padded image is the filled up piece of the image. -/
theorem fillPage_piece {image : Bytes} {k : Nat} (hk : 256 * k < image.length) :
    fillPage ((image.drop (256 * k)).take 256) = ((padded image).drop (256 * k)).take 256 := by
  have hsplit : (padded image).drop (256 * k) = image.drop (256 * k)
      ++ List.replicate (256 * ((image.length + 255) / 256) - image.length) erasedByte :=
    List.drop_append_of_le_length (Nat.le_of_lt hk)
  have hlength : (image.drop (256 * k)).length = image.length - 256 * k := List.length_drop
  rw [hsplit, fillPage, toNat_pageSize]
  by_cases hfull : 256 ≤ image.length - 256 * k
  · have htake : ((image.drop (256 * k)).take 256).length = 256 := by
      rw [List.length_take, hlength]
      omega
    rw [htake, List.take_append_of_le_length (by rw [hlength]; exact hfull)]
    simp
  · -- The last piece is short, and what it lacks is what the image lacks.
    have hlack : 256 * ((image.length + 255) / 256) - image.length
        = 256 - (image.length - 256 * k) := by omega
    rw [List.take_of_length_le (by rw [hlength]; omega), hlength, hlack,
      List.take_of_length_le (by simp [hlength]; omega)]

theorem pageSector_eq_ok {base familyId numBlocks : UInt32} {page : Bytes} {k : Nat} {s : Sector}
    (h : pageSector base familyId numBlocks (page, k) = .ok s) :
    s = (Header.page (base + UInt32.ofNat k * pageSize) (UInt32.ofNat k) numBlocks
      familyId).toSector (fillPage page) := by
  -- There is a sector, so neither of the two sums overflowed.
  rcases Word.times_cases (UInt32.ofNat k) pageSize with htimes | htimes
  · rcases Word.plus_cases base (UInt32.ofNat k * pageSize) with hplus | hplus
    · simp only [pageSector, htimes, hplus, bind, Except.bind, pure, Except.pure] at h
      exact (Except.ok.inj h).symm
    · simp [pageSector, htimes, hplus, bind, Except.bind] at h
  · simp [pageSector, htimes, bind, Except.bind] at h

/-- The pages of an image that can be packed. -/
def pagedImage (image : Bytes) (base : UInt32) (hpos : 0 < image.length)
    (haligned : base.toNat % 256 = 0) (hfits : base.toNat + image.length ≤ UInt32.size) :
    PagedImage :=
  { base, bytes := padded image, count := (image.length + 255) / 256
    pos := by omega
    length_bytes := length_padded image
    aligned := haligned
    fits := by
      have hsize : UInt32.size = 4294967296 := rfl
      omega }

/-- The sectors of its pages are those that come of its pieces. -/
theorem eq_sectors_of_mapM {image : Bytes} {base familyId : UInt32} {made : List Sector}
    (hpos : 0 < image.length) (haligned : base.toNat % 256 = 0)
    (hfits : base.toNat + image.length ≤ UInt32.size)
    (h : (pieces pageSize.toNat image).zipIdx.mapM (pageSector base familyId
      (UInt32.ofNat (pieces pageSize.toNat image).length)) = .ok made) :
    made = (pagedImage image base hpos haligned hfits).sectors familyId := by
  have hcount : (pieces pageSize.toNat image).length = (image.length + 255) / 256 :=
    length_pieces (by decide) image
  obtain ⟨hlength, hall⟩ := getElem?_mapM h
  rw [List.length_zipIdx, hcount] at hlength
  apply List.ext_getElem?
  intro k
  -- Page by page: the piece for a page, filled up, is the page of the padded image.
  by_cases hk : k < (pagedImage image base hpos haligned hfits).count
  · have hlt : 256 * k < image.length := by
      have hcountk : k < (image.length + 255) / 256 := hk
      omega
    have hpiece : (pieces pageSize.toNat image)[k]?
        = some ((image.drop (256 * k)).take 256) := by
      rw [getElem?_pieces (by decide), toNat_pageSize, if_pos hlt]
    have hzip : (pieces pageSize.toNat image).zipIdx[k]?
        = some ((image.drop (256 * k)).take 256, k) := by
      rw [List.getElem?_zipIdx, hpiece]
      simp
    obtain ⟨y, hy, hsector⟩ := hall k _ hzip
    have hpage : (pagedImage image base hpos haligned hfits).page (UInt32.ofNat k)
        = fillPage ((image.drop (256 * k)).take 256) := by
      rw [fillPage_piece hlt, PagedImage.page, PagedImage.toNat_ofNat hk]
      rfl
    rw [hy, PagedImage.sectors, List.getElem?_map, List.getElem?_range hk,
      pageSector_eq_ok hsector, hcount, ← hpage]
    rfl
  · rw [List.getElem?_eq_none (by rw [hlength]; exact Nat.not_lt.mp hk),
      List.getElem?_eq_none (by rw [PagedImage.length_sectors]; exact Nat.not_lt.mp hk)]

/-- What packing makes of an image: the sectors of its pages in order, with the
    image filled up to whole pages. -/
theorem pack_eq_ok {image : Bytes} {base familyId : UInt32} {sectors : List Sector}
    (h : pack image base familyId = .ok sectors) :
    ∃ img : PagedImage, img.base = base ∧ img.bytes = padded image
      ∧ sectors = img.sectors familyId := by
  unfold pack at h
  split at h
  · cases h
  split at h
  · cases h
  split at h
  · cases h
  -- What packing checks first is what the pages need.
  rename_i hempty hmisaligned hlong
  have hpos : 0 < image.length := by
    rw [List.length_pos_iff]
    rintro rfl
    exact hempty rfl
  have haligned : base.toNat % 256 = 0 := by
    have hzero : base % pageSize = 0 := by simpa using hmisaligned
    have hnat := congrArg UInt32.toNat hzero
    rwa [UInt32.toNat_mod, toNat_pageSize] at hnat
  have hfits : base.toNat + image.length ≤ UInt32.size := Nat.not_lt.mp hlong
  refine ⟨pagedImage image base hpos haligned hfits, rfl, rfl, ?_⟩
  cases hpages : (pieces pageSize.toNat image).zipIdx.mapM (pageSector base familyId
      (UInt32.ofNat (pieces pageSize.toNat image).length)) with
  | error e =>
    simp only [hpages] at h
    cases h
  | ok made =>
    simp only [hpages] at h
    obtain rfl : made = sectors := Except.ok.inj h
    exact eq_sectors_of_mapM hpos haligned hfits hpages

/-- A file has a sector for each page. -/
theorem length_pack {image : Bytes} {base familyId : UInt32} {sectors : List Sector}
    (h : pack image base familyId = .ok sectors) :
    sectors.length = (image.length + 255) / 256 := by
  obtain ⟨img, -, hbytes, rfl⟩ := pack_eq_ok h
  have hlength := img.length_bytes
  rw [hbytes, length_padded] at hlength
  rw [PagedImage.length_sectors]
  omega

theorem exists_mapM_eq_ok {α β ε : Type} {f : α → Except ε β} {xs : List α}
    (h : ∀ x ∈ xs, ∃ y, f x = .ok y) : ∃ ys, xs.mapM f = .ok ys := by
  induction xs with
  | nil => exact ⟨[], rfl⟩
  | cons x xs ih =>
    obtain ⟨y, hy⟩ := h x List.mem_cons_self
    obtain ⟨ys, hys⟩ := ih fun x' hx' => h x' (List.mem_cons_of_mem x hx')
    refine ⟨y :: ys, ?_⟩
    rw [List.mapM_cons, hy, hys]
    rfl

/-- A page that starts within the address space has a sector. -/
theorem exists_pageSector_eq_ok {base familyId numBlocks : UInt32} {page : Bytes} {k : Nat}
    (hk : base.toNat + 256 * k < UInt32.size) :
    ∃ s, pageSector base familyId numBlocks (page, k) = .ok s := by
  have hsize : UInt32.size = 4294967296 := rfl
  have hnat : (UInt32.ofNat k).toNat = k := by
    rw [UInt32.toNat_ofNat']
    omega
  have hmul : (UInt32.ofNat k * pageSize).toNat = 256 * k := by
    rw [UInt32.toNat_mul, hnat, toNat_pageSize]
    omega
  have htimes : (UInt32.ofNat k).toNat * pageSize.toNat < UInt32.size := by
    rw [hnat, toNat_pageSize]
    omega
  have hplus : base.toNat + (UInt32.ofNat k * pageSize).toNat < UInt32.size := by
    rw [hmul]
    exact hk
  refine ⟨(Header.page (base + UInt32.ofNat k * pageSize) (UInt32.ofNat k) numBlocks
    familyId).toSector (fillPage page), ?_⟩
  simp only [pageSector, Word.times_eq_ok htimes, Word.plus_eq_ok hplus, bind, Except.bind, pure,
    Except.pure]

/-- An image can be packed if there is something of it, it starts at a page and it
    ends within the address space. -/
theorem exists_pack_eq_ok {image : Bytes} {base : UInt32} (familyId : UInt32)
    (hpos : 0 < image.length) (haligned : base % pageSize = 0)
    (hfits : base.toNat + image.length ≤ UInt32.size) :
    ∃ sectors, pack image base familyId = .ok sectors := by
  have hsectors : ∀ page ∈ (pieces pageSize.toNat image).zipIdx, ∃ s,
      pageSector base familyId (UInt32.ofNat (pieces pageSize.toNat image).length) page
        = .ok s := by
    rintro ⟨page, k⟩ hmem
    have hk : k < (pieces pageSize.toNat image).length := by
      have h := (List.mem_zipIdx_iff_getElem?.mp hmem)
      exact (List.getElem?_eq_some_iff.mp h).1
    rw [length_pieces (by decide), toNat_pageSize] at hk
    exact exists_pageSector_eq_ok (by omega)
  obtain ⟨sectors, hall⟩ := exists_mapM_eq_ok hsectors
  have hempty : ¬ image.isEmpty = true := by
    rw [List.isEmpty_iff_length_eq_zero]
    omega
  refine ⟨sectors, ?_⟩
  simp only [pack, if_neg hempty, haligned, bne_self_eq_false, Bool.false_eq_true, if_false,
    if_neg (Nat.not_lt.mpr hfits), hall]
  rfl

end ImageFile

end Reflash
