import Reflash.Proofs.ErasedSectors
import Reflash.Proofs.RunHistory
/-! # When flash is erased

  Two things hold of every run in which the blocks come under distinct tokens other
  than zero.

  * A page of flash is programmed only where flash was erased: by the same job, or
    since the upload was started that the job was accepted into.
  * Where a page was programmed for a block that counts, flash is not erased any
    more.

  The second is about jobs that counted. A page that was programmed by a job which
  was overtaken is not protected: its sector is not noted as erased, and a later job
  erases it. `erases_overtaken_page` is a run in which that happens, to a block that
  came twice with two addresses.
-/

namespace Reflash

/-! ### Calls to flash -/

namespace Call

/-- A call erases an address. -/
def Erases (call : Call) (a : UInt32) : Prop :=
  ∃ update range, call = .updateFlash update ∧ update.erase = some range
    ∧ range.addr.toNat ≤ a.toNat ∧ a.toNat < range.addr.toNat + range.len.toNat

/-- A call erases all of a sector. -/
def ErasesSector (call : Call) (sector : Nat) : Prop :=
  ∀ a : UInt32, a.toNat / 4096 = sector → call.Erases a

/-- A call programs bytes from an address on. -/
def Programs (call : Call) (addr : UInt32) (bytes : Bytes) : Prop :=
  ∃ update, call = .updateFlash update ∧ update.program = some (addr, bytes)

end Call

namespace Job

variable {map : AddressMap} {capacity : UInt32} {job : Job}

/-- What a job erases is the sector of its page. -/
theorem Placed.erases_iff (hplaced : job.Placed map capacity) (hmap : map.WellFormed)
    (a : UInt32) : (job.pageCall map).Erases a ↔
      job.erase.isSome = true ∧ a.toNat / 4096 = job.addr.toNat / 4096 := by
  cases herase : job.erase with
  | none =>
    simp only [Option.isSome_none, Bool.false_eq_true, false_and, iff_false]
    rintro ⟨update, range, hcall, hrange, -⟩
    unfold pageCall at hcall
    split at hcall
    · cases hcall
    · cases hcall
      simp [herase] at hrange
  | some range =>
    obtain ⟨region, hregion, -, rfl⟩ := hplaced.erase_eq_some herase
    have hram : map.findOf? .ram job.addr pageSize = none := by
      cases hram : (map.findOf? .ram job.addr pageSize).isSome with
      | true => simp [hmap.findOf?_flash_eq_none hram] at hregion
      | false => exact Option.not_isSome_iff_eq_none.mp (by simp [hram])
    have hcall : job.pageCall map = .updateFlash ⟨some ⟨region.sectorBase job.addr, eraseSize⟩,
        some (job.addr, job.payload)⟩ := by
      rw [pageCall_of_flash hram, herase]
    have hstart := Region.toNat_sectorBase (hmap.aligned_of_findOf? hregion)
      (AddressMap.base_le_of_findOf? hregion)
    -- The range runs from one multiple of the size of a sector to the next.
    rw [hcall]
    simp only [Call.Erases, Call.updateFlash.injEq, exists_and_left, ↓existsAndEq,
      Option.some.injEq, true_and, hstart, toNat_eraseSize, Option.isSome_some]
    omega

/-- What a job programs is its page, which lies in one sector. -/
theorem Placed.of_programs {addr : UInt32} {bytes : Bytes} (hplaced : job.Placed map capacity)
    (h : (job.pageCall map).Programs addr bytes) :
    addr = job.addr ∧ bytes = job.payload ∧ addr.toNat % 256 = 0
      ∧ ∃ region, map.findOf? .flash job.addr pageSize = some region := by
  obtain ⟨update, hcall, hprogram⟩ := h
  unfold pageCall at hcall
  split at hcall
  · cases hcall
  · rename_i hram
    cases hcall
    obtain ⟨rfl, rfl⟩ := Prod.mk.inj (Option.some.inj hprogram)
    cases hplaced with
    | ram hisRam => exact absurd hisRam hram
    | flash region _ hregion _ _ hpage =>
      refine ⟨rfl, rfl, ?_, region, hregion⟩
      have hnat := congrArg UInt32.toNat hpage
      rwa [UInt32.toNat_mod] at hnat

end Job

/-! ### Erased since the start -/

namespace Watched

variable {σ : Type} [Machine σ]

/-- A step erases a sector of flash. -/
def ErasesSector (sector : Nat) (v v' : Watched (Logged σ)) : Prop :=
  ∃ call, v'.device.machine.calls = call :: v.device.machine.calls ∧ call.ErasesSector sector

/-- A job was accepted in the run at a time when a sector had been erased since the
    upload was started. -/
def AcceptedAfterErase (sector : Nat) (job : Job) (w₀ : Watched (Logged σ)) (moves : List Move) :
    Prop :=
  ∃ earlier m later v v' i before, moves = earlier ++ m :: later ∧ w₀.run earlier = .ok v
    ∧ v.step m = .ok v' ∧ v'.journal = .accepted i job :: before
    ∧ SinceStart (ErasesSector sector) w₀ (earlier ++ [m])

variable {w₀ : Watched (Logged σ)} {moves : List Move} {sector : Nat} {job : Job}

theorem AcceptedAfterErase.later (h : AcceptedAfterErase sector job w₀ moves) (m : Move) :
    AcceptedAfterErase sector job w₀ (moves ++ [m]) := by
  obtain ⟨earlier, m', later, v, v', i, before, rfl, h⟩ := h
  exact ⟨earlier, m', later ++ [m], v, v', i, before, by simp, h⟩

/-- What the run did for each sector that is noted, or soon will be. -/
structure Erased (map : AddressMap) (w₀ : Watched (Logged σ)) (moves : List Move)
    (w : Watched (Logged σ)) : Prop where
  /-- A sector that is noted was erased for the upload. -/
  noted : w.device.core.upload.numBlocks ≠ 0 → ∀ addr region,
    map.findOf? .flash addr pageSize = some region →
    w.device.core.upload.erasedSectors.contains (region.sectorNo addr) = true →
    SinceStart (ErasesSector (addr.toNat / 4096)) w₀ moves
  /-- A job that the upload waits for has erased what it says. -/
  done : w.device.core.upload.numBlocks ≠ 0 → ∀ job, w.device.phase = .done job →
    job.listener = some .upload → job.result = some .ok → job.erase.isSome = true →
    job.token = w.device.core.upload.token →
    SinceStart (ErasesSector (job.addr.toNat / 4096)) w₀ moves
  /-- A job that is still to run and erases nothing was made for a sector that was
      erased. -/
  staged : ∀ job, w.device.core.disk.job = some job ∨ w.device.phase = .holding .disk job →
    job.erase = none → ∀ region, map.findOf? .flash job.addr pageSize = some region →
    AcceptedAfterErase (job.addr.toNat / 4096) job w₀ moves

variable {map : AddressMap} {config : Config} {capacity : UInt32} {v v' : Watched (Logged σ)}
  {m : Move}

/-- A step that starts no upload and adds to nothing keeps what the run did. -/
theorem Erased.later (hv : Erased map w₀ moves v) (hrun : w₀.run moves = .ok v)
    (hstep : v.step m = .ok v') (hno : .started ∉ v.device.entries m)
    (hupload : v'.device.core.upload.numBlocks = v.device.core.upload.numBlocks
      ∧ v'.device.core.upload.erasedSectors = v.device.core.upload.erasedSectors)
    (hdone : ∀ job, v'.device.phase = .done job → job.listener = some .upload →
      job.result = some .ok → job.erase.isSome = true →
      job.token = v'.device.core.upload.token →
      v.device.phase = .done job ∧ job.token = v.device.core.upload.token
        ∨ ErasesSector (job.addr.toNat / 4096) v v')
    (hstaged : ∀ job, v'.device.core.disk.job = some job ∨ v'.device.phase = .holding .disk job →
      (v.device.core.disk.job = some job ∨ v.device.phase = .holding .disk job)
        ∨ (job.erase = none → ∀ region, map.findOf? .flash job.addr pageSize = some region →
          AcceptedAfterErase (job.addr.toNat / 4096) job w₀ (moves ++ [m]))) :
    Erased map w₀ (moves ++ [m]) v' := by
  obtain ⟨hn, herased⟩ := hupload
  refine ⟨?_, ?_, ?_⟩
  · rw [hn, herased]
    intro hn addr region hregion hcontains
    exact (hv.noted hn addr region hregion hcontains).later hrun hstep hno
  · rw [hn]
    intro hn job hphase hjob hok herase htoken
    rcases hdone job hphase hjob hok herase htoken with ⟨hphase', htoken'⟩ | hnow
    · exact (hv.done hn job hphase' hjob hok herase htoken').later hrun hstep hno
    · exact .now hrun hstep hnow
  · intro job hjob hnone region hregion
    rcases hstaged job hjob with hold | hnew
    · exact (hv.staged job hold hnone region hregion).later m
    · exact hnew hnone region hregion

/-- Where there is no upload, or a new one, no sector is noted. -/
theorem Erased.anew (hv : Erased map w₀ moves v)
    (hnoted : v'.device.core.upload.numBlocks ≠ 0 →
      (∀ s, v'.device.core.upload.erasedSectors.contains s = false)
        ∧ ∀ job, v'.device.phase = .done job → job.listener = some .upload →
          job.token ≠ v'.device.core.upload.token)
    (hstaged : ∀ job, v'.device.core.disk.job = some job ∨ v'.device.phase = .holding .disk job →
      (v.device.core.disk.job = some job ∨ v.device.phase = .holding .disk job)
        ∨ (job.erase = none → ∀ region, map.findOf? .flash job.addr pageSize = some region →
          AcceptedAfterErase (job.addr.toNat / 4096) job w₀ (moves ++ [m]))) :
    Erased map w₀ (moves ++ [m]) v' := by
  refine ⟨?_, ?_, ?_⟩
  · intro hn addr region _ hcontains
    rw [(hnoted hn).1] at hcontains
    cases hcontains
  · intro hn job hphase hjob _ _ htoken
    exact absurd htoken ((hnoted hn).2 job hphase hjob)
  · intro job hjob hnone region hregion
    rcases hstaged job hjob with hold | hnew
    · exact (hv.staged job hold hnone region hregion).later m
    · exact hnew hnone region hregion

/-- A block is dropped: what the run did is as before, or the upload is new. -/
theorem Erased.dropped (hv : Erased config.map w₀ moves v) (hw : v.Careful config capacity)
    (hzero : 0 ∉ v.journal.tokens) (hrun : w₀.run moves = .ok v) {block : Block}
    (hupload : v'.device = { v.device with core := { v.device.core with
      upload := (v.device.core.upload.joined block config).1 } })
    (hstep : v.step m = .ok v')
    (hentries : v.device.entries m = v.device.core.upload.startEntry block) :
    Erased config.map w₀ (moves ++ [m]) v' := by
  by_cases hsame : v.device.core.upload.numBlocks = block.header.numBlocks
  · rw [Upload.joined_of_eq hsame] at hupload
    have hsame' : v'.device = v.device := hupload
    have hno : .started ∉ v.device.entries m := by simp [hentries, Upload.startEntry, hsame]
    refine hv.later hrun hstep hno ?_ ?_ ?_
    · rw [hsame']
      exact ⟨rfl, rfl⟩
    · rw [hsame']
      exact fun _ hphase _ _ _ htoken => .inl ⟨hphase, htoken⟩
    · rw [hsame']
      exact fun _ => .inl
  · rw [Upload.joined_of_ne hsame] at hupload
    have hstarted := Upload.start_started v.device.core.upload
      (Upload.ramOf config.map block).isSome block.header.numBlocks
    refine hv.anew (fun _ => ⟨fun s => ?_, fun job hphase hjob htoken => ?_⟩) ?_
    · rw [hupload]
      simp [hstarted.erasedSectors]
    · -- The token of a new upload is zero, which no job has.
      rw [hupload] at hphase htoken
      have hworks : v.device.phase.job? = some job := by
        rw [show v.device.phase = .done job from hphase]
        rfl
      have hmem := hw.sourced.token_mem hworks hjob
      rw [htoken.trans hstarted.token] at hmem
      exact hzero hmem
    · rw [hupload]
      exact fun _ => .inl

/-- A block is taken: a job made for it without an erase was made for a sector that
    was erased for the upload. -/
theorem Erased.taken (hv : Erased config.map w₀ moves v) (hw : v.Careful config capacity)
    (hrun : w₀.run moves = .ok v) {block : Block} {token : UInt32} {new : Job}
    (hfresh : token ∉ v.journal.tokens)
    (hnew : new = ((v.device.core.upload.joined block config).1.pageJob block token
      (Upload.flashOf config.map block)).forUpload)
    (hn : block.header.numBlocks ≠ 0)
    (hupload : v'.device.core.upload = { (v.device.core.upload.joined block config).1 with
      blockNo := block.header.blockNo, token })
    (hdisk : v'.device.core.disk.job = some new) (hphase : v'.device.phase = v.device.phase)
    (hstep : v.step m = .ok v')
    (hentries : v.device.entries m
      = .accepted block.header.blockNo new :: v.device.core.upload.startEntry block) :
    Erased config.map w₀ (moves ++ [m]) v' := by
  -- No job that the worker is done with has the new token.
  have hother : ∀ job, v'.device.phase = .done job → job.listener = some .upload →
      job.token ≠ token := by
    intro job hdone hjob htoken
    have hworks : v.device.phase.job? = some job := by
      rw [← hphase, hdone]
      rfl
    exact hfresh (htoken ▸ hw.sourced.token_mem hworks hjob)
  have hjournal : v'.journal = .accepted block.header.blockNo new
      :: (v.device.core.upload.startEntry block ++ v.journal) := by
    rw [step_journal hstep, hentries]
    rfl
  have hstaged : ∀ job,
      v'.device.core.disk.job = some job ∨ v'.device.phase = .holding .disk job →
      (v.device.core.disk.job = some job ∨ v.device.phase = .holding .disk job)
        ∨ (job.erase = none → ∀ region,
          config.map.findOf? .flash job.addr pageSize = some region →
          AcceptedAfterErase (job.addr.toNat / 4096) job w₀ (moves ++ [m])) := by
    intro job hjob
    rcases hjob with hjob | hjob
    · right
      intro hnone region hregion
      obtain rfl : new = job := Option.some.inj (hdisk.symm.trans hjob)
      subst hnew
      obtain ⟨hsame, hcontains⟩ :=
        Upload.contains_of_joined (Upload.ready_pageJob hnone region hregion)
      have hno : .started ∉ v.device.entries m := by
        simp [hentries, Upload.startEntry, hsame]
      exact ⟨moves, m, [], v, v', block.header.blockNo, _, rfl, hrun, hstep, hjournal,
        (hv.noted (hsame ▸ hn) _ region hregion hcontains).later hrun hstep hno⟩
    · exact .inl (.inr (hphase ▸ hjob))
  by_cases hsame : v.device.core.upload.numBlocks = block.header.numBlocks
  · rw [Upload.joined_of_eq hsame] at hupload
    have hno : .started ∉ v.device.entries m := by simp [hentries, Upload.startEntry, hsame]
    refine hv.later hrun hstep hno ?_ (fun job hdone hjob _ _ htoken => ?_) hstaged
    · rw [hupload]
      exact ⟨rfl, rfl⟩
    · rw [hupload] at htoken
      exact absurd htoken (hother job hdone hjob)
  · rw [Upload.joined_of_ne hsame] at hupload
    have hstarted := Upload.start_started v.device.core.upload
      (Upload.ramOf config.map block).isSome block.header.numBlocks
    refine hv.anew (fun _ => ⟨fun s => ?_, fun job hdone hjob => ?_⟩) hstaged
    · rw [hupload]
      simp [hstarted.erasedSectors]
    · rw [hupload]
      exact hother job hdone hjob

/-- A job of the disk that ended well erased what it says. -/
theorem Careful.erased_of_carriedOut (hw : v.Careful config capacity) (hmap : config.map.WellFormed)
    {origin : Channel} {job : Job} (hphase : v.device.phase = .holding origin job)
    (hmachine : v'.device.machine = (v.device.execute job).1.machine)
    (hjob : (v.device.execute job).2.1.listener = some .upload)
    (hok : (v.device.execute job).2.2 = .ok)
    (herase : (v.device.execute job).2.1.erase.isSome = true) :
    ErasesSector ((v.device.execute job).2.1.addr.toNat / 4096) v v' := by
  rw [listener_execute] at hjob
  have hworks : v.device.phase.job? = some job := by rw [hphase]; rfl
  obtain ⟨hpage, hplaced⟩ := hw.placed hworks hjob
  obtain rfl := hw.configured
  cases hdue : v.device.core.rebooting with
  | true =>
    rw [v.device.execute_of_rebooting job hdue] at hok
    cases hok
  | false =>
    have hexecute := v.device.execute_placed hpage hplaced hmap hdue
    rw [hexecute] at hmachine herase ⊢
    refine ⟨job.pageCall v.device.core.config.map, by rw [hmachine]; rfl, fun a ha => ?_⟩
    exact (hplaced.erases_iff hmap a).mpr ⟨herase, ha⟩

/-- A job is credited: the sector that is noted now is the one that the job has erased. -/
theorem Erased.credited (hv : Erased config.map w₀ moves v) (hw : v.Careful config capacity)
    (hmap : config.map.WellFormed) (hrun : w₀.run moves = .ok v) (hstep : v.step m = .ok v')
    {job : Job} {u : Upload} {request : Option RebootRequest} (hphase : v.device.phase = .done job)
    (hjob : job.listener = some .upload)
    (hcredit : v.device.core.upload.credit job v.device.core.config = .ok (u, request))
    (hno : .started ∉ v.device.entries m) (hupload : v'.device.core.upload = u)
    (hidle : v'.device.phase = .idle) (hdisk : v'.device.core.disk = v.device.core.disk) :
    Erased config.map w₀ (moves ++ [m]) v' := by
  have hworks : v.device.phase.job? = some job := by rw [hphase]; rfl
  have hdone : ∀ other, v'.device.phase ≠ .done other := by
    intro other hother
    cases hidle.symm.trans hother
  have hstaged : ∀ other,
      v'.device.core.disk.job = some other ∨ v'.device.phase = .holding .disk other →
      v.device.core.disk.job = some other ∨ v.device.phase = .holding .disk other := by
    rintro other (hother | hother)
    · exact .inl (hdisk ▸ hother)
    · cases hidle.symm.trans hother
  rcases Upload.cases_of_credit hw.books.sound hcredit with ⟨-, rfl, -⟩ | ⟨hawaits, hcredits⟩
  · refine hv.later hrun hstep hno ?_ ?_ fun other hother => .inl (hstaged other hother)
    · rw [hupload]
      exact ⟨rfl, rfl⟩
    · exact fun other hother => absurd hother (hdone other)
  · obtain rfl := hw.configured
    simp only [Upload.awaits, Bool.and_eq_true, bne_iff_ne, beq_iff_eq] at hawaits
    obtain ⟨⟨hn, htoken⟩, hok⟩ := hawaits
    have hplaced := (hw.placed hworks hjob).2
    refine ⟨?_, ?_, fun other hother hnone region hregion => ?_⟩
    · intro _ addr region hregion hcontains
      rw [hupload, hcredits.erasedSectors, Upload.contains_erasedWith_iff hmap hplaced
        hw.tended.size] at hcontains
      rcases hcontains with hold | ⟨region', hregion', herase, hsector⟩
      · exact (hv.noted hn addr region hregion hold).later hrun hstep hno
      · obtain rfl := hmap.eq_of_findOf? hregion' hregion
        have hplace := (Region.sectorNo_eq_iff (hmap.aligned_of_findOf? hregion)
          (AddressMap.base_le_of_findOf? hregion)
          (AddressMap.base_le_of_findOf? hregion')).mp hsector
        rw [hplace]
        exact (hv.done hn job hphase hjob hok herase htoken).later hrun hstep hno
    · exact fun _ other hother => absurd hother (hdone other)
    · exact (hv.staged other (hstaged other hother) hnone region hregion).later m

/-- Every step keeps what the run did. -/
theorem Erased.step (hv : Erased config.map w₀ moves v) (hw : v.Careful config capacity)
    (hmap : config.map.WellFormed) (hrun : w₀.run moves = .ok v) (hstep : v.step m = .ok v')
    (h : v.device.Step (v.device.entries m) v'.device)
    (hdistinct : v'.journal.tokens.Nodup) (hzero : 0 ∉ v'.journal.tokens) :
    Erased config.map w₀ (moves ++ [m]) v' := by
  have hzero₀ : 0 ∉ v.journal.tokens := by
    rw [step_journal hstep, Journal.tokens_append] at hzero
    exact fun hmem => hzero (List.mem_append_right _ hmem)
  have hjournal := step_journal hstep
  generalize hes : v.device.entries m = es at h hjournal
  generalize hd : v'.device = d' at h
  -- Most steps leave the upload and the jobs that are done alone.
  have hsame : .started ∉ es → d'.core.upload = v.device.core.upload →
      (∀ job, d'.phase = .done job → job.listener = some .upload → job.result = some .ok →
        job.erase.isSome = true →
        v.device.phase = .done job ∨ ErasesSector (job.addr.toNat / 4096) v v') →
      (∀ job, d'.core.disk.job = some job ∨ d'.phase = .holding .disk job →
        v.device.core.disk.job = some job ∨ v.device.phase = .holding .disk job) →
      Erased config.map w₀ (moves ++ [m]) v' := by
    intro hno hupload hdone hjobs
    refine hv.later hrun hstep (hes ▸ hno) ?_ ?_ ?_
    · rw [hd, hupload]
      exact ⟨rfl, rfl⟩
    · rw [hd, hupload]
      exact fun job hphase hjob hok herase htoken =>
        (hdone job hphase hjob hok herase).imp_left fun h => ⟨h, htoken⟩
    · rw [hd]
      exact fun job hjob => .inl (hjobs job hjob)
  cases h with
  | nothing => exact hsame (by simp) rfl (fun _ h _ _ _ => .inl h) fun _ => id
  | @block token sector block u job hblock hcases =>
    obtain rfl := hw.configured
    cases hcases with
    | turnedAway =>
      refine hv.anew (fun hn => ?_) ?_
      · rw [hd] at hn
        exact absurd rfl hn
      · rw [hd]
        exact fun _ => .inl
    | dropped hstay =>
      unfold Upload.entries at hes
      rw [if_neg (by simp [hstay])] at hes
      exact hv.dropped hw hzero₀ hrun hd hstep hes
    | taken hstay =>
      unfold Upload.entries at hes hjournal
      rw [if_neg (by simp [hstay])] at hes hjournal
      refine hv.taken hw hrun ?_ rfl (fun hn => ?_) (by rw [hd]; rfl) (by rw [hd]; rfl)
        (by rw [hd]) hstep hes
      · -- The token of the new job stands in the journal once.
        rw [hjournal] at hdistinct
        simp only [Option.map_some, Option.toList_some, List.map_cons, List.map_nil,
          List.cons_append, List.nil_append, Journal.tokens_cons, Journal.tokens_append,
          Entry.token?] at hdistinct
        exact fun hmem => (List.nodup_cons.mp hdistinct).1 (List.mem_append_right _ hmem)
      · simp [Upload.turnsAway, hn] at hstay
  | resetDisk =>
    refine hv.anew (fun hn => ?_) ?_
    · rw [hd] at hn
      exact absurd rfl hn
    · rw [hd]
      exact fun _ => .inl
  | setMode => exact hsame (by simp) rfl (fun _ h _ _ _ => .inl h) fun _ => id
  | latch => exact hsame (by simp) rfl (fun _ h _ _ _ => .inl h) fun _ => id
  | command => exact hsame (by simp) rfl (fun _ h _ _ _ => .inl h) fun _ => id
  | @take origin job _ hjob hfirst =>
    refine hsame (by simp) (by cases origin <;> rfl) (by simp) fun other hother => ?_
    cases origin with
    | disk =>
      rcases hother with hother | hother
      · cases hother
      · cases hother
        exact .inl hjob
    | control =>
      rcases hother with hother | hother
      · exact .inl hother
      · cases hother
  | keptOut hphase =>
    refine hsame (by simp) rfl (fun other hother _ hok => ?_) fun other hother => ?_
    · cases hother
      cases hok
    · exact .inl (hother.resolve_right (by simp))
  | @carriedOut origin job hphase =>
    refine hsame (by simp) rfl (fun other hother hjob hok herase => ?_) fun other hother => ?_
    · cases hother
      right
      exact hw.erased_of_carriedOut hmap hphase (by rw [hd]) hjob (Option.some.inj hok) herase
    · rw [disk_execute] at hother
      exact .inl (hother.resolve_right (by simp))
  | told =>
    exact hsame (by simp) rfl (by simp) fun other hother => .inl (hother.resolve_right (by simp))
  | @credited job u request hphase hjob hcredit =>
    exact hv.credited hw hmap hrun hstep hphase hjob hcredit (by simp [hes]) (by rw [hd])
      (by rw [hd]) (by rw [hd])

/-- The sector of a job is in flash as a whole. -/
theorem contains_of_sector {region : Region} {addr a : UInt32} (hmap : map.WellFormed)
    (hregion : map.findOf? .flash addr pageSize = some region)
    (ha : a.toNat / 4096 = addr.toNat / 4096) : region.contains a = true := by
  have haligned := hmap.aligned_of_findOf? hregion
  have hcontains := AddressMap.contains_of_findOf? hregion
  have hstart := Region.toNat_sectorBase haligned (AddressMap.base_le_of_findOf? hregion)
  refine Region.contains_of_covers (by decide) (Region.covers_sector haligned hcontains) ?_ ?_
  · rw [hstart]
    omega
  · rw [hstart, toNat_eraseSize]
    omega

omit [Machine σ] in
/-- A job that the worker holds does not erase where a job wrote that counted. -/
theorem Careful.not_erased (hw : v.Careful config capacity) (hmap : config.map.WellFormed)
    (hn : v.device.core.upload.numBlocks ≠ 0) {job counted : Job} {i a : UInt32}
    (hphase : v.device.phase = .holding .disk job)
    (hcounted : v.journal.current.CountedBy i counted)
    (ha : (job.pageCall config.map).Erases a) : a.toNat / 4096 ≠ counted.addr.toNat / 4096 := by
  have hworks : v.device.phase.job? = some job := by rw [hphase]; rfl
  obtain ⟨-, hplaced⟩ := hw.placed hworks (hw.orderly.held job hphase)
  obtain ⟨herase, hsector⟩ := (hplaced.erases_iff hmap a).mp ha
  obtain ⟨range, hrange⟩ := Option.isSome_iff_exists.mp herase
  obtain ⟨region, hregion, -, -⟩ := hplaced.erase_eq_some hrange
  have hmem : .accepted i counted ∈ v.journal :=
    (List.takeWhile_prefix _).subset hcounted.accepted_mem
  obtain ⟨-, -, hplaced'⟩ := hw.tended.placed i counted hmem
  intro hsame
  have hplace : counted.addr.toNat / 4096 = job.addr.toNat / 4096 := hsame.symm.trans hsector
  have hcontains := contains_of_sector hmap hregion hplace
  cases hplaced' with
  | ram hram =>
    -- Flash and RAM do not overlap.
    obtain ⟨ram, hram⟩ := Option.isSome_iff_exists.mp hram
    have hone := hmap.eq_of_contains (AddressMap.mem_of_findOf? hram)
      (AddressMap.mem_of_findOf? hregion) (AddressMap.contains_of_findOf? hram) hcontains
    have hkind := AddressMap.kind_of_findOf? hram
    rw [hone, AddressMap.kind_of_findOf? hregion] at hkind
    cases hkind
  | flash region' _ hregion' =>
    obtain rfl := hmap.eq_of_findOf? hregion' hregion
    -- The sector of the job that counted is noted, that of the job which erases is not.
    have hno : region'.sectorNo counted.addr = region'.sectorNo job.addr :=
      (Region.sectorNo_eq_iff (hmap.aligned_of_findOf? hregion)
        (AddressMap.base_le_of_findOf? hregion')
        (AddressMap.base_le_of_findOf? hregion)).mpr hplace
    have hnoted := hw.tended.noted hn i counted hcounted region' hregion'
    rw [hno] at hnoted
    obtain rfl := hw.configured
    rw [hw.orderly.unready hn job (.inr hphase) herase region' hregion] at hnoted
    cases hnoted

/-! ### Whole runs -/

/-- What is known of a run at its end, if its blocks come under distinct tokens
    other than zero. -/
theorem run_careful (config : Config) (ramBlocks flashBlocks erasedSectors : IndexSet)
    (machine : σ) {moves : List Move} (hmap : config.map.WellFormed)
    (hdistinct : (moves.filterMap (Move.blockToken? config.familyId)).Nodup)
    (hzero : 0 ∉ moves.filterMap (Move.blockToken? config.familyId)) :
    ∃ w, (fresh config ramBlocks flashBlocks erasedSectors (Logged.new machine)).run moves = .ok w
      ∧ w.Careful config erasedSectors.capacity ∧ w.Tracked ∧ 0 ∉ w.journal.tokens
      ∧ Erased config.map
          (fresh config ramBlocks flashBlocks erasedSectors (Logged.new machine)) moves w := by
  let w₀ := fresh config ramBlocks flashBlocks erasedSectors (Logged.new machine)
  let capacity := erasedSectors.capacity
  have hfresh : w₀.Careful config capacity := by
    refine ⟨rfl, Upload.books_of_idle rfl rfl, ?_, ?_, ?_⟩
    · constructor <;> intros <;> trivial
    · exact ⟨rfl, by simp [w₀, fresh], fun hn => absurd rfl hn, fun hn => absurd rfl hn⟩
    · refine ⟨fun hn => absurd rfl hn, fun hn => absurd rfl hn, fun job other hjob => ?_,
        fun job hjob => ?_⟩
      · cases hjob
      · cases hjob
  have herased : Erased config.map w₀ [] w₀ := by
    refine ⟨fun hn => absurd rfl hn, fun hn => absurd rfl hn, fun job hjob => ?_⟩
    rcases hjob with hjob | hjob <;> cases hjob
  -- What depends on the tokens is kept as long as those in the journal are distinct and not zero.
  obtain ⟨w, hrun, hbooks, hsourced, hrest⟩ : ∃ w, w₀.run moves = .ok w
      ∧ w.device.core.upload.Books w.journal ∧ w.Sourced
      ∧ (w.journal.tokens.Nodup → 0 ∉ w.journal.tokens →
        w.Careful config capacity ∧ Erased config.map w₀ moves w) := by
    refine run_history (P := fun moves w => w.device.core.upload.Books w.journal ∧ w.Sourced
      ∧ (w.journal.tokens.Nodup → 0 ∉ w.journal.tokens →
        w.Careful config capacity ∧ Erased config.map w₀ moves w)) ?_ ?_ moves
    · exact ⟨hfresh.books, hfresh.sourced, fun _ _ => ⟨hfresh, herased⟩⟩
    · rintro moves v m hrun ⟨hbooks, hsourced, hrest⟩
      obtain ⟨d, hstep, hd⟩ := v.step_ok hbooks.sound m
      refine ⟨_, hstep, books_step hbooks hd, Sourced.step hsourced hd,
        fun hdistinct' hzero' => ?_⟩
      have hdistinct₀ := (List.nodup_append.mp (Journal.tokens_append _ _ ▸ hdistinct')).2.1
      have hzero₀ : 0 ∉ v.journal.tokens := by
        rw [Journal.tokens_append] at hzero'
        exact fun hmem => hzero' (List.mem_append_right _ hmem)
      obtain ⟨hv, hdone⟩ := hrest hdistinct₀ hzero₀
      exact ⟨⟨hd.config.trans hv.configured, books_step hbooks hd, Sourced.step hsourced hd,
          hv.tended_step hmap hd, hv.orderly_step hd hdistinct' hzero'⟩,
        hdone.step hv hmap hrun hstep hd hdistinct' hzero'⟩
  -- The tokens in the journal are some of those that the blocks came with.
  have htokens := tokens_run hfresh.books.sound hrun
  rw [show w₀.journal.tokens = [] from rfl, List.append_nil] at htokens
  have hnodup := htokens.nodup (List.nodup_reverse.mpr hdistinct)
  have hnonzero : 0 ∉ w.journal.tokens := fun hmem =>
    hzero (List.mem_reverse.mp (htokens.subset hmem))
  obtain ⟨hw, hdone⟩ := hrest hnodup hnonzero
  exact ⟨w, hrun, hw, ⟨hbooks, hsourced, hnodup⟩, hnonzero, hdone⟩

omit [Machine σ] in
/-- Every valid block has a job that counted for it, if no token is zero. -/
theorem Tracked.exists_countedBy {w : Watched (Logged σ)} (hw : w.Tracked)
    (hzero : 0 ∉ w.journal.tokens) (hn : w.device.core.upload.numBlocks ≠ 0) {i : UInt32}
    (hvalid : w.device.core.upload.isBlockValid i = true) :
    ∃ job, w.journal.current.CountedBy i job := by
  obtain ⟨before, hjournal⟩ := hw.books.started hn
  have hcounts := (hw.books.valid hn i).mp hvalid
  rcases (hw.counts_iff hjournal i).mp hcounts with hwritten | ⟨-, -, -, j, job, -, -, hmem, htoken⟩
  · exact hwritten.exists_countedBy
  · -- A stray job would have token zero.
    refine absurd ?_ hzero
    rw [← htoken]
    refine Journal.token_mem_tokens (i := j) ?_
    rw [hjournal]
    exact List.mem_append_right _ (List.mem_cons_of_mem _ hmem)

/-- What a job of the disk does to flash when it is carried out. -/
theorem Careful.carryOut_calls (hw : v.Careful config capacity) (hmap : config.map.WellFormed)
    {job : Job} (hphase : v.device.phase = .holding .disk job) :
    v.device.carryOut.machine.calls = v.device.machine.calls
      ∨ v.device.carryOut.machine.calls = job.pageCall config.map :: v.device.machine.calls := by
  have hworks : v.device.phase.job? = some job := by rw [hphase]; rfl
  obtain ⟨hpage, hplaced⟩ := hw.placed hworks (hw.orderly.held job hphase)
  obtain rfl := hw.configured
  cases hfence : (v.device.core.slot .disk).isFenced with
  | true =>
    left
    rw [Device.carryOut_of_fenced hphase hfence]
  | false =>
    cases hdue : v.device.core.rebooting with
    | true =>
      left
      rw [Device.carryOut_of_open hphase hfence, v.device.execute_of_rebooting job hdue]
    | false =>
      right
      rw [Device.carryOut_of_open hphase hfence, v.device.execute_placed hpage hplaced hmap hdue]
      rfl

/-- Where flash is programmed it was erased, by the job itself or since the start
    of the upload that the job was accepted into; and where a job programmed that
    counted for a block, flash is not erased any more. Every valid block has such a
    job. -/
theorem erases_before_programming (config : Config)
    (ramBlocks flashBlocks erasedSectors : IndexSet) (machine : σ) {moves : List Move}
    (hmap : config.map.WellFormed)
    (hdistinct : (moves.filterMap (Move.blockToken? config.familyId)).Nodup)
    (hzero : 0 ∉ moves.filterMap (Move.blockToken? config.familyId)) :
    ∃ w, (fresh config ramBlocks flashBlocks erasedSectors (Logged.new machine)).run moves = .ok w
      ∧ (w.device.core.upload.numBlocks ≠ 0 → ∀ i, w.device.core.upload.isBlockValid i = true →
        ∃ job, w.journal.current.CountedBy i job)
      ∧ ∀ job, w.device.phase = .holding .disk job →
        ∃ w' new, w.step .carryOut = .ok w'
          ∧ w'.device.machine.calls = new ++ w.device.machine.calls
          ∧ ∀ call ∈ new,
            (∀ addr bytes, call.Programs addr bytes →
              addr.toNat % 256 = 0 ∧ bytes.length = 256
                ∧ (call.ErasesSector (addr.toNat / 4096)
                  ∨ AcceptedAfterErase (addr.toNat / 4096) job
                      (fresh config ramBlocks flashBlocks erasedSectors (Logged.new machine))
                      moves))
            ∧ (w.device.core.upload.numBlocks ≠ 0 → ∀ i counted,
                w.journal.current.CountedBy i counted → ∀ a, call.Erases a →
                a.toNat / 4096 ≠ counted.addr.toNat / 4096) := by
  obtain ⟨w, hrun, hw, htracked, hnonzero, herased⟩ :=
    run_careful config ramBlocks flashBlocks erasedSectors machine hmap hdistinct hzero
  refine ⟨w, hrun, fun hn i hvalid => htracked.exists_countedBy hnonzero hn hvalid, ?_⟩
  intro job hphase
  rcases hw.carryOut_calls hmap hphase with hnone | hcall
  · exact ⟨_, [], rfl, hnone, by simp⟩
  · refine ⟨_, [job.pageCall config.map], rfl, hcall, ?_⟩
    intro call hmem
    rw [List.mem_singleton.mp hmem]
    have hworks : w.device.phase.job? = some job := by rw [hphase]; rfl
    obtain ⟨hpage, hplaced⟩ := hw.placed hworks (hw.orderly.held job hphase)
    refine ⟨fun addr bytes hprograms => ?_, fun hn i counted hcounted a ha =>
      hw.not_erased hmap hn hphase hcounted ha⟩
    obtain ⟨rfl, rfl, hpageAddr, region, hregion⟩ := hplaced.of_programs hprograms
    refine ⟨hpageAddr, hpage.length_payload, ?_⟩
    cases herase : job.erase with
    | none => exact .inr (herased.staged job (.inr hphase) herase region hregion)
    | some range => exact .inl fun a ha => (hplaced.erases_iff hmap a).mpr ⟨by simp [herase], ha⟩

/-! ### A page that was overtaken

  On the board with flash, an image of two pages comes with two copies of its first
  page, in different sectors. The job for the one is overtaken by the job for the
  other.
-/

/-- Two copies of page zero come, the second while the worker holds the job for the
    first, and then page one comes. -/
def movesOfTwo : List Move :=
  [.sector 1 (pageOfTwo 0x10001000 0).toSector, .take,
    .sector 2 (pageOfTwo 0x10000000 0).toSector, .carryOut, .finish, .take, .carryOut, .finish,
    .sector 3 (pageOfTwo 0x10001100 1).toSector, .take]

theorem tokens_movesOfTwo :
    movesOfTwo.filterMap (Move.blockToken? flashBoard.familyId) = [1, 2, 3] := by
  unfold movesOfTwo
  rw [List.filterMap_cons_some (blockToken?_pageOfTwo 1 _ _), List.filterMap_cons_none rfl,
    List.filterMap_cons_some (blockToken?_pageOfTwo 2 _ _), List.filterMap_cons_none rfl,
    List.filterMap_cons_none rfl, List.filterMap_cons_none rfl, List.filterMap_cons_none rfl,
    List.filterMap_cons_none rfl, List.filterMap_cons_some (blockToken?_pageOfTwo 3 _ _),
    List.filterMap_cons_none rfl, List.filterMap_nil]

theorem distinct_tokens_movesOfTwo :
    (movesOfTwo.filterMap (Move.blockToken? flashBoard.familyId)).Nodup
      ∧ 0 ∉ movesOfTwo.filterMap (Move.blockToken? flashBoard.familyId) := by
  rw [tokens_movesOfTwo]
  decide

/-- That run, up to where the worker holds the job for page one. -/
theorem run_movesOfTwo :
    ∃ machine journal, (fresh flashBoard (.empty 1) (.empty 1) (.empty 1)
        (Logged.new (⟨[]⟩ : Recorder))).run movesOfTwo
          = .ok (boardOfTwo (uploadOfTwo 1 1 1 0x10000000 1 3) none
            (.holding .disk (jobOfTwo 1 3 0x10001100 1)) (some .disk) machine journal)
      ∧ .accepted 0 (jobOfTwo 0 1 0x10001000 0) ∈ journal.current
      ∧ .carriedOut (jobOfTwo 0 1 0x10001000 0).endedWell ∈ journal.current
      ∧ (jobOfTwo 0 1 0x10001000 0).pageCall flashBoard.map ∈ machine.calls := by
  let first := jobOfTwo 0 1 0x10001000 0
  let second := jobOfTwo 0 2 0x10000000 0
  let last := jobOfTwo 1 3 0x10001100 1
  let m₀ : Logged Recorder := Logged.new ⟨[]⟩
  let m₁ := Machine.perform m₀ (first.pageCall flashBoard.map)
  let m₂ := Machine.perform m₁ (.complete first.endedWell.response)
  let m₃ := Machine.perform m₂ (second.pageCall flashBoard.map)
  let m₄ := Machine.perform m₃ (.complete second.endedWell.response)
  let u₀ : Upload := .onSets (.empty 1) (.empty 1) (.empty 1)
  let u₁ := uploadOfTwo 0 0 0 0xFFFFFFFF 0 1
  let u₂ := uploadOfTwo 0 0 0 0xFFFFFFFF 0 2
  let u₃ := uploadOfTwo 1 1 1 0x10000000 0 2
  let u₄ := uploadOfTwo 1 1 1 0x10000000 1 3
  have hsector₁ : (boardOfTwo u₀ none .idle none m₀ []).step
      (.sector 1 (pageOfTwo 0x10001000 0).toSector)
        = .ok (boardOfTwo u₁ (some first) .idle none m₀ [.accepted 0 first, .started]) :=
    boardOfTwo_sector (v := uploadOfTwo 0 0 0 0xFFFFFFFF 0 0) (by decide) (by decide) rfl
      (by decide) (by decide) (by decide)
  have hsector₂ : (boardOfTwo u₁ none (.holding .disk first) none m₀
      [.accepted 0 first, .started]).step (.sector 2 (pageOfTwo 0x10000000 0).toSector)
        = .ok (boardOfTwo u₂ (some second) (.holding .disk first) none m₀
          [.accepted 0 second, .accepted 0 first, .started]) :=
    boardOfTwo_sector (v := u₁) (by decide) (by decide) rfl (by decide) (by decide) (by decide)
  have hplaced₁ : first.Placed flashBoard.map 32 :=
    placed_jobOfTwo (by decide) (by decide) (by decide) (by decide)
  have hplaced₂ : second.Placed flashBoard.map 32 :=
    placed_jobOfTwo (by decide) (by decide) (by decide) (by decide)
  -- The upload waits for the second job, so the first one is told of for nothing.
  have hcredit₁ : u₂.credit first.endedWell flashBoard = .ok (u₂, none) := by decide
  have hcredit₂ : u₂.credit second.endedWell flashBoard = .ok (u₃, none) := by decide
  have hsector₃ : ∀ journal, (boardOfTwo u₃ none .idle (some .disk) m₄ journal).step
      (.sector 3 (pageOfTwo 0x10001100 1).toSector)
        = .ok (boardOfTwo u₄ (some last) .idle (some .disk) m₄ (.accepted 1 last :: journal)) :=
    fun _ => boardOfTwo_sector (v := u₃) (by decide) (by decide) rfl (by decide) (by decide)
      (by decide)
  have hrun : (boardOfTwo u₀ none .idle none m₀ []).run movesOfTwo = .ok _ :=
    (run_cons _ _ _ _ hsector₁).trans <| (run_cons _ _ _ _ boardOfTwo_take).trans <|
    (run_cons _ _ _ _ hsector₂).trans <|
    (run_cons _ _ _ _ (boardOfTwo_carryOut writesPage_jobOfTwo hplaced₁)).trans <|
    (run_cons _ _ _ _ (boardOfTwo_finish rfl hcredit₁)).trans <|
    (run_cons _ _ _ _ boardOfTwo_take).trans <|
    (run_cons _ _ _ _ (boardOfTwo_carryOut writesPage_jobOfTwo hplaced₂)).trans <|
    (run_cons _ _ _ _ (boardOfTwo_finish rfl hcredit₂)).trans <|
    (run_cons _ _ _ _ (hsector₃ _)).trans <| run_cons _ _ _ _ boardOfTwo_take
  exact ⟨_, _, hrun, by simp [Journal.current, Entry.isBoundary, first],
    by simp [Journal.current, Entry.isBoundary], by simp [m₄, m₃, m₂, m₁, first]⟩

/-- Flash is erased before it is programmed in that run, too. -/
theorem erases_before_programming_ofTwo :
    flashBoard.map.WellFormed
      ∧ (movesOfTwo.filterMap (Move.blockToken? flashBoard.familyId)).Nodup
      ∧ 0 ∉ movesOfTwo.filterMap (Move.blockToken? flashBoard.familyId)
      ∧ ∃ w w' new, (fresh flashBoard (.empty 1) (.empty 1) (.empty 1)
          (Logged.new (⟨[]⟩ : Recorder))).run movesOfTwo = .ok w
        ∧ w.device.core.upload.isBlockValid 0 = true
        ∧ (∃ job, w.journal.current.CountedBy 0 job)
        ∧ w.step .carryOut = .ok w'
        ∧ w'.device.machine.calls = new ++ w.device.machine.calls
        ∧ ∀ call ∈ new, ∀ i counted, w.journal.current.CountedBy i counted →
          ∀ a, call.Erases a → a.toNat / 4096 ≠ counted.addr.toNat / 4096 := by
  obtain ⟨hdistinct, hzero⟩ := distinct_tokens_movesOfTwo
  obtain ⟨w, hrun, hvalid, hjobs⟩ := erases_before_programming flashBoard (.empty 1) (.empty 1)
    (.empty 1) (⟨[]⟩ : Recorder) wellFormed_flashBoard hdistinct hzero
  obtain ⟨machine, journal, hrun', -⟩ := run_movesOfTwo
  cases hrun.symm.trans hrun'
  have hn : (uploadOfTwo 1 1 1 0x10000000 1 3).numBlocks ≠ 0 := by decide
  have hzeroth : (uploadOfTwo 1 1 1 0x10000000 1 3).isBlockValid 0 = true := by decide
  obtain ⟨after, new, hstep, hcalls, hnew⟩ := hjobs _ rfl
  exact ⟨wellFormed_flashBoard, hdistinct, hzero, _, after, new, hrun, hzeroth, hvalid hn 0 hzeroth,
    hstep, hcalls, fun call hmem => (hnew call hmem).2 hn⟩

/-- The sector is erased in which the first copy of page zero was programmed for the
    upload, although page zero is valid: that job was overtaken. -/
theorem erases_overtaken_page :
    flashBoard.map.WellFormed
      ∧ (movesOfTwo.filterMap (Move.blockToken? flashBoard.familyId)).Nodup
      ∧ 0 ∉ movesOfTwo.filterMap (Move.blockToken? flashBoard.familyId)
      ∧ ∃ w w' job other call, (fresh flashBoard (.empty 1) (.empty 1) (.empty 1)
          (Logged.new (⟨[]⟩ : Recorder))).run movesOfTwo = .ok w
        ∧ w.device.core.upload.isBlockValid 0 = true
        ∧ .accepted 0 other ∈ w.journal.current ∧ .carriedOut other.endedWell ∈ w.journal.current
        ∧ (∃ earlier ∈ w.device.machine.calls, earlier.Programs other.addr other.payload)
        ∧ w.device.phase = .holding .disk job ∧ w.step .carryOut = .ok w'
        ∧ w'.device.machine.calls = call :: w.device.machine.calls ∧ call.Erases other.addr := by
  obtain ⟨hdistinct, hzero⟩ := distinct_tokens_movesOfTwo
  obtain ⟨machine, journal, hrun, haccepted, hcarried, hmade⟩ := run_movesOfTwo
  have hplaced : (jobOfTwo 1 3 0x10001100 1).Placed flashBoard.map 32 :=
    placed_jobOfTwo (by decide) (by decide) (by decide) (by decide)
  have hvalid : (uploadOfTwo 1 1 1 0x10000000 1 3).isBlockValid 0 = true := by decide
  refine ⟨wellFormed_flashBoard, hdistinct, hzero, _, _, jobOfTwo 1 3 0x10001100 1,
    jobOfTwo 0 1 0x10001000 0, (jobOfTwo 1 3 0x10001100 1).pageCall flashBoard.map, hrun, hvalid,
    haccepted, hcarried, ⟨_, hmade, _, Job.pageCall_of_flash (by decide), rfl⟩, rfl,
    boardOfTwo_carryOut writesPage_jobOfTwo hplaced, rfl, ?_⟩
  -- Both pages lie in the second sector.
  exact (hplaced.erases_iff wellFormed_flashBoard _).mpr ⟨by decide, by decide⟩

end Watched

end Reflash
