import Reflash.Proofs.ImageJob
/-! # Delivering an image

  An image is delivered when its sectors are written to the disk, in any order and
  as often as one likes. In between there may be sectors without a block, resets of
  the disk and the three steps of the worker.

  `Delivery` says what such a move can do to a device: an upload is given up, a
  block is dropped or taken, and a job is fetched, carried out and told of. Every
  job on the way is one for a page of the image, which is what `Steady` says.
-/

namespace Reflash

/-- The moves of a delivery. -/
inductive Move.Delivers (sectors : List Sector) (familyId : UInt32) : Move → Prop where
  | sector {token : UInt32} {s : Sector} : s ∈ sectors → Delivers sectors familyId (.sector token s)
  | noBlock {token : UInt32} {s : Sector} {e : Unusable} :
      Block.ofSectorFor? s familyId = .error e → Delivers sectors familyId (.sector token s)
  | resetDisk : Delivers sectors familyId .resetDisk
  | take : Delivers sectors familyId .take
  | carryOut : Delivers sectors familyId .carryOut
  | finish : Delivers sectors familyId .finish

/-- A device that was just made, over sets that may hold anything. -/
def Device.withMemory (config : Config) (ramBlocks flashBlocks erasedSectors : IndexSet)
    (memory : Memory) : Device MemoryMachine :=
  .fresh (.fresh config (.onSets ramBlocks flashBlocks erasedSectors)) (MemoryMachine.new memory)

namespace PagedImage

variable (img : PagedImage) (capacity : UInt32)

/-- How things stand while an image is delivered. The tokens are those of the jobs
    accepted so far. -/
structure Steady (d : Device MemoryMachine) (tokens : List UInt32) : Prop where
  isOpen : d.core.disk.fence = none
  noCommand : d.core.control.job = none
  erasedSectors : d.core.upload.erasedSectors.capacity = capacity
  numBlocks : d.core.upload.numBlocks ≠ 0 → d.core.upload.numBlocks = img.numBlocks
  sound : d.core.upload.Sound
  waiting : ∀ job, d.core.disk.job = some job →
    ∃ i, img.IsJob d.core.config.map i capacity job ∧ job.token ∈ tokens
  held : ∀ origin job, d.phase = .holding origin job → origin = .disk
  working : ∀ job, d.phase.job? = some job →
    ∃ i, img.IsJob d.core.config.map i capacity job ∧ job.token ∈ tokens

/-- The upload that a page belongs to, and whether the image fits. -/
def joined (d : Device MemoryMachine) (i : UInt32) : Upload × Bool :=
  d.core.upload.joined (img.block d.core.config.familyId i) d.core.config

/-- Why a page is dropped. -/
def Drops (d : Device MemoryMachine) (i : UInt32) : Prop :=
  Upload.Drops (img.joined d i).1 (img.joined d i).2 (img.block d.core.config.familyId i)
    d.core.config

/-- The upload after it took a page. -/
def taken (d : Device MemoryMachine) (i token : UInt32) : Upload :=
  { (img.joined d i).1 with blockNo := i, token }

/-- The job for a page that was taken. -/
def jobFor (d : Device MemoryMachine) (i token : UInt32) : Job :=
  ((img.joined d i).1.pageJob (img.block d.core.config.familyId i) token
    (img.flash? d.core.config.map i)).forUpload

/-- What a move of a delivery can do to a device, and the tokens of the jobs that
    are accepted. -/
inductive Delivery (d : Device MemoryMachine) : List UInt32 → Device MemoryMachine → Prop where
  | nothing : Delivery d [] d
  | givenUp : Delivery d [] { d with core := d.core.resetDisk }
  | dropped {i : UInt32} : i < img.numBlocks →
      Upload.turnsAway (img.block d.core.config.familyId i) d.core.config false = false →
      img.Drops d i →
      Delivery d [] { d with core := { d.core with upload := (img.joined d i).1 } }
  | taken {i token : UInt32} : i < img.numBlocks →
      Upload.turnsAway (img.block d.core.config.familyId i) d.core.config false = false →
      ¬ img.Drops d i →
      img.IsJob d.core.config.map i capacity (img.jobFor d i token) →
      Delivery d [token] { d with
        core := { d.core with
          upload := img.taken d i token
          disk := { d.core.disk with job := some (img.jobFor d i token) } } }
  | fetched {job : Job} : d.phase = .idle → d.core.disk.job = some job →
      Delivery d [] { d with
        core := { d.core with disk := { d.core.disk with job := none } }
        phase := .holding .disk job }
  | refused {job : Job} : d.phase = .holding .disk job → d.core.rebooting = true →
      Delivery d [] { d with phase := .done { job with result := some .rebooting } }
  | written {i : UInt32} {job : Job} : d.phase = .holding .disk job → d.core.rebooting = false →
      img.IsJob d.core.config.map i capacity job →
      Delivery d [] { d with
        lastWriter := some .disk
        machine := { d.machine with
          memory := img.written d.core.config.map d.machine.memory i job }
        phase := .done { job with result := some .ok } }
  | told {job : Job} : d.phase = .done job → d.core.upload.awaits job = false →
      Delivery d [] { d with phase := .idle }
  | credited {job : Job} {v : Upload} {request : Option RebootRequest} : d.phase = .done job →
      d.core.upload.awaits job = true → d.core.upload.Credits job d.core.config v request →
      Delivery d [] { d with
        phase := .idle
        core := { d.core with upload := v, rebooting := d.core.rebooting || request.isSome }
        machine := { d.machine with
          reboots := (request.map fun r => (r, d.machine.memory)).toList ++ d.machine.reboots } }

variable {img capacity} {w : Watched MemoryMachine} {d d' : Device MemoryMachine}
  {tokens new : List UInt32} {i token : UInt32}

/-! ### What each move does -/

/-- A page goes on with the upload that there is, or starts one. -/
theorem joined_cases (img : PagedImage) (d : Device MemoryMachine) (i : UInt32) :
    d.core.upload.numBlocks = img.numBlocks ∧ img.joined d i = (d.core.upload, true)
    ∨ d.core.upload.Started (img.inRam d.core.config.map i) img.numBlocks (img.joined d i).1
      (img.joined d i).2 := by
  by_cases hn : d.core.upload.numBlocks = img.numBlocks
  · exact .inl ⟨hn, Upload.joined_of_eq hn⟩
  · right
    unfold joined
    rw [Upload.joined_of_ne hn]
    exact Upload.start_started _ _ _

theorem capacity_joined (img : PagedImage) (d : Device MemoryMachine) (i : UInt32) :
    (img.joined d i).1.erasedSectors.capacity = d.core.upload.erasedSectors.capacity := by
  rcases img.joined_cases d i with ⟨-, hsame⟩ | hstart
  · rw [hsame]
  · rw [hstart.erasedSectors, IndexSet.capacity_clear]

/-- The job for a page that is taken erases the sector of the page, unless that was
    done for the upload. -/
theorem erase_jobFor {region : Region} (hflash : img.flash? d.core.config.map i = some region) :
    (img.jobFor d i token).erase = none ↔
      (img.joined d i).1.erasedSectors.contains (img.sectorNo d.core.config.map i) = true := by
  have heq : (img.jobFor d i token).erase
      = (img.joined d i).1.eraseFor region (img.addr i) := by
    show (img.flash? d.core.config.map i).bind _ = _
    rw [hflash]
    rfl
  rw [heq, Upload.eraseFor, sectorNo_of_flash hflash]
  split
  · rename_i hcontains
    exact ⟨fun _ => hcontains, fun _ => rfl⟩
  · rename_i hcontains
    exact ⟨fun hnone => absurd hnone (Option.some_ne_none _), fun h => absurd h hcontains⟩

/-- A page that is not dropped goes where its upload goes. -/
theorem inRam_of_not_drops (h : ¬ img.Drops d i) :
    img.inRam d.core.config.map i = (img.joined d i).1.inRam := by
  have hkind := Upload.inRam_of_not_drops h
  exact hkind

theorem isJob_jobFor (hmap : d.core.config.map.WellFormed) (hi : i < img.numBlocks)
    (hstay : Upload.turnsAway (img.block d.core.config.familyId i) d.core.config false = false)
    (hkeep : ¬ img.Drops d i) (token : UInt32) :
    img.IsJob d.core.config.map i d.core.upload.erasedSectors.capacity
      (img.jobFor d i token) := by
  rw [← img.capacity_joined d i]
  exact isJob_pageJob hmap hi hstay hkeep

/-- A page that is written to the disk ends the upload, is dropped or is taken. -/
theorem page_delivery (hmap : w.device.core.config.map.WellFormed)
    (hs : img.Steady capacity w.device w.journal.tokens) (hi : i < img.numBlocks)
    (token : UInt32) :
    ∃ d es, w.step (.sector token (img.sector w.device.core.config.familyId i))
        = .ok ⟨d, es ++ w.journal⟩
      ∧ img.Delivery capacity w.device es.tokens d := by
  have hblock := ofSectorFor?_sector img w.device.core.config.familyId i
  have hfence : w.device.core.disk.isFenced = false := by
    unfold Slot.isFenced
    rw [hs.isOpen]
    rfl
  obtain ⟨v, job, -, haccepts⟩ := w.device.core.upload.accept_accepts
    (img.block w.device.core.config.familyId i) token w.device.core.config
    w.device.core.disk.isFenced
  refine ⟨_, _, Watched.step_block hblock haccepts, ?_⟩
  rw [hfence] at haccepts ⊢
  -- The journal gets a token only when the page is taken.
  cases haccepts with
  | turnedAway haway =>
    unfold Upload.entries
    rw [if_pos haway]
    exact .givenUp
  | dropped hstay hdrop =>
    have htokens : (w.device.core.upload.entries (img.block w.device.core.config.familyId i)
        w.device.core.config false none).tokens = [] := by
      unfold Upload.entries
      rw [if_neg (by simp [hstay])]
      split <;> rfl
    rw [Option.map_none, htokens]
    exact .dropped hi hstay hdrop
  | taken hstay hkeep =>
    have htokens : (w.device.core.upload.entries (img.block w.device.core.config.familyId i)
        w.device.core.config false (some (img.jobFor w.device i token))).tokens = [token] := by
      unfold Upload.entries
      rw [if_neg (by simp [hstay])]
      split <;> rfl
    have hjob := isJob_jobFor hmap hi hstay hkeep token
    rw [hs.erasedSectors] at hjob
    have hstep := Delivery.taken (d := w.device) hi hstay hkeep hjob
    rw [← htokens] at hstep
    exact hstep

theorem take_delivery (hs : img.Steady capacity d tokens) :
    img.Delivery capacity d [] d.takeJob := by
  cases hphase : d.phase with
  | holding origin job =>
    rw [Device.takeJob_of_busy (by simp [hphase])]
    exact .nothing
  | done job =>
    rw [Device.takeJob_of_busy (by simp [hphase])]
    exact .nothing
  | idle =>
    cases hdisk : d.core.disk.job with
    | some job =>
      rw [Device.takeJob_of_disk hphase hdisk]
      exact .fetched hphase hdisk
    | none =>
      rw [Device.takeJob_of_empty hdisk hs.noCommand]
      exact .nothing

theorem carryOut_delivery (hmap : d.core.config.map.WellFormed)
    (hs : img.Steady capacity d tokens) : img.Delivery capacity d [] d.carryOut := by
  cases hphase : d.phase with
  | idle =>
    rw [Device.carryOut_of_idle hphase]
    exact .nothing
  | done job =>
    rw [Device.carryOut_of_done hphase]
    exact .nothing
  | holding origin job =>
    -- No commands are sent, so the job is one of the disk.
    obtain rfl := hs.held origin job hphase
    obtain ⟨i, hjob, -⟩ := hs.working job (by rw [hphase]; rfl)
    have hopen : (d.core.slot .disk).isFenced = false := by
      show d.core.disk.fence.isSome = false
      rw [hs.isOpen]
      rfl
    rw [Device.carryOut_of_open hphase hopen, Device.doneJob]
    cases hdue : d.core.rebooting with
    | true =>
      rw [d.execute_of_rebooting job hdue]
      exact .refused hphase hdue
    | false =>
      rw [execute_isJob d hmap hjob hdue]
      exact .written hphase hdue hjob

theorem finish_delivery (hs : img.Steady capacity d tokens) :
    ∃ d', d.finish = .ok d' ∧ img.Delivery capacity d [] d' := by
  cases hphase : d.phase with
  | idle => exact ⟨d, Device.finish_of_idle hphase, .nothing⟩
  | holding origin job => exact ⟨d, Device.finish_of_holding hphase, .nothing⟩
  | done job =>
    obtain ⟨i, hjob, -⟩ := hs.working job (by rw [hphase]; rfl)
    -- The upload waits for the job or it does not; only a credit can ask for a reboot.
    rcases Upload.credit_cases hs.sound job d.core.config with
      ⟨hawaits, hcredit⟩ | ⟨hawaits, v, request, hcredit, hv⟩
    · refine ⟨{ d with phase := .idle }, ?_, .told hphase hawaits⟩
      rw [Device.finish_of_credit hphase hjob.listener hcredit, Option.isSome_none, Bool.or_false]
      rfl
    · refine ⟨_, ?_, .credited hphase hawaits hv⟩
      rw [Device.finish_of_credit hphase hjob.listener hcredit]
      cases request <;> simp [Machine.perform]

/-- Every move of a delivery does one of the things that a delivery can do. -/
theorem delivers_step {m : Move} (hmap : w.device.core.config.map.WellFormed)
    (hs : img.Steady capacity w.device w.journal.tokens)
    (hm : m.Delivers (img.sectors w.device.core.config.familyId) w.device.core.config.familyId) :
    ∃ d es, w.step m = .ok ⟨d, es ++ w.journal⟩ ∧ img.Delivery capacity w.device es.tokens d := by
  cases hm with
  | @sector token s hmem =>
    obtain ⟨i, hi, rfl⟩ := mem_sectors.mp hmem
    exact page_delivery hmap hs hi token
  | @noBlock token s e hnone =>
    refine ⟨w.device, [], ?_, .nothing⟩
    simp only [Watched.step, Device.move, Core.writeSector_of_noBlock hnone, Device.entries,
      Move.sector?, Core.entries, hnone]
    rfl
  | resetDisk => exact ⟨_, _, rfl, .givenUp⟩
  | take => exact ⟨_, _, rfl, take_delivery hs⟩
  | carryOut =>
    refine ⟨_, _, rfl, ?_⟩
    have htokens : (w.device.entries .carryOut).tokens = [] := by
      simp only [Device.entries]
      split <;> rfl
    rw [htokens]
    exact carryOut_delivery hmap hs
  | finish =>
    obtain ⟨d', hfinish, hdelivery⟩ := finish_delivery hs
    have htokens : (w.device.entries .finish).tokens = [] := by
      simp only [Device.entries]
      split <;> rfl
    refine ⟨d', w.device.entries .finish, ?_, ?_⟩
    · simp only [Watched.step, Device.move, hfinish]
      rfl
    · rw [htokens]
      exact hdelivery

/-! ### What stays so -/

theorem numBlocks_joined (h : (img.joined d i).1.numBlocks ≠ 0) :
    (img.joined d i).1.numBlocks = img.numBlocks := by
  rcases img.joined_cases d i with ⟨hn, hsame⟩ | hstart
  · rw [hsame]
    exact hn
  · rw [hstart.numBlocks] at h ⊢
    split
    · rfl
    · rename_i hfits
      rw [if_neg hfits] at h
      exact absurd rfl h

/-- Whatever happens while an image is delivered, things stand as they did. -/
theorem Delivery.steady (h : img.Delivery capacity d new d') (hs : img.Steady capacity d tokens) :
    img.Steady capacity d' (new ++ tokens) := by
  cases h with
  | nothing => exact hs
  | givenUp =>
    exact { hs with
      numBlocks := fun hn => absurd rfl hn
      sound := Upload.sound_reset _ }
  | @dropped i =>
    exact { hs with
      erasedSectors := (img.capacity_joined d i).trans hs.erasedSectors
      numBlocks := fun hn => numBlocks_joined hn
      sound := hs.sound.joined }
  | @taken i token hi hstay hkeep hjob =>
    -- The jobs from before keep their tokens, and the new one waits.
    have hlater : ∀ job, (∃ i, img.IsJob d.core.config.map i capacity job ∧ job.token ∈ tokens) →
        ∃ i, img.IsJob d.core.config.map i capacity job ∧ job.token ∈ [token] ++ tokens := by
      rintro job ⟨j, hj, hmem⟩
      exact ⟨j, hj, List.mem_cons_of_mem token hmem⟩
    refine ⟨hs.isOpen, hs.noCommand, (img.capacity_joined d i).trans hs.erasedSectors,
      fun hn => numBlocks_joined hn,
      (Upload.Accepts.taken hstay hkeep).sound hs.sound, ?_, hs.held, ?_⟩
    · intro job h
      cases h
      exact ⟨i, hjob, List.mem_cons_self⟩
    · intro job h
      exact hlater job (hs.working job h)
  | @fetched job hphase hdisk =>
    refine { hs with waiting := ?_, held := ?_, working := ?_ }
    · intro other h
      cases h
    · intro origin other h
      cases h
      rfl
    · intro other h
      cases h
      exact hs.waiting job hdisk
  | @refused job hphase hdue =>
    refine { hs with held := ?_, working := ?_ }
    · intro origin other h
      cases h
    · intro other h
      cases h
      obtain ⟨i, hjob, hmem⟩ := hs.working job (by rw [hphase]; rfl)
      exact ⟨i, hjob.withResult _, hmem⟩
  | @written i job hphase hdue hjob =>
    refine { hs with held := ?_, working := ?_ }
    · intro origin other h
      cases h
    · intro other h
      cases h
      obtain ⟨j, -, hmem⟩ := hs.working job (by rw [hphase]; rfl)
      exact ⟨i, hjob.withResult _, hmem⟩
  | told hphase hawaits =>
    refine { hs with held := ?_, working := ?_ }
    · intro origin other h
      cases h
    · intro other h
      cases h
  | @credited job v request hphase hawaits hv =>
    refine { hs with
      erasedSectors := ?_, numBlocks := ?_, sound := hv.sound, held := ?_, working := ?_ }
    · show v.erasedSectors.capacity = capacity
      rw [hv.erasedSectors, Upload.capacity_erasedWith]
      exact hs.erasedSectors
    · intro hn
      have hn' : v.numBlocks ≠ 0 := hn
      show v.numBlocks = img.numBlocks
      rw [hv.numBlocks] at hn' ⊢
      exact hs.numBlocks hn'
    · intro origin other h
      cases h
    · intro other h
      cases h

theorem Delivery.config (h : img.Delivery capacity d new d') : d'.core.config = d.core.config := by
  cases h <;> rfl

end PagedImage

end Reflash
