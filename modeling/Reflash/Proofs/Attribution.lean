import Mathlib.Data.List.Infix
import Mathlib.Data.List.TakeWhile
import Reflash.Bench.Panel
import Reflash.Proofs.PageJob
import Reflash.Proofs.Run
/-! # Which block a finished job counts for

  An upload remembers the block and the token of the job accepted last, and when
  a job is told of, its token alone decides whether that block counts. The
  journal says what this comes to: the valid blocks of an upload are those for
  which a job ended well before the next one was accepted.

  Two things follow from the token being all there is.

  * A job that was overtaken, because another one was accepted before it was told
    of, ends well and counts for nothing.
  * A start sets the token to zero and the block to zero. Until the first job is
    accepted, an old job with token zero would count for block zero.

  `Upload.Books` ties the upload to the journal and `Watched.Sourced` says that
  each job comes from where the journal says. Both are kept by every step.
-/

namespace Reflash

/-! ### Reading a journal -/

/-- The job as it is once it ended well. -/
def Job.endedWell (job : Job) : Job := { job with result := some .ok }

theorem Job.WritesPage.forUpload {job : Job} (h : job.WritesPage) : job.forUpload.WritesPage :=
  ⟨h.access, h.execute, h.transfer, h.guarded, h.length, h.source⟩

namespace Journal

variable {i : UInt32} {job : Job} {e : Entry} {journal since before : Journal}

/-- A job that ended well was told of while the upload waited for block `i` under
    its token. -/
def Counts (i : UInt32) (journal : Journal) : Prop :=
  ∃ job earlier, (.told job :: earlier) <:+ journal ∧ job.listener = some .upload
    ∧ job.result = some .ok ∧ awaited earlier = (i, job.token)

/-- A job was accepted for block `i`, ended well and was told of before the next
    one was accepted. -/
def WrittenInTime (i : UInt32) (journal : Journal) : Prop :=
  ∃ later mid earlier job,
    journal = later ++ .told (Job.endedWell job) :: (mid ++ .accepted i job :: earlier)
      ∧ .carriedOut (Job.endedWell job) ∈ mid ∧ ∀ e ∈ mid, Entry.isAccepted e = false

/-- A job from before, with token zero, ended well and was told of before any job
    was accepted. -/
def Stray (since before : Journal) : Prop :=
  ∃ later earlier i job, since = later ++ .told (Job.endedWell job) :: earlier
    ∧ (∀ e ∈ earlier, Entry.isAccepted e = false) ∧ .accepted i job ∈ before ∧ job.token = 0

/-- A job that the disk asked for was accepted and then carried out. -/
def CameFrom (job : Job) (journal : Journal) : Prop :=
  ∃ i job₀, [.carriedOut job, .accepted i job₀].Sublist journal
    ∧ job = { job₀ with result := job.result }

/-- Every job of the disk that was told of had been accepted and carried out. -/
def Truthful : Journal → Prop
  | [] => True
  | .told job :: earlier => (job.listener = some .upload → CameFrom job earlier) ∧ Truthful earlier
  | _ :: earlier => Truthful earlier

theorem current_of_boundary (h : e.isBoundary = true) : current (e :: journal) = [] := by
  simp [current, h]

theorem current_cons (h : e.isBoundary = false) :
    current (e :: journal) = e :: current journal := by simp [current, h]

theorem isBoundary_of_mem_current (h : e ∈ current journal) : e.isBoundary = false := by
  simpa using List.mem_takeWhile_imp h

/-- Without a boundary in between, all of it is current. -/
theorem current_append (h : ∀ e ∈ since, Entry.isBoundary e = false) :
    current (since ++ before) = since ++ current before := by
  induction since with
  | nil => rfl
  | cons e since ih =>
    rw [List.cons_append, current_cons (h e List.mem_cons_self),
      ih fun e' he' => h e' (List.mem_cons_of_mem e he'), List.cons_append]

@[simp] theorem awaited_nil : awaited [] = (0, 0) := by rw [awaited]

@[simp] theorem awaited_accepted : awaited (.accepted i job :: journal) = (i, job.token) := by
  rw [awaited]

theorem awaited_cons (h : e.isAccepted = false) : awaited (e :: journal) = awaited journal := by
  cases e with
  | accepted => cases h
  | _ => simp [awaited]

theorem awaited_append (h : ∀ e ∈ since, Entry.isAccepted e = false) :
    awaited (since ++ before) = awaited before := by
  induction since with
  | nil => rfl
  | cons e since ih =>
    rw [List.cons_append, awaited_cons (h e List.mem_cons_self)]
    exact ih fun e' he' => h e' (List.mem_cons_of_mem e he')

/-- What is awaited is the job accepted last, if there is one. -/
theorem awaited_cases (journal : Journal) :
    (∃ mid i job earlier, journal = mid ++ .accepted i job :: earlier
        ∧ (∀ e ∈ mid, Entry.isAccepted e = false) ∧ journal.awaited = (i, job.token))
    ∨ (∀ e ∈ journal, Entry.isAccepted e = false) ∧ journal.awaited = (0, 0) := by
  induction journal with
  | nil => exact .inr ⟨List.forall_mem_nil _, awaited_nil⟩
  | cons e journal ih =>
    cases haccepted : e.isAccepted with
    | true =>
      cases e with
      | accepted i job => 
        exact .inl ⟨[], i, job, journal, rfl, List.forall_mem_nil _, awaited_accepted⟩
      | _ => cases haccepted
    | false =>
      rw [awaited_cons haccepted]
      rcases ih with ⟨mid, i, job, earlier, rfl, hmid, hawaited⟩ | ⟨hnone, hawaited⟩
      · exact .inl ⟨e :: mid, i, job, earlier, rfl, List.forall_mem_cons.mpr ⟨haccepted, hmid⟩,
          hawaited⟩
      · exact .inr ⟨List.forall_mem_cons.mpr ⟨haccepted, hnone⟩, hawaited⟩

theorem awaited_of_none (h : ∀ e ∈ journal, Entry.isAccepted e = false) :
    awaited journal = (0, 0) := by
  rcases awaited_cases journal with ⟨mid, i, job, earlier, rfl, -, -⟩ | ⟨-, hawaited⟩
  · cases h (.accepted i job) (by simp)
  · exact hawaited

theorem not_counts_nil : ¬ Counts i [] := by
  rintro ⟨job, earlier, hsuffix, -⟩
  simp at hsuffix

theorem counts_cons : Counts i (e :: journal) ↔
    (∃ job, e = .told job ∧ job.listener = some .upload ∧ job.result = some .ok
      ∧ awaited journal = (i, job.token)) ∨ Counts i journal := by
  constructor
  · rintro ⟨job, earlier, hsuffix, hjob⟩
    rcases List.suffix_cons_iff.mp hsuffix with hall | hrest
    · cases hall
      exact .inl ⟨job, rfl, hjob⟩
    · exact .inr ⟨job, earlier, hrest, hjob⟩
  · rintro (⟨job, rfl, hjob⟩ | ⟨job, earlier, hsuffix, hjob⟩)
    · exact ⟨job, journal, List.suffix_rfl, hjob⟩
    · exact ⟨job, earlier, hsuffix.trans (List.suffix_cons e journal), hjob⟩

/-- An entry that tells of no job of the disk changes nothing about which blocks
    count. -/
theorem counts_cons_of_other (h : ∀ job, e = .told job → job.listener ≠ some .upload) :
    Counts i (e :: journal) ↔ Counts i journal := by
  rw [counts_cons, or_iff_right]
  rintro ⟨job, rfl, hlistener, -⟩
  exact h job rfl hlistener

/-- A block that was written in time counts. -/
theorem WrittenInTime.counts (h : WrittenInTime i journal)
    (hlistener : ∀ j job, .accepted j job ∈ journal → job.listener = some .upload) :
    Counts i journal := by
  obtain ⟨later, mid, earlier, job, rfl, -, hmid⟩ := h
  refine ⟨job.endedWell, _, List.suffix_append later _, hlistener i job (by simp), rfl, ?_⟩
  rw [awaited_append hmid, awaited_accepted]
  rfl

theorem CameFrom.append (h : CameFrom job journal) (es : Journal) :
    CameFrom job (es ++ journal) := by
  obtain ⟨i, job₀, hsub, hjob⟩ := h
  exact ⟨i, job₀, hsub.trans (List.sublist_append_right es journal), hjob⟩

theorem Truthful.cons (h : Truthful journal) (hno : ∀ job, e ≠ .told job) :
    Truthful (e :: journal) := by
  cases e with
  | told job => exact absurd rfl (hno job)
  | _ => exact h

theorem Truthful.cameFrom {later earlier : Journal}
    (h : Truthful (later ++ .told job :: earlier)) (hjob : job.listener = some .upload) :
    CameFrom job earlier := by
  induction later with
  | nil => exact h.1 hjob
  | cons e later ih =>
    cases e with
    | told other => exact ih h.2
    | _ => exact ih h

/-! ### Distinct tokens -/

theorem token_mem_tokens (h : .accepted i job ∈ journal) : job.token ∈ tokens journal :=
  List.mem_filterMap.mpr ⟨_, h, rfl⟩

/-- Where all tokens are distinct, no other job was accepted under the same
    one. -/
theorem not_mem_of_nodup {j : UInt32} {other : Job}
    (h : (tokens (since ++ .accepted i job :: before)).Nodup) (htoken : other.token = job.token) :
    .accepted j other ∉ since ∧ .accepted j other ∉ before := by
  have hsplit : tokens (since ++ .accepted i job :: before)
      = tokens since ++ job.token :: tokens before := by
    rw [tokens_append, tokens_cons]
    rfl
  rw [hsplit, List.nodup_middle, List.nodup_cons, List.mem_append, not_or, ← htoken] at h
  exact ⟨fun hmem => h.1.1 (token_mem_tokens hmem), fun hmem => h.1.2 (token_mem_tokens hmem)⟩

end Journal

/-- Of two things in a row the second of which is found at one place only, the
    first comes before that place. -/
theorem List.mem_of_pair_sublist {α : Type} {x y z : α} {a b : List α}
    (h : [x, y].Sublist (a ++ z :: b)) (ha : y ∉ a) (hb : y ∉ b) : x ∈ a ∧ y = z := by
  induction a with
  | nil =>
    cases h with
    | cons _ h => exact absurd (h.subset (by simp)) hb
    | cons_cons _ h => exact absurd (h.subset (by simp)) hb
  | cons c a ih =>
    have ha' : y ∉ a := fun hmem => ha (List.mem_cons_of_mem c hmem)
    cases h with
    | cons _ h =>
      obtain ⟨hx, hyz⟩ := ih h ha'
      exact ⟨List.mem_cons_of_mem c hx, hyz⟩
    | cons_cons _ h =>
      have hy : y ∈ a ++ z :: b := h.subset (by simp)
      simp only [List.mem_append, List.mem_cons, ha', hb, or_false, false_or] at hy
      exact ⟨List.mem_cons_self, hy⟩

/-! ### The upload and its journal -/

namespace Upload

/-- What an upload says and what the journal says are the same. -/
structure Books (u : Upload) (journal : Journal) : Prop where
  sound : u.Sound
  awaited : u.numBlocks ≠ 0 → (u.blockNo, u.token) = journal.current.awaited
  valid : u.numBlocks ≠ 0 → ∀ i, u.isBlockValid i = true ↔ journal.current.Counts i
  /-- What began last was an upload. -/
  started : u.numBlocks ≠ 0 → ∃ before, journal = journal.current ++ .started :: before
  active : ∀ i job, .accepted i job ∈ journal.current → u.numBlocks ≠ 0

variable {u v : Upload} {journal : Journal} {e : Entry}

theorem books_of_idle (h : u.numBlocks = 0) (hcurrent : journal.current = []) :
    u.Books journal := by
  refine ⟨fun hn => absurd h hn, fun hn => absurd h hn, fun hn => absurd h hn,
    fun hn => absurd h hn, fun i job hmem => ?_⟩
  rw [hcurrent] at hmem
  cases hmem

/-- An entry that is no boundary, accepts nothing and tells of no job of the disk
    says nothing about the upload. -/
theorem Books.cons (hu : u.Books journal) (hboundary : e.isBoundary = false)
    (haccepted : e.isAccepted = false)
    (htold : ∀ job, e = .told job → job.listener ≠ some .upload) : u.Books (e :: journal) := by
  have hcurrent : Journal.current (e :: journal) = e :: journal.current :=
    Journal.current_cons hboundary
  constructor
  · exact hu.sound
  · rw [hcurrent, Journal.awaited_cons haccepted]
    exact hu.awaited
  · rw [hcurrent]
    intro hn i
    rw [hu.valid hn, Journal.counts_cons_of_other htold]
  · rw [hcurrent]
    intro hn
    obtain ⟨before, hbefore⟩ := hu.started hn
    exact ⟨before, congrArg (e :: ·) hbefore⟩
  · rw [hcurrent]
    intro i job hmem
    rcases List.mem_cons.mp hmem with rfl | hmem
    · cases haccepted
    · exact hu.active i job hmem

/-- The entry for the start of an upload, if there is one. -/
def startEntry (u : Upload) (block : Block) : Journal :=
  if u.numBlocks = block.header.numBlocks then [] else [.started]

theorem Books.joined (hu : u.Books journal) (block : Block) (config : Config) :
    (u.joined block config).1.Books (u.startEntry block ++ journal) := by
  by_cases hn : u.numBlocks = block.header.numBlocks
  · unfold startEntry
    rw [if_pos hn, joined_of_eq hn]
    exact hu
  · have hs := start_started u (ramOf config.map block).isSome block.header.numBlocks
    have hcurrent : Journal.current (.started :: journal) = [] := Journal.current_of_boundary rfl
    unfold startEntry
    rw [if_neg hn, joined_of_ne hn]
    show Books _ (.started :: journal)
    -- Nothing was accepted since, so the books of a new upload are empty.
    constructor
    · exact hs.sound
    · intro
      rw [hcurrent, hs.blockNo, hs.token, Journal.awaited_nil]
    · intro _ i
      rw [hcurrent, hs.valid]
      exact ⟨nofun, fun h => absurd h Journal.not_counts_nil⟩
    · intro
      rw [hcurrent]
      exact ⟨journal, rfl⟩
    · rw [hcurrent]
      intro i job hmem
      cases hmem

/-- The books are kept when a block is looked at. -/
theorem Books.accepts {block : Block} {token : UInt32} {config : Config} {fenced : Bool}
    {job : Option Job} (hu : u.Books journal) (h : Accepts u block token config fenced v job) :
    v.Books (u.entries block config fenced (job.map Job.forUpload) ++ journal) := by
  have hsound := h.sound hu.sound
  cases h with
  | turnedAway haway =>
    unfold entries
    rw [if_pos haway]
    exact books_of_idle rfl (Journal.current_of_boundary rfl)
  | dropped hstay =>
    unfold entries
    rw [if_neg (by simp [hstay])]
    exact hu.joined block config
  | taken hstay hkeep =>
    unfold entries
    rw [if_neg (by simp [hstay])]
    -- First the upload is joined, which may start it; then the job is accepted.
    have hj := hu.joined block config
    have hfits := fits_of_not_drops hkeep
    have hn : (u.joined block config).1.numBlocks ≠ 0 := by
      rw [numBlocks_joined hfits]
      intro hzero
      simp [turnsAway, hzero] at hstay
    have hcurrent : ∀ job, Journal.current (.accepted block.header.blockNo job
        :: (u.startEntry block ++ journal))
        = .accepted block.header.blockNo job :: Journal.current (u.startEntry block ++ journal) :=
      fun job => Journal.current_cons rfl
    show Books _ (.accepted block.header.blockNo _ :: (u.startEntry block ++ journal))
    constructor
    · exact hsound
    · intro
      rw [hcurrent, Journal.awaited_accepted]
      rfl
    · intro _ i
      -- Accepting a job makes no block count.
      rw [hcurrent, Journal.counts_cons_of_other (by intro job h; cases h)]
      exact hj.valid hn i
    · intro
      rw [hcurrent]
      obtain ⟨before, hbefore⟩ := hj.started hn
      exact ⟨before, congrArg (_ :: ·) hbefore⟩
    · intro _ _ _
      exact hn

/-- The books are kept when a job of the disk is told of. -/
theorem Books.credit {job : Job} {config : Config} {request : Option RebootRequest}
    (hu : u.Books journal) (hjob : job.listener = some .upload)
    (h : u.credit job config = .ok (v, request)) : v.Books (.told job :: journal) := by
  have hcurrent : Journal.current (.told job :: journal) = .told job :: journal.current :=
    Journal.current_cons rfl
  have hactive : ∀ i other, .accepted i other ∈ Journal.current (.told job :: journal) →
      u.numBlocks ≠ 0 := by
    rw [hcurrent]
    intro i other hmem
    exact hu.active i other (List.mem_of_ne_of_mem (by simp) hmem)
  have hstarted : u.numBlocks ≠ 0 →
      ∃ before, .told job :: journal
        = Journal.current (.told job :: journal) ++ .started :: before := by
    intro hn
    rw [hcurrent]
    obtain ⟨before, hbefore⟩ := hu.started hn
    exact ⟨before, congrArg (_ :: ·) hbefore⟩
  -- A job counts in the books exactly when the upload waits for it.
  rcases cases_of_credit hu.sound h with ⟨hawaits, rfl, -⟩ | ⟨hawaits, hv⟩
  · refine ⟨hu.sound, ?_, ?_, hstarted, hactive⟩
    · rw [hcurrent, Journal.awaited_cons rfl]
      exact hu.awaited
    · intro hn i
      rw [hcurrent, Journal.counts_cons, hu.valid hn, iff_or_self]
      -- If the job counted, the upload would wait for it.
      rintro ⟨other, hother, -, hok, hawaited⟩
      cases hother
      have htoken := congrArg Prod.snd ((hu.awaited hn).trans hawaited)
      simp only at htoken
      simp [awaits, hn, htoken, hok] at hawaits
  · simp only [awaits, Bool.and_eq_true, bne_iff_ne, beq_iff_eq] at hawaits
    obtain ⟨⟨hn, htoken⟩, hok⟩ := hawaits
    refine ⟨hv.sound, ?_, ?_, ?_, ?_⟩
    · rw [hcurrent, Journal.awaited_cons rfl, hv.numBlocks, hv.blockNo, hv.token]
      exact hu.awaited
    · intro _ i
      rw [hcurrent, Journal.counts_cons, hv.valid, ← hu.awaited hn, Bool.or_eq_true,
        decide_eq_true_eq, hu.valid hn, or_comm, or_congr_left]
      constructor
      · rintro rfl
        exact ⟨job, rfl, hjob, hok, by rw [htoken]⟩
      · rintro ⟨other, hother, -, -, hawaited⟩
        exact (congrArg Prod.fst hawaited).symm
    · rw [hv.numBlocks]
      exact hstarted
    · rw [hv.numBlocks]
      exact hactive

end Upload

/-! ### The jobs and the journal -/

namespace Watched

variable {σ : Type} [Machine σ]

/-- Each job of the disk is one that the journal knows. -/
structure Sourced (w : Watched σ) : Prop where
  written : ∀ i job, .accepted i job ∈ w.journal →
    job.listener = some .upload ∧ job.transfer = some .write
  waiting : ∀ job, w.device.core.disk.job = some job → ∃ i, .accepted i job ∈ w.journal
  control : ∀ job, w.device.core.control.job = some job → job.listener = some .host
  held : ∀ origin job, w.device.phase = .holding origin job → job.listener = some .upload →
    ∃ i, .accepted i job ∈ w.journal
  done : ∀ job, w.device.phase = .done job → job.listener = some .upload →
    w.journal.CameFrom job
  truthful : w.journal.Truthful

section keeping

omit [Machine σ]

variable {d d' : Device σ} {journal : Journal} {e : Entry}

/-- A device whose slots and worker are the same has the same jobs. -/
theorem Sourced.of_same (hw : Sourced ⟨d, journal⟩) (hdisk : d'.core.disk.job = d.core.disk.job)
    (hcontrol : d'.core.control.job = d.core.control.job) (hphase : d'.phase = d.phase) :
    Sourced ⟨d', journal⟩ := by
  constructor
  · exact hw.written
  · intro job h
    exact hw.waiting job (hdisk ▸ h)
  · intro job h
    exact hw.control job (hcontrol ▸ h)
  · intro origin job h
    exact hw.held origin job (hphase ▸ h)
  · intro job h
    exact hw.done job (hphase ▸ h)
  · exact hw.truthful

/-- An idle worker has no job to keep track of. -/
theorem Sourced.of_idle (hw : Sourced ⟨d, journal⟩) (hdisk : d'.core.disk.job = d.core.disk.job)
    (hcontrol : d'.core.control.job = d.core.control.job) (hphase : d'.phase = .idle) :
    Sourced ⟨d', journal⟩ := by
  constructor
  · exact hw.written
  · intro job h
    exact hw.waiting job (hdisk ▸ h)
  · intro job h
    exact hw.control job (hcontrol ▸ h)
  · intro origin job h
    simp only [hphase, reduceCtorEq] at h
  · intro job h
    simp only [hphase, reduceCtorEq] at h
  · exact hw.truthful

/-- A job that the worker takes was waiting. -/
theorem Sourced.take {origin : Channel} {job : Job} (hw : Sourced ⟨d, journal⟩)
    (hjob : (d.core.slot origin).job = some job) :
    Sourced ⟨{ d with
      core := d.core.withSlot origin { d.core.slot origin with job := none }
      phase := .holding origin job }, journal⟩ := by
  -- Only a job from the slot of the disk has to be known; the other slot has jobs of the host.
  cases origin with
  | disk =>
    refine ⟨hw.written, ?_, hw.control, ?_, ?_, hw.truthful⟩
    · intro other h
      cases h
    · intro origin other h _
      cases h
      exact hw.waiting job hjob
    · intro other h
      cases h
  | control =>
    have hhost := hw.control job hjob
    refine ⟨hw.written, hw.waiting, ?_, ?_, ?_, hw.truthful⟩
    · intro other h
      cases h
    · intro origin other h hother
      cases h
      simp [hhost] at hother
    · intro other h
      cases h

/-- An entry that accepts no job, and tells of none that came from elsewhere, may
    be put down. -/
theorem Sourced.note (hw : Sourced ⟨d, journal⟩) (haccepted : e.isAccepted = false)
    (htold : ∀ job, e = .told job → job.listener = some .upload → journal.CameFrom job) :
    Sourced ⟨d, e :: journal⟩ := by
  constructor
  · intro i job hmem
    rcases List.mem_cons.mp hmem with rfl | hmem
    · cases haccepted
    · exact hw.written i job hmem
  · intro job h
    obtain ⟨i, hi⟩ := hw.waiting job h
    exact ⟨i, List.mem_cons_of_mem e hi⟩
  · exact hw.control
  · intro origin job h hjob
    obtain ⟨i, hi⟩ := hw.held origin job h hjob
    exact ⟨i, List.mem_cons_of_mem e hi⟩
  · intro job h hjob
    exact (hw.done job h hjob).append [e]
  · cases e with
    | told job => exact ⟨htold job rfl, hw.truthful⟩
    | _ => exact hw.truthful

/-- A job that was accepted waits in the slot of the disk. -/
theorem Sourced.accept (hw : Sourced ⟨d, journal⟩) {i : UInt32} {job : Job}
    (hlistener : job.listener = some .upload) (htransfer : job.transfer = some .write)
    (hdisk : d'.core.disk.job = some job) (hcontrol : d'.core.control.job = d.core.control.job)
    (hphase : d'.phase = d.phase) : Sourced ⟨d', .accepted i job :: journal⟩ := by
  constructor
  · intro j other hmem
    rcases List.mem_cons.mp hmem with heq | hmem
    · cases heq
      exact ⟨hlistener, htransfer⟩
    · exact hw.written j other hmem
  · intro other h
    have hother : job = other := Option.some.inj (hdisk.symm.trans h)
    exact ⟨i, hother ▸ List.mem_cons_self⟩
  · intro other h
    exact hw.control other (hcontrol ▸ h)
  · intro origin other h hother
    obtain ⟨j, hj⟩ := hw.held origin other (hphase ▸ h) hother
    exact ⟨j, List.mem_cons_of_mem _ hj⟩
  · intro other h hother
    exact (hw.done other (hphase ▸ h) hother).append [_]
  · exact hw.truthful

/-- What a block puts down is what it puts in the slot of the disk. -/
theorem Sourced.block {v : Upload} {block : Block} {token : UInt32} {job : Option Job}
    (hw : Sourced ⟨d, journal⟩)
    (h : Upload.Accepts d.core.upload block token d.core.config d.core.disk.isFenced v job) :
    Sourced ⟨{ d with core := d.core.afterBlock v job },
      d.core.upload.entries block d.core.config d.core.disk.isFenced (job.map Job.forUpload)
        ++ journal⟩ := by
  have hstart : Sourced ⟨d, d.core.upload.startEntry block ++ journal⟩ := by
    unfold Upload.startEntry
    split
    · exact hw
    · exact hw.note rfl (by intro job h; cases h)
  cases h with
  | turnedAway haway =>
    unfold Upload.entries
    rw [if_pos haway]
    exact (hw.note rfl (by intro job h; cases h)).of_same rfl rfl rfl
  | dropped hstay =>
    unfold Upload.entries
    rw [if_neg (by simp [hstay])]
    exact hstart.of_same rfl rfl rfl
  | taken hstay hkeep =>
    unfold Upload.entries
    rw [if_neg (by simp [hstay])]
    exact hstart.accept rfl rfl rfl rfl rfl

/-- The result that a job got becomes part of where it came from. -/
theorem Sourced.carriedOut {origin : Channel} {job done : Job}
    (hw : Sourced ⟨d, journal⟩) (hphase : d.phase = .holding origin job)
    (hdone : job.listener = some .upload → job.transfer = some .write →
      done = { job with result := done.result })
    (hlistener : done.listener = job.listener)
    (hdisk : d'.core.disk.job = d.core.disk.job)
    (hcontrol : d'.core.control.job = d.core.control.job) (hphase' : d'.phase = .done done) :
    Sourced ⟨d', .carriedOut done :: journal⟩ := by
  constructor
  · intro i other hmem
    exact hw.written i other (List.mem_of_ne_of_mem (by simp) hmem)
  · intro other h
    obtain ⟨i, hi⟩ := hw.waiting other (hdisk ▸ h)
    exact ⟨i, List.mem_cons_of_mem _ hi⟩
  · intro other h
    exact hw.control other (hcontrol ▸ h)
  · intro _ other h
    simp only [hphase'] at h
    cases h
  · intro other h hother
    simp only [hphase', Phase.done.injEq] at h
    subst h
    obtain ⟨i, hi⟩ := hw.held origin job hphase (hlistener ▸ hother)
    obtain ⟨hl, ht⟩ := hw.written i job hi
    -- The entry for the result stands before the one for the acceptance.
    exact ⟨i, job, .cons_cons _ (List.singleton_sublist.mpr hi), hdone hl ht⟩
  · exact hw.truthful

end keeping

/-- A job of the disk comes out of a plan as it went in. -/
theorem execute_of_write (d : Device σ) {job : Job} (h : job.transfer = some .write) :
    (d.execute job).2.1 = job := by
  -- Only a job that reads is given back with other bytes.
  have hreads : ∀ p : Job.Plan, p.reads job = false := by
    intro p
    simp [Job.Plan.reads, h]
  simp only [Device.execute, Job.carriedOut, hreads, Bool.false_eq_true, if_false]

/-- Who is told of a job does not change while it is carried out. -/
theorem listener_execute (d : Device σ) (job : Job) :
    (d.execute job).2.1.listener = job.listener := by
  simp only [Device.execute, Job.carriedOut]
  split <;> rfl

/-- The job in the slot of the disk stays there while another one is carried
    out. -/
theorem disk_execute (d : Device σ) (job : Job) :
    (d.execute job).1.core.disk.job = d.core.disk.job := by
  simp only [Device.execute]
  split <;> rfl

/-- Every step keeps track of the jobs. -/
theorem Sourced.step {d d' : Device σ} {es journal : Journal} (hw : Sourced ⟨d, journal⟩)
    (h : d.Step es d') : Sourced ⟨d', es ++ journal⟩ := by
  cases h with
  | nothing => exact hw
  | block _ hcases => exact hw.block hcases
  | resetDisk => exact (hw.note rfl (by intro job h; cases h)).of_same rfl rfl rfl
  | setMode mode => exact hw.of_same rfl rfl rfl
  | latch => exact hw.of_same rfl rfl rfl
  | command hlistener =>
    refine ⟨hw.written, hw.waiting, ?_, hw.held, hw.done, hw.truthful⟩
    intro job h
    cases h
    exact hlistener
  | take _ hjob => exact hw.take hjob
  | keptOut hphase _ => exact hw.carriedOut hphase (fun _ _ => rfl) rfl rfl rfl rfl
  | @carriedOut origin job hphase _ =>
    refine hw.carriedOut hphase (fun _ hwrite => ?_) (listener_execute d job) (disk_execute d job)
      rfl rfl
    rw [execute_of_write d hwrite]
  | told hphase hother =>
    refine (hw.note rfl ?_).of_idle rfl rfl rfl
    intro job h hjob
    cases h
    exact absurd hjob hother
  | credited hphase hjob _ =>
    refine (hw.note rfl ?_).of_idle rfl rfl rfl
    intro job h _
    cases h
    exact hw.done _ hphase hjob

/-! ### Whole runs -/

/-- Every step keeps the upload and the journal together. -/
theorem books_step {d d' : Device σ} {es journal : Journal} (hs : d.core.upload.Books journal)
    (h : d.Step es d') : d'.core.upload.Books (es ++ journal) := by
  -- Only blocks, resets and completions touch the upload or its part of the journal.
  cases h with
  | block _ hcases => exact hs.accepts hcases
  | resetDisk => exact Upload.books_of_idle rfl (Journal.current_of_boundary rfl)
  | @take origin => cases origin <;> exact hs
  | keptOut => exact hs.cons rfl rfl (by intro job h; cases h)
  | carriedOut => exact hs.cons rfl rfl (by intro job h; cases h)
  | told _ hother =>
    refine hs.cons rfl rfl ?_
    intro job h
    cases h
    exact hother
  | credited _ hjob hcredit => exact hs.credit hjob hcredit
  | _ => exact hs

/-- What is known of a device and its journal at any time. -/
structure Tracked (w : Watched σ) : Prop where
  books : w.device.core.upload.Books w.journal
  sourced : w.Sourced
  distinct : w.journal.tokens.Nodup

/-- A run of a new device comes to an end, and its journal is right. If the
    blocks come under distinct tokens, so do the jobs. -/
theorem run_tracked (config : Config) (ramBlocks flashBlocks erasedSectors : IndexSet)
    (machine : σ) {moves : List Move}
    (hdistinct : (moves.filterMap (Move.blockToken? config.familyId)).Nodup) :
    ∃ w, (fresh config ramBlocks flashBlocks erasedSectors machine).run moves = .ok w
      ∧ w.Tracked := by
  have hfresh : (fresh config ramBlocks flashBlocks erasedSectors machine).device.core.upload.Books
      (fresh config ramBlocks flashBlocks erasedSectors machine).journal :=
    Upload.books_of_idle rfl rfl
  have hsourced : (fresh config ramBlocks flashBlocks erasedSectors machine).Sourced := by
    constructor <;> intros <;> trivial
  -- Both invariants go through the run together: a step ends well because the books are sound.
  obtain ⟨w, hrun, hbooks, hjobs⟩ := run_ok
    (P := fun w => w.device.core.upload.Books w.journal ∧ w.Sourced) moves ⟨hfresh, hsourced⟩ (by
      intro m _ v hv
      obtain ⟨d, hstep, hd⟩ := v.step_ok hv.1.sound m
      exact ⟨_, hstep, books_step hv.1 hd, Sourced.step hv.2 hd⟩)
  refine ⟨w, hrun, hbooks, hjobs, ?_⟩
  -- The tokens in the journal are some of those that the blocks came with.
  have htokens := tokens_run hfresh.sound hrun
  rw [show (fresh config ramBlocks flashBlocks erasedSectors machine).journal.tokens = [] from rfl,
    List.append_nil] at htokens
  exact htokens.nodup (List.nodup_reverse.mpr hdistinct)

namespace Tracked

variable {w : Watched σ} {since before : Journal} {i : UInt32} {job : Job}

omit [Machine σ] in
/-- Every block that counts was written in time, or block 0 counts for a stray
    job. -/
theorem counts_iff (hw : w.Tracked) (hjournal : w.journal = since ++ .started :: before)
    (i : UInt32) : since.Counts i ↔ since.WrittenInTime i ∨ i = 0 ∧ since.Stray before := by
  constructor
  · rintro ⟨job, earlier, ⟨later, rfl⟩, hjob, hok, hawaited⟩
    have hsplit : w.journal = later ++ .told job :: (earlier ++ .started :: before) := by
      rw [hjournal, List.append_assoc, List.cons_append]
    have htruth := hw.sourced.truthful
    rw [hsplit] at htruth
    obtain ⟨j, job₀, hsub, hsame⟩ := htruth.cameFrom hjob
    have hended : job = job₀.endedWell := by rw [hsame, hok]; rfl
    have htoken : job₀.token = job.token := by rw [hended]; rfl
    -- Either a job was accepted since the start, or the upload waits for what the start left:
    -- block 0 under token zero.
    rcases Journal.awaited_cases earlier with
      ⟨mid, k, other, rest, rfl, hmid, hlast⟩ | ⟨hnone, hlast⟩
    · -- The job accepted last is the one that was told of, since they have the same token.
      left
      rw [hawaited, Prod.mk.injEq] at hlast
      obtain ⟨rfl, hlast⟩ := hlast
      have hplace : w.journal = (later ++ .told job :: mid)
          ++ .accepted i other :: (rest ++ .started :: before) := by
        rw [hsplit]
        simp
      have hdistinct := hw.distinct
      rw [hplace] at hdistinct
      -- The token stands once in the journal, so both entries of the job stand in between.
      obtain ⟨hnotLater, hnotRest⟩ :=
        Journal.not_mem_of_nodup (j := j) hdistinct (htoken.trans hlast)
      rw [List.append_assoc, List.cons_append] at hsub
      obtain ⟨hcarried, hacc⟩ := List.mem_of_pair_sublist hsub
        (fun hmem => hnotLater (List.mem_append_right _ (List.mem_cons_of_mem _ hmem))) hnotRest
      cases hacc
      subst hended
      exact ⟨later, mid, rest, job₀, rfl, hcarried, hmid⟩
    · -- Nothing was accepted since, so the job is from before the start and has token zero.
      right
      rw [hawaited, Prod.mk.injEq] at hlast
      obtain ⟨rfl, hzero⟩ := hlast
      subst hended
      refine ⟨rfl, later, earlier, j, job₀, rfl, hnone, ?_, htoken.trans hzero⟩
      have hmem : .accepted j job₀ ∈ earlier ++ .started :: before := hsub.subset (by simp)
      rcases List.mem_append.mp hmem with hin | hin
      · cases hnone _ hin
      · exact List.mem_of_ne_of_mem (by simp) hin
  · -- For the way back, a job of the disk that ended well and was awaited counts.
    have hlistener : ∀ j job, .accepted j job ∈ since ++ .started :: before →
        job.listener = some .upload := by
      intro j job hmem
      exact (hw.sourced.written j job (hjournal ▸ hmem)).1
    rintro (hwritten | ⟨rfl, later, earlier, j, job, rfl, hnone, hold, hzero⟩)
    · exact hwritten.counts fun j job hmem => hlistener j job (List.mem_append_left _ hmem)
    · refine ⟨job.endedWell, _, List.suffix_append later _, hlistener j job (by simp [hold]), rfl,
        ?_⟩
      rw [Journal.awaited_of_none hnone, show job.endedWell.token = 0 from hzero]

omit [Machine σ] in
/-- Once another job was accepted, the upload does not wait for an old one. -/
theorem token_ne (hw : w.Tracked) (hactive : w.device.core.upload.numBlocks ≠ 0)
    {rest more : Journal} (hjournal : w.journal = since ++ rest)
    (hcurrent : w.journal.current = since ++ more) (hold : .accepted i job ∈ rest)
    (hsince : ∃ e ∈ since, e.isAccepted = true) : w.device.core.upload.token ≠ job.token := by
  rcases Journal.awaited_cases since with ⟨mid, k, last, earlier, rfl, hmid, -⟩ | ⟨hnone, -⟩
  · have hawaited := hw.books.awaited hactive
    rw [hcurrent, List.append_assoc, List.cons_append, Journal.awaited_append hmid,
      Journal.awaited_accepted, Prod.mk.injEq] at hawaited
    -- The upload waits for the last job accepted, whose token the old one cannot have as well.
    have hdistinct := hw.distinct
    rw [hjournal, List.append_assoc, List.cons_append] at hdistinct
    intro htoken
    have hnot := Journal.not_mem_of_nodup (j := i) hdistinct (htoken.symm.trans hawaited.2)
    exact hnot.2 (List.mem_append_right _ hold)
  · obtain ⟨e, hmem, haccepted⟩ := hsince
    rw [hnone e hmem] at haccepted
    cases haccepted

end Tracked

/-- Telling those who wait for a job of the disk leaves what crediting it
    leaves. -/
theorem finish_ok {d : Device σ} {job : Job} (hs : d.core.upload.Sound)
    (hphase : d.phase = .done job) (hjob : job.listener = some .upload) :
    ∃ d' request, d.finish = .ok d'
      ∧ d.core.upload.credit job d.core.config = .ok (d'.core.upload, request) := by
  obtain ⟨v, request, hcredit⟩ := Upload.credit_ok hs job d.core.config
  exact ⟨_, request, Device.finish_of_credit hphase hjob hcredit, hcredit⟩

/-- A job that the upload does not wait for changes nothing when it is told
    of. -/
theorem finish_of_not_awaits {d : Device σ} {job : Job} (hs : d.core.upload.Sound)
    (hphase : d.phase = .done job) (hjob : job.listener = some .upload)
    (h : d.core.upload.awaits job = false) :
    ∃ d', d.finish = .ok d' ∧ d'.core.upload = d.core.upload := by
  obtain ⟨d', request, hfinish, hcredit⟩ := finish_ok hs hphase hjob
  rw [Upload.credit_of_not_awaits _ h] at hcredit
  exact ⟨d', hfinish, (congrArg Prod.fst (Except.ok.inj hcredit)).symm⟩

/-! ### A small board

  A device with a little RAM and no flash, for runs that can be followed step by
  step.
-/

/-- 8 KiB of RAM. -/
def smallConfig : Config :=
  { map := [⟨.ram, 0x20000000, 0x2000⟩], familyId := Header.rp2040Family, rebootDelayMs := 0
    ramStack := 0 }

/-- A small board at some time. -/
def smallBoard (upload : Upload) (waiting : Option Job) (phase : Phase)
    (lastWriter : Option Channel) (machine : Recorder) (journal : Journal) : Watched Recorder :=
  { device :=
      { core :=
          { config := smallConfig, disk := ⟨waiting, none⟩, control := .empty, upload
            rebooting := false }
        phase, lastWriter, machine }
    journal }

/-- A small board that was just made. -/
def newSmallBoard : Watched Recorder :=
  fresh smallConfig (IndexSet.empty 1) (IndexSet.empty 1) (IndexSet.empty 1) ⟨[]⟩

/-- A block for it. -/
def smallBlock (blockNo numBlocks : UInt32) : Block :=
  ⟨Header.page (0x20000000 + blockNo * pageSize) blockNo numBlocks Header.rp2040Family, dataArea []⟩

/-- The sector with that block. -/
def smallSector (blockNo numBlocks : UInt32) : Sector := (smallBlock blockNo numBlocks).toSector

/-- The job for that block. -/
def smallJob (token blockNo numBlocks : UInt32) : Job :=
  ((Upload.fresh 1 1 1).pageJob (smallBlock blockNo numBlocks) token none).forUpload

theorem ofSectorFor?_smallSector (blockNo numBlocks : UInt32) :
    Block.ofSectorFor? (smallSector blockNo numBlocks) smallConfig.familyId
      = .ok (smallBlock blockNo numBlocks) := by
  have hfor : Block.isFor smallConfig.familyId (smallBlock blockNo numBlocks).header = true :=
    Block.isFor_page _ _ _ _
  unfold smallSector
  rw [Block.ofSectorFor?_toSector, if_pos hfor]

theorem blockToken?_smallSector (token blockNo numBlocks : UInt32) :
    (Move.sector token (smallSector blockNo numBlocks)).blockToken? smallConfig.familyId
      = some token := Move.blockToken?_of_block (ofSectorFor?_smallSector blockNo numBlocks)

theorem writesPage_smallJob (token blockNo numBlocks : UInt32) :
    (smallJob token blockNo numBlocks).WritesPage := by
  have hpayload := Block.length_payload (ofSectorFor?_smallSector blockNo numBlocks)
  exact (Job.writesPage_pageJob hpayload).forUpload

section smallSteps

variable {u v : Upload} {waiting : Option Job} {phase : Phase} {lastWriter : Option Channel}
  {machine : Recorder} {journal : Journal} {token blockNo numBlocks : UInt32}

theorem flashOf_smallBlock :
    Upload.flashOf smallConfig.map (smallBlock blockNo numBlocks) = none := by
  simp [Upload.flashOf, AddressMap.findOf?, smallConfig]

theorem smallBoard_take {job : Job} :
    (smallBoard u (some job) .idle lastWriter machine journal).step .take
      = .ok (smallBoard u none (.holding .disk job) lastWriter machine journal) := rfl

/-- A block that belongs to the image is taken. -/
theorem accepts_smallBlock
    (hstay : Upload.turnsAway (smallBlock blockNo numBlocks) smallConfig false = false)
    (hfits : (u.joined (smallBlock blockNo numBlocks) smallConfig).2 = true)
    (hkind : (Upload.ramOf smallConfig.map (smallBlock blockNo numBlocks)).isSome
      = (u.joined (smallBlock blockNo numBlocks) smallConfig).1.inRam)
    (hno : blockNo < numBlocks) :
    Upload.Accepts u (smallBlock blockNo numBlocks) token smallConfig false
      { (u.joined (smallBlock blockNo numBlocks) smallConfig).1 with blockNo, token }
      (some ((u.joined (smallBlock blockNo numBlocks) smallConfig).1.pageJob
        (smallBlock blockNo numBlocks) token none)) := by
  rw [← flashOf_smallBlock]
  refine .taken hstay ?_
  rintro (h | h | h | h | ⟨flash, h, -⟩)
  · simp [hfits] at h
  · exact h hkind
  · exact UInt32.not_le.mpr hno h
  · exact absurd h (Nat.not_lt.mpr (List.length_take_le _ _))
  · simp [flashOf_smallBlock] at h

theorem smallBoard_sector
    (hstay : Upload.turnsAway (smallBlock blockNo numBlocks) smallConfig false = false)
    (hfits : (u.joined (smallBlock blockNo numBlocks) smallConfig).2 = true)
    (hkind : (Upload.ramOf smallConfig.map (smallBlock blockNo numBlocks)).isSome
      = (u.joined (smallBlock blockNo numBlocks) smallConfig).1.inRam)
    (hno : blockNo < numBlocks) :
    (smallBoard u waiting phase lastWriter machine journal).step
        (.sector token (smallSector blockNo numBlocks))
      = .ok (smallBoard
          { (u.joined (smallBlock blockNo numBlocks) smallConfig).1 with blockNo, token }
          (some (smallJob token blockNo numBlocks)) phase lastWriter machine
          (.accepted blockNo (smallJob token blockNo numBlocks)
            :: (u.startEntry (smallBlock blockNo numBlocks) ++ journal))) := by
  have hblock : Block.ofSectorFor? (smallSector blockNo numBlocks)
      (smallBoard u waiting phase lastWriter machine journal).device.core.config.familyId
        = .ok (smallBlock blockNo numBlocks) := by
    simp only [smallBoard, ofSectorFor?_smallSector]
  rw [step_block hblock (accepts_smallBlock hstay hfits hkind hno), Upload.entries,
    if_neg (by rw [Bool.not_eq_true]; exact hstay)]
  rfl

/-- A block with a number beyond its image is dropped. -/
theorem smallBoard_beyond
    (hstay : Upload.turnsAway (smallBlock blockNo numBlocks) smallConfig false = false)
    (hno : numBlocks ≤ blockNo) :
    (smallBoard u waiting phase lastWriter machine journal).step
        (.sector token (smallSector blockNo numBlocks))
      = .ok (smallBoard (u.joined (smallBlock blockNo numBlocks) smallConfig).1 waiting phase
          lastWriter machine (u.startEntry (smallBlock blockNo numBlocks) ++ journal)) := by
  have hdropped : Upload.Accepts u (smallBlock blockNo numBlocks) token smallConfig false
      (u.joined (smallBlock blockNo numBlocks) smallConfig).1 none :=
    .dropped hstay (.inr (.inr (.inl hno)))
  have hblock : Block.ofSectorFor? (smallSector blockNo numBlocks)
      (smallBoard u waiting phase lastWriter machine journal).device.core.config.familyId
        = .ok (smallBlock blockNo numBlocks) := by
    simp only [smallBoard, ofSectorFor?_smallSector]
  rw [step_block hblock hdropped, Upload.entries, if_neg (by rw [Bool.not_eq_true]; exact hstay)]
  rfl

/-- A page in its RAM is written. -/
theorem smallBoard_carryOut
    (hram : (Upload.ramOf smallConfig.map (smallBlock blockNo numBlocks)).isSome = true) :
    (smallBoard u waiting (.holding .disk (smallJob token blockNo numBlocks)) lastWriter machine
        journal).step .carryOut
      = .ok (smallBoard u waiting (.done (smallJob token blockNo numBlocks).endedWell)
          (some .disk)
          (Machine.perform machine (.writeRam (smallJob token blockNo numBlocks).addr
            (smallJob token blockNo numBlocks).payload))
          (.carriedOut (smallJob token blockNo numBlocks).endedWell :: journal)) := by
  have hjob := writesPage_smallJob token blockNo numBlocks
  have hexecute := (smallBoard u waiting (.holding .disk (smallJob token blockNo numBlocks))
    lastWriter machine journal).device.execute_page hjob (hjob.plan_ram hram rfl lastWriter) rfl
  exact step_carriedOut rfl rfl hexecute

/-- A job is told of, and calls for no reboot. -/
theorem smallBoard_finish {job : Job} (hjob : job.listener = some .upload)
    (hcredit : u.credit job smallConfig = .ok (v, none)) :
    (smallBoard u waiting (.done job) lastWriter machine journal).step .finish
      = .ok (smallBoard v waiting .idle lastWriter
          (Machine.perform machine (.complete job.response)) (.told job :: journal)) :=
  step_told (w := smallBoard u waiting (.done job) lastWriter machine journal) rfl hjob hcredit

end smallSteps

/-! ### Two runs of the small board -/

/-- An upload to the small board. -/
def smallUpload (numBlocks valid count lowestAddr blockNo token : UInt32) : Upload :=
  { ramBlocks := ⟨#[valid]⟩, flashBlocks := .empty 1, erasedSectors := .empty 1, numBlocks
    validCount := count, lowestAddr, inRam := true, blockNo, token }

/-- The three blocks of an image come one after the other. The first one is written in
    time, the second one is overtaken by the third. -/
def threeMoves : List Move :=
  [.sector 1 (smallSector 0 3), .take, .carryOut, .finish, .sector 2 (smallSector 1 3), .take,
    .sector 3 (smallSector 2 3), .carryOut, .finish, .take, .carryOut]

theorem tokens_threeMoves :
    threeMoves.filterMap (Move.blockToken? smallConfig.familyId) = [1, 2, 3] := by
  unfold threeMoves
  rw [List.filterMap_cons_some (blockToken?_smallSector 1 0 3), List.filterMap_cons_none rfl,
    List.filterMap_cons_none rfl, List.filterMap_cons_none rfl,
    List.filterMap_cons_some (blockToken?_smallSector 2 1 3), List.filterMap_cons_none rfl,
    List.filterMap_cons_some (blockToken?_smallSector 3 2 3)]
  rfl

/-- When the third block is written, the first one is valid and the second one is not. -/
theorem run_threeMoves : ∃ w, newSmallBoard.run threeMoves = .ok w
    ∧ w.device.phase = .done (smallJob 3 2 3).endedWell
    ∧ w.journal = [.carriedOut (smallJob 3 2 3).endedWell, .told (smallJob 2 1 3).endedWell,
        .carriedOut (smallJob 2 1 3).endedWell, .accepted 2 (smallJob 3 2 3),
        .accepted 1 (smallJob 2 1 3), .told (smallJob 1 0 3).endedWell,
        .carriedOut (smallJob 1 0 3).endedWell, .accepted 0 (smallJob 1 0 3), .started]
    ∧ w.device.core.upload = smallUpload 3 1 1 0x20000000 2 3 := by
  let u₁ := smallUpload 3 0 0 0xFFFFFFFF 0 1
  let u₂ := smallUpload 3 1 1 0x20000000 0 1
  let u₃ := smallUpload 3 1 1 0x20000000 1 2
  let u₄ := smallUpload 3 1 1 0x20000000 2 3
  have hcredit₁ : u₁.credit (smallJob 1 0 3).endedWell smallConfig = .ok (u₂, none) := by decide
  have hcredit₂ : u₄.credit (smallJob 2 1 3).endedWell smallConfig = .ok (u₄, none) := by decide
  have hsector₁ : newSmallBoard.step (.sector 1 (smallSector 0 3))
      = .ok (smallBoard u₁ (some (smallJob 1 0 3)) .idle none ⟨[]⟩
        [.accepted 0 (smallJob 1 0 3), .started]) :=
    smallBoard_sector (by decide) (by decide) (by decide) (by decide)
  have hsector₂ : ∀ machine journal,
      (smallBoard u₂ none .idle (some .disk) machine journal).step (.sector 2 (smallSector 1 3))
        = .ok (smallBoard u₃ (some (smallJob 2 1 3)) .idle (some .disk) machine
          (.accepted 1 (smallJob 2 1 3) :: journal)) :=
    fun _ _ => smallBoard_sector (by decide) (by decide) (by decide) (by decide)
  have hsector₃ : ∀ phase machine journal,
      (smallBoard u₃ none phase (some .disk) machine journal).step (.sector 3 (smallSector 2 3))
        = .ok (smallBoard u₄ (some (smallJob 3 2 3)) phase (some .disk) machine
          (.accepted 2 (smallJob 3 2 3) :: journal)) :=
    fun _ _ _ => smallBoard_sector (by decide) (by decide) (by decide) (by decide)
  have hrun : newSmallBoard.run threeMoves = .ok _ :=
    (run_cons _ _ _ _ hsector₁).trans <| (run_cons _ _ _ _ smallBoard_take).trans <|
    (run_cons _ _ _ _ (smallBoard_carryOut (by decide))).trans <|
    (run_cons _ _ _ _ (smallBoard_finish rfl hcredit₁)).trans <|
    (run_cons _ _ _ _ (hsector₂ _ _)).trans <| (run_cons _ _ _ _ smallBoard_take).trans <|
    (run_cons _ _ _ _ (hsector₃ _ _ _)).trans <|
    (run_cons _ _ _ _ (smallBoard_carryOut (by decide))).trans <|
    (run_cons _ _ _ _ (smallBoard_finish rfl hcredit₂)).trans <|
    (run_cons _ _ _ _ smallBoard_take).trans <|
    run_cons _ _ _ _ (smallBoard_carryOut (by decide))
  exact ⟨_, hrun, rfl, rfl, rfl⟩

/-- A job for block 2 of three, with token zero, waits while a sector starts an upload
    of four blocks and is dropped. Then the job is carried out and told of. -/
def strayMoves : List Move :=
  [.sector 0 (smallSector 2 3), .sector 1 (smallSector 9 4), .take, .carryOut, .finish]

theorem distinct_tokens_strayMoves :
    (strayMoves.filterMap (Move.blockToken? smallConfig.familyId)).Nodup := by
  unfold strayMoves
  rw [List.filterMap_cons_some (blockToken?_smallSector 0 2 3),
    List.filterMap_cons_some (blockToken?_smallSector 1 9 4)]
  show [(0 : UInt32), 1].Nodup
  decide

/-- The upload that was just started waits for token zero, so the job is credited to it. -/
theorem run_strayMoves : ∃ w, newSmallBoard.run strayMoves = .ok w
    ∧ w.journal = [.told (smallJob 0 2 3).endedWell, .carriedOut (smallJob 0 2 3).endedWell]
        ++ .started :: [.accepted 2 (smallJob 0 2 3), .started]
    ∧ w.device.core.upload = smallUpload 4 1 1 0x20000200 0 0 := by
  let u₁ := smallUpload 3 0 0 0xFFFFFFFF 2 0
  let u₂ := smallUpload 4 0 0 0xFFFFFFFF 0 0
  have hsector₁ : newSmallBoard.step (.sector 0 (smallSector 2 3))
      = .ok (smallBoard u₁ (some (smallJob 0 2 3)) .idle none ⟨[]⟩
        [.accepted 2 (smallJob 0 2 3), .started]) :=
    smallBoard_sector (by decide) (by decide) (by decide) (by decide)
  have hsector₂ : ∀ waiting journal,
      (smallBoard u₁ waiting .idle none ⟨[]⟩ journal).step (.sector 1 (smallSector 9 4))
        = .ok (smallBoard u₂ waiting .idle none ⟨[]⟩ (.started :: journal)) :=
    fun _ _ => smallBoard_beyond (by decide) (by decide)
  have hcredit : u₂.credit (smallJob 0 2 3).endedWell smallConfig
      = .ok (smallUpload 4 1 1 0x20000200 0 0, none) := by decide
  have hrun : newSmallBoard.run strayMoves = .ok _ :=
    (run_cons _ _ _ _ hsector₁).trans <| (run_cons _ _ _ _ (hsector₂ _ _)).trans <|
    (run_cons _ _ _ _ smallBoard_take).trans <|
    (run_cons _ _ _ _ (smallBoard_carryOut (by decide))).trans <|
    run_cons _ _ _ _ (smallBoard_finish rfl hcredit)
  exact ⟨_, hrun, rfl, rfl⟩

/-- A job that ended well makes its block valid, unless another job was accepted
    before it was told of: then it changes nothing. A host that sees to it that
    each block is written in time gets its image completed. -/
theorem valid_or_overtaken (config : Config) (ramBlocks flashBlocks erasedSectors : IndexSet)
    (machine : σ) {moves : List Move}
    (hdistinct : (moves.filterMap (Move.blockToken? config.familyId)).Nodup) :
    ∃ w, (fresh config ramBlocks flashBlocks erasedSectors machine).run moves = .ok w
      ∧ ∀ since i job before, w.journal = since ++ .accepted i job :: before →
        (∀ e ∈ since, e.isBoundary = false) → w.device.phase = .done job.endedWell →
        ∃ d, w.device.finish = .ok d
          ∧ ((∀ e ∈ since, e.isAccepted = false) → d.core.upload.isBlockValid i = true)
          ∧ ((∃ e ∈ since, e.isAccepted = true) → d.core.upload = w.device.core.upload)
          ∧ ((∀ k < d.core.upload.numBlocks,
                (Journal.current (.told job.endedWell :: w.journal)).WrittenInTime k) →
              d.core.upload.progress = .complete) := by
  obtain ⟨w, hrun, hw⟩ :=
    run_tracked config ramBlocks flashBlocks erasedSectors machine hdistinct
  refine ⟨w, hrun, ?_⟩
  intro since i job before hjournal hsince hphase
  have hcurrent : w.journal.current = since ++ .accepted i job :: Journal.current before := by
    rw [hjournal, Journal.current_append hsince, Journal.current_cons rfl]
  -- The transfer is still tracked, since an entry of its own stands in its part of the journal.
  have hactive : w.device.core.upload.numBlocks ≠ 0 :=
    hw.books.active i job (by rw [hcurrent]; simp)
  have hjob : job.endedWell.listener = some .upload :=
    (hw.sourced.written i job (by rw [hjournal]; simp)).1
  obtain ⟨d, request, hfinish, hcredit⟩ := finish_ok hw.books.sound hphase hjob
  have hbooks := hw.books.credit hjob hcredit
  have hactive' : d.core.upload.numBlocks ≠ 0 :=
    hbooks.active i job (by rw [Journal.current_cons rfl, hcurrent]; simp)
  refine ⟨d, hfinish, ?_, ?_, ?_⟩
  · intro hnone
    -- Nothing was accepted since, so it is this job that the upload waits for.
    have hawaited : w.journal.current.awaited = (i, job.token) := by
      rw [hcurrent, Journal.awaited_append hnone, Journal.awaited_accepted]
    rw [hbooks.valid hactive', Journal.current_cons rfl, Journal.counts_cons]
    exact .inl ⟨job.endedWell, rfl, hjob, rfl, hawaited⟩
  · intro hsome
    -- Another job was accepted since, and the upload waits for that one.
    have hne : w.device.core.upload.token ≠ job.token :=
      hw.token_ne hactive hjournal hcurrent List.mem_cons_self hsome
    have hawaits : w.device.core.upload.awaits job.endedWell = false := by
      simp [Upload.awaits, Job.endedWell, hne.symm]
    rw [Upload.credit_of_not_awaits _ hawaits] at hcredit
    exact (congrArg Prod.fst (Except.ok.inj hcredit)).symm
  · intro hwritten
    -- An image is complete when all its blocks are valid.
    rw [(hbooks.sound hactive').progress_eq_complete_iff hactive']
    intro k hk
    rw [hbooks.valid hactive']
    refine (hwritten k hk).counts ?_
    intro j other hmem
    have hmem' : .accepted j other ∈ Journal.current w.journal := by
      rw [Journal.current_cons rfl] at hmem
      exact List.mem_of_ne_of_mem (by simp) hmem
    exact (hw.sourced.written j other ((List.takeWhile_prefix _).subset hmem')).1

/-- The third block of an image overtakes the second one, and is written in time
    itself: with it the first and the third block are valid. -/
theorem valid_or_overtaken_threeMoves :
    (threeMoves.filterMap (Move.blockToken? smallConfig.familyId)).Nodup
      ∧ ∃ w d, newSmallBoard.run threeMoves = .ok w ∧ w.device.finish = .ok d
        ∧ w.device.core.upload.isBlockValid 0 = true
        ∧ w.device.core.upload.isBlockValid 1 = false
        ∧ w.device.core.upload.isBlockValid 2 = false ∧ d.core.upload.isBlockValid 2 = true := by
  have hdistinct : (threeMoves.filterMap (Move.blockToken? smallConfig.familyId)).Nodup := by
    rw [tokens_threeMoves]
    decide
  obtain ⟨w, hrun, h⟩ := valid_or_overtaken smallConfig (IndexSet.empty 1) (IndexSet.empty 1)
    (IndexSet.empty 1) (⟨[]⟩ : Recorder) hdistinct
  obtain ⟨w', hrun', hphase, hjournal, hupload⟩ := run_threeMoves
  cases hrun.symm.trans hrun'
  obtain ⟨d, hfinish, hvalid, -⟩ := h [.carriedOut (smallJob 3 2 3).endedWell,
      .told (smallJob 2 1 3).endedWell, .carriedOut (smallJob 2 1 3).endedWell] 2 (smallJob 3 2 3)
    _ hjournal (by simp [Entry.isBoundary]) hphase
  refine ⟨hdistinct, w, d, hrun, hfinish, ?_, ?_, ?_, hvalid (by simp [Entry.isAccepted])⟩
  all_goals
    rw [hupload]
    decide

/-- The first block of three is overtaken by the second one: it ended well, and is
    not valid. -/
theorem overtaken_not_valid :
    (List.filterMap (Move.blockToken? smallConfig.familyId)
        [.sector 1 (smallSector 0 3), .take, .sector 2 (smallSector 1 3), .carryOut]).Nodup
      ∧ ∃ w since job before d,
        newSmallBoard.run
            [.sector 1 (smallSector 0 3), .take, .sector 2 (smallSector 1 3), .carryOut] = .ok w
          ∧ w.journal = since ++ .accepted 0 job :: before
          ∧ (∀ e ∈ since, e.isBoundary = false) ∧ w.device.phase = .done job.endedWell
          ∧ w.device.finish = .ok d ∧ d.core.upload.isBlockValid 0 = false := by
  have hdistinct : (List.filterMap (Move.blockToken? smallConfig.familyId)
      [.sector 1 (smallSector 0 3), .take, .sector 2 (smallSector 1 3), .carryOut]).Nodup := by
    rw [List.filterMap_cons_some (blockToken?_smallSector 1 0 3), List.filterMap_cons_none rfl,
      List.filterMap_cons_some (blockToken?_smallSector 2 1 3)]
    show [(1 : UInt32), 2].Nodup
    decide
  -- The second sector comes in while the worker holds the job for the first one.
  obtain ⟨w, hrun, hphase, hjournal, hawaits, hvalid⟩ : ∃ w,
      newSmallBoard.run
          [.sector 1 (smallSector 0 3), .take, .sector 2 (smallSector 1 3), .carryOut] = .ok w
        ∧ w.device.phase = .done (smallJob 1 0 3).endedWell
        ∧ w.journal = [.carriedOut (smallJob 1 0 3).endedWell, .accepted 1 (smallJob 2 1 3),
          .accepted 0 (smallJob 1 0 3), .started]
        ∧ w.device.core.upload.awaits (smallJob 1 0 3).endedWell = false
        ∧ w.device.core.upload.isBlockValid 0 = false :=
    ⟨_, (run_cons _ _ _ _ (smallBoard_sector (by decide) (by decide) (by decide)
      (by decide))).trans ((run_cons _ _ _ _ smallBoard_take).trans ((run_cons _ _ _ _
        (smallBoard_sector (by decide) (by decide) (by decide) (by decide))).trans
          (run_cons _ _ _ _ (smallBoard_carryOut (by decide))))),
      rfl, rfl, by decide, by decide⟩
  obtain ⟨w', hrun', hw⟩ := run_tracked smallConfig (IndexSet.empty 1) (IndexSet.empty 1)
    (IndexSet.empty 1) (⟨[]⟩ : Recorder) hdistinct
  cases hrun'.symm.trans hrun
  obtain ⟨d, hfinish, hsame⟩ := finish_of_not_awaits hw.books.sound hphase rfl hawaits
  exact ⟨hdistinct, w, [.carriedOut (smallJob 1 0 3).endedWell, .accepted 1 (smallJob 2 1 3)],
    smallJob 1 0 3, [.started], d, hrun, hjournal, by simp [Entry.isBoundary], hphase, hfinish,
    by rw [hsame, hvalid]⟩

/-- The valid blocks of an upload are those that were written in time since it
    was started, and block 0 if a job from before ended well as a stray one. A job
    from before changes nothing, unless it has token zero and is told of before
    any job was accepted for the upload. -/
theorem valid_iff_writtenInTime_or_stray (config : Config)
    (ramBlocks flashBlocks erasedSectors : IndexSet) (machine : σ) {moves : List Move}
    (hdistinct : (moves.filterMap (Move.blockToken? config.familyId)).Nodup) :
    ∃ w, (fresh config ramBlocks flashBlocks erasedSectors machine).run moves = .ok w
      ∧ (w.device.core.upload.numBlocks ≠ 0 →
        ∃ since before : Journal, w.journal = since ++ .started :: before
          ∧ (∀ e ∈ since, e.isBoundary = false)
          ∧ (∀ i, w.device.core.upload.isBlockValid i = true ↔
              since.WrittenInTime i ∨ i = 0 ∧ since.Stray before)
          ∧ ∀ i job result, .accepted i job ∈ before →
            w.device.phase = .done { job with result } →
            (job.token = 0 → ∃ e ∈ since, e.isAccepted = true) →
            ∃ d, w.device.finish = .ok d ∧ d.core.upload = w.device.core.upload) := by
  obtain ⟨w, hrun, hw⟩ :=
    run_tracked config ramBlocks flashBlocks erasedSectors machine hdistinct
  refine ⟨w, hrun, ?_⟩
  intro hactive
  obtain ⟨before, hjournal⟩ := hw.books.started hactive
  refine ⟨w.journal.current, before, hjournal, fun e he => Journal.isBoundary_of_mem_current he,
    ?_, ?_⟩
  · intro i
    rw [hw.books.valid hactive, hw.counts_iff hjournal]
  · intro i job result hold hphase hzero
    have hmem : .accepted i job ∈ w.journal := by
      rw [hjournal]
      simp [hold]
    have hjob : Job.listener { job with result } = some .upload :=
      (hw.sourced.written i job hmem).1
    have hne : w.device.core.upload.token ≠ job.token := by
      by_cases hsome : ∃ e ∈ w.journal.current, e.isAccepted = true
      · exact hw.token_ne hactive hjournal (List.append_nil _).symm
          (List.mem_cons_of_mem _ hold) hsome
      · -- Nothing was accepted, so the token is still the one of the start.
        have hnone : ∀ e ∈ w.journal.current, e.isAccepted = false := by
          intro e he
          exact Bool.eq_false_iff.mpr fun h => hsome ⟨e, he, h⟩
        have hawaited := Journal.awaited_of_none hnone
        rw [← hw.books.awaited hactive, Prod.mk.injEq] at hawaited
        rw [hawaited.2]
        exact fun h => hsome (hzero h.symm)
    have hawaits : w.device.core.upload.awaits { job with result } = false := by
      simp [Upload.awaits, hne.symm]
    exact finish_of_not_awaits hw.books.sound hphase hjob hawaits

/-- After the stray moves block 0 is valid, and only for the stray job: nothing was
    accepted since the start. -/
theorem valid_iff_strayMoves :
    (strayMoves.filterMap (Move.blockToken? smallConfig.familyId)).Nodup
      ∧ ∃ w, ∃ since before : Journal, newSmallBoard.run strayMoves = .ok w
        ∧ w.device.core.upload.numBlocks ≠ 0 ∧ w.journal = since ++ .started :: before
        ∧ (∀ i, w.device.core.upload.isBlockValid i = true ↔
            since.WrittenInTime i ∨ i = 0 ∧ since.Stray before)
        ∧ w.device.core.upload.isBlockValid 0 = true ∧ ¬ since.WrittenInTime 0
        ∧ since.Stray before := by
  obtain ⟨w, hrun, h⟩ := valid_iff_writtenInTime_or_stray smallConfig (IndexSet.empty 1)
    (IndexSet.empty 1) (IndexSet.empty 1) (⟨[]⟩ : Recorder) distinct_tokens_strayMoves
  obtain ⟨w', hrun', hjournal', hupload⟩ := run_strayMoves
  cases hrun.symm.trans hrun'
  have hactive : w.device.core.upload.numBlocks ≠ 0 := by
    rw [hupload]
    decide
  have hzero : w.device.core.upload.isBlockValid 0 = true := by
    rw [hupload]
    decide
  obtain ⟨since, before, hjournal, hsince, hvalid, -⟩ := h hactive
  -- What came since the start is the part of the journal up to the latest entry for one.
  have hlatest : since = [.told (smallJob 0 2 3).endedWell,
      .carriedOut (smallJob 0 2 3).endedWell] :=
    calc since = Journal.current (since ++ .started :: before) := by
          rw [Journal.current_append hsince, Journal.current_of_boundary rfl, List.append_nil]
      _ = _ := by
          rw [← hjournal, hjournal']
          rfl
  have hnot : ¬ since.WrittenInTime 0 := by
    rintro ⟨later, mid, earlier, job, hsplit, -⟩
    have hmem : .accepted 0 job ∈ since := by
      rw [hsplit]
      simp
    rw [hlatest] at hmem
    simp at hmem
  have hstray : since.Stray before := ((hvalid 0).mp hzero).elim (absurd · hnot) (·.2)
  exact ⟨distinct_tokens_strayMoves, w, since, before, hrun, hactive, hjournal, hvalid, hzero, hnot,
    hstray⟩

/-- A job for block 2 of three, with token zero, is told of after a start that
    accepted nothing: block 0 of the new upload is valid, and nothing was accepted
    for it. -/
theorem stray_counts :
    (strayMoves.filterMap (Move.blockToken? smallConfig.familyId)).Nodup
      ∧ ∃ w since before, newSmallBoard.run strayMoves = .ok w
          ∧ w.journal = since ++ .started :: before ∧ (∀ e ∈ since, e.isBoundary = false)
          ∧ w.device.core.upload.numBlocks = 4 ∧ w.device.core.upload.isBlockValid 0 = true
          ∧ ∀ i job, .accepted i job ∉ since := by
  obtain ⟨w, hrun, hjournal, hupload⟩ := run_strayMoves
  refine ⟨distinct_tokens_strayMoves, w, _, _, hrun, hjournal, by simp [Entry.isBoundary], ?_, ?_,
    by simp⟩
  all_goals
    rw [hupload]
    decide

end Watched

end Reflash
