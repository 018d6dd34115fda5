import Reflash.Proofs.PageJob
import Reflash.Proofs.RunHistory
/-! # The reboot is due once and for all

  A reboot that is due stays due. From then on nothing is carried out: a job that
  the worker picks up is refused, makes no call but the one that tells the host,
  and leaves the device as it was.

  The machine is asked for a reboot once in a run at most, and exactly when a job
  is told of that makes the last missing block of an image valid. A job may have
  ended well before the reboot was due and be told of afterwards. That is why the
  invariant `Latched` speaks of the job that the worker is done with, and not only
  of the reboot.
-/

namespace Reflash

/-! ### The last missing block -/

namespace Upload

/-- One block was missing, and now none is. -/
def Completes (u v : Upload) : Prop :=
  u.numBlocks ≠ 0 ∧ v.numBlocks = u.numBlocks ∧ ∃ i < u.numBlocks, u.isBlockValid i = false
    ∧ (∀ j < u.numBlocks, j ≠ i → u.isBlockValid j = true)
    ∧ ∀ j < u.numBlocks, v.isBlockValid j = true

variable {u v : Upload}

/-- An upload in which no block becomes valid is not completed. -/
theorem not_completes_of_valid (h : ∀ i, v.isBlockValid i = true → u.isBlockValid i = true) :
    ¬ u.Completes v := by
  rintro ⟨-, -, i, hi, hmissing, -, hall⟩
  rw [h i (hall i hi)] at hmissing
  cases hmissing

section block

variable {block : Block} {token : UInt32} {config : Config} {fenced : Bool} {job : Option Job}

/-- Joining an upload makes no block valid. -/
theorem valid_of_joined {i : UInt32} (h : (u.joined block config).1.isBlockValid i = true) :
    u.numBlocks = block.header.numBlocks ∧ u.isBlockValid i = true := by
  by_cases hn : u.numBlocks = block.header.numBlocks
  · rw [joined_of_eq hn] at h
    exact ⟨hn, h⟩
  · rw [joined_of_ne hn, (start_started _ _ _).valid] at h
    cases h

/-- Looking at a block makes no block valid. -/
theorem Accepts.valid (h : Accepts u block token config fenced v job) (i : UInt32)
    (hv : v.isBlockValid i = true) : u.isBlockValid i = true := by
  cases h with
  | turnedAway => exact hv
  | dropped => exact (valid_of_joined hv).2
  | taken => exact (valid_of_joined hv).2

/-- Joining an upload completes none. -/
theorem complete_of_joined (h : (u.joined block config).1.progress = .complete) :
    u.progress = .complete := by
  by_cases hn : u.numBlocks = block.header.numBlocks
  · rw [joined_of_eq hn] at h
    exact h
  · rw [joined_of_ne hn] at h
    -- Nothing counts in an upload that was just started.
    have hcount := (start_started u (ramOf config.map block).isSome
      block.header.numBlocks).validCount
    unfold progress at h
    split at h
    · cases h
    · rename_i hactive
      rw [hcount, if_neg fun hzero => hactive hzero.symm] at h
      cases h

/-- Looking at a block completes no upload. -/
theorem Accepts.complete (h : Accepts u block token config fenced v job)
    (hv : v.progress = .complete) : u.progress = .complete := by
  cases h with
  | turnedAway => cases hv
  | dropped => exact complete_of_joined hv
  | taken => exact complete_of_joined hv

end block

section credit

variable {job : Job} {config : Config} {request : Option RebootRequest}

/-- The reboot is called for exactly when the last missing block becomes
    valid. -/
theorem Credits.isSome_request (h : u.Credits job config v request) (hu : u.Sound)
    (hn : u.numBlocks ≠ 0) : request.isSome = true ↔ u.Completes v := by
  have hn' : v.numBlocks ≠ 0 := by
    rw [h.numBlocks]
    exact hn
  have hall := (h.sound hn').validCount_eq_iff
  rw [h.numBlocks] at hall
  -- Only the block that is waited for can have become valid.
  have hother : ∀ j, j ≠ u.blockNo → v.isBlockValid j = u.isBlockValid j := by
    intro j hj
    rw [h.valid]
    simp [hj]
  rw [h.request]
  constructor
  · intro hsome
    split at hsome
    · rename_i hlast
      rw [h.numBlocks] at hlast
      have hvalid := hall.mp hlast.2
      refine ⟨hn, h.numBlocks, u.blockNo, (hu hn).blockNo_lt, hlast.1, fun j hj hne => ?_, hvalid⟩
      rw [← hother j hne]
      exact hvalid j hj
    · cases hsome
  · rintro ⟨-, -, i, hi, hmissing, -, hvalid⟩
    have hblock : i = u.blockNo := by
      by_contra hne
      have hnew := hvalid i hi
      rw [hother i hne, hmissing] at hnew
      cases hnew
    subst hblock
    rw [if_pos ⟨hmissing, by rw [h.numBlocks]; exact hall.mpr hvalid⟩]
    rfl

/-- An upload that becomes complete when a job is credited calls for a reboot. -/
theorem Credits.complete (h : u.Credits job config v request) (hu : u.Sound)
    (hn : u.numBlocks ≠ 0) (hv : v.progress = .complete) :
    u.progress = .complete ∨ request.isSome = true := by
  have hn' : v.numBlocks ≠ 0 := by
    rw [h.numBlocks]
    exact hn
  have hvalid := ((h.sound hn').progress_eq_complete_iff hn').mp hv
  rw [h.numBlocks] at hvalid
  cases hlast : u.isBlockValid u.blockNo with
  | true =>
    left
    rw [(hu hn).progress_eq_complete_iff hn]
    intro i hi
    have hi' := hvalid i hi
    rw [h.valid, Bool.or_eq_true, decide_eq_true_eq] at hi'
    rcases hi' with hold | rfl
    · exact hold
    · exact hlast
  | false =>
    right
    rw [h.request, if_pos ⟨hlast, (h.sound hn').validCount_eq_iff.mpr (h.numBlocks ▸ hvalid)⟩]
    rfl

end credit

end Upload

/-! ### Calls for a reboot -/

/-- Whether a call asks for a reboot. -/
def Call.isReboot : Call → Bool
  | .reboot _ => true
  | _ => false

/-- Whether a call tells the host about a job. -/
def Call.isComplete : Call → Bool
  | .complete _ => true
  | _ => false

namespace Job

variable {job : Job} {map : AddressMap} {rebooting : Bool} {lastWriter : Option Channel}
  {call : Call}

/-- Before any address is checked the volume may be ejected and code called. -/
theorem openingCalls_cases (h : call ∈ job.openingCalls) :
    call = .eject ∨ ∃ entry, call = .exec entry := by
  rcases List.mem_append.mp h with heject | hexec
  · split at heject
    · exact .inl (List.mem_singleton.mp heject)
    · cases heject
  · split at hexec
    · exact .inr ⟨_, List.mem_singleton.mp hexec⟩
    · cases hexec

/-- The other calls of a plan are made when all addresses were checked. -/
theorem plan_calls_cases (h : call ∈ (job.plan map rebooting lastWriter).calls) :
    call ∈ job.openingCalls
    ∨ ∃ erase target, job.erase.mapM (checkErase map job.exitXip) = .ok erase
        ∧ job.target map = .ok target ∧ call ∈ job.moves erase target := by
  unfold plan at h
  split at h
  · cases h
  · split at h
    · exact .inl h
    · unfold checkedMoves at h
      cases herase : job.erase.mapM (checkErase map job.exitXip) with
      | error status =>
        rw [herase] at h
        exact .inl h
      | ok erase =>
        cases htarget : job.target map with
        | error status =>
          rw [herase, htarget] at h
          exact .inl h
        | ok target =>
          rw [herase, htarget] at h
          exact (List.mem_append.mp h).imp_right fun hmoved => ⟨erase, target, rfl, rfl, hmoved⟩

/-- Bytes move in an update of flash, into RAM or out of memory. -/
theorem moves_cases {erase : Option EraseRange} {target : Target}
    (h : call ∈ job.moves erase target) :
    (erase.isSome = true ∨ target = .flash) ∧ call = .updateFlash ⟨erase,
        if target = .flash then some (job.addr, job.payload) else none⟩
    ∨ target = .ram ∧ call = .writeRam job.addr job.payload
    ∨ target = .page ∧ call = .read job.addr job.length := by
  rcases List.mem_append.mp h with hupdate | hbytes
  · left
    cases target with
    | flash => exact ⟨.inr rfl, by simpa using hupdate⟩
    | _ =>
      cases erase with
      | none => cases hupdate
      | some range => exact ⟨.inl rfl, List.mem_singleton.mp hupdate⟩
  · right
    cases target with
    | nowhere | flash => cases hbytes
    | page => exact .inr ⟨rfl, List.mem_singleton.mp hbytes⟩
    | ram => exact .inl ⟨rfl, List.mem_singleton.mp hbytes⟩

/-- What a job does neither asks for a reboot nor tells the host. -/
theorem mem_plan_calls (h : call ∈ (job.plan map rebooting lastWriter).calls) :
    call.isReboot = false ∧ call.isComplete = false := by
  rcases plan_calls_cases h with hopening | ⟨erase, target, -, -, hmoved⟩
  · rcases openingCalls_cases hopening with rfl | ⟨entry, rfl⟩ <;> exact ⟨rfl, rfl⟩
  · rcases moves_cases hmoved with ⟨-, rfl⟩ | ⟨-, rfl⟩ | ⟨-, rfl⟩ <;> exact ⟨rfl, rfl⟩

end Job

/-! ### When a reboot is asked for -/

section firing

variable {σ : Type}

/-- Whether a step asks the machine for a reboot. It does only in telling of a
    job that ended well. -/
inductive Device.Fires (d d' : Device (Logged σ)) : Journal → Prop where
  | quiet {es : Journal} (new : List Call) : d'.machine.calls = new ++ d.machine.calls →
      (∀ call ∈ new, call.isReboot = false) → ¬ d.core.upload.Completes d'.core.upload →
      (d'.core.upload.progress = .complete → d.core.upload.progress = .complete) →
      (d.core.rebooting = true → d'.core.rebooting = true) → Fires d d' es
  | fires {job : Job} (request : RebootRequest) : d.phase = .done job →
      job.result = some .ok →
      d'.machine.calls = .complete job.response :: .reboot request :: d.machine.calls →
      d.core.upload.Completes d'.core.upload → d'.core.rebooting = true → d'.phase = .idle →
      Fires d d' [.told job]

variable {d d' : Device (Logged σ)} {es es' : Journal}

/-- A step that leaves the upload alone completes nothing. -/
theorem Device.Fires.of_upload (new : List Call)
    (hcalls : d'.machine.calls = new ++ d.machine.calls)
    (hnew : ∀ call ∈ new, call.isReboot = false) (hupload : d'.core.upload = d.core.upload)
    (hdue : d.core.rebooting = true → d'.core.rebooting = true) : d.Fires d' es := by
  refine .quiet new hcalls hnew ?_ ?_ hdue
  · rw [hupload]
    exact Upload.not_completes_of_valid fun _ h => h
  · rw [hupload]
    exact id

theorem Device.Step.fires [Machine σ] (h : d.Step es d') (hs : d.core.upload.Sound) :
    d.Fires d' es := by
  cases h with
  | block _ hcases =>
    exact .quiet [] rfl (by simp) (Upload.not_completes_of_valid hcases.valid) hcases.complete id
  | resetDisk =>
    refine .quiet [] rfl (by simp) (Upload.not_completes_of_valid fun _ h => h) ?_ id
    intro hcomplete
    cases hcomplete
  | latch => exact .of_upload [] rfl (by simp) rfl fun _ => rfl
  | @take origin => cases origin <;> exact .of_upload [] rfl (by simp) rfl id
  | @carriedOut origin job =>
    refine .of_upload (job.plan d.core.config.map d.core.rebooting d.lastWriter).calls.reverse
      (Logged.calls_performAll _ _) ?_ rfl id
    intro call hcall
    exact (Job.mem_plan_calls (List.mem_reverse.mp hcall)).1
  | @told job =>
    by_cases hhost : job.listener = some .host
    · refine .of_upload [.complete job.response] ?_ (by simp [Call.isReboot]) rfl id
      simp [hhost]
    · refine .of_upload [] ?_ (by simp) rfl id
      simp [hhost]
  | @credited job v request hphase _ hcredit =>
    rcases Upload.credit_cases hs job d.core.config with ⟨-, hsame⟩ | ⟨hawaits, v', _, hnew, hv⟩
    · rw [hsame] at hcredit
      cases hcredit
      exact .of_upload [.complete job.response] rfl (by simp [Call.isReboot]) rfl (by simp)
    · rw [hnew] at hcredit
      cases hcredit
      simp only [Upload.awaits, Bool.and_eq_true, bne_iff_ne, beq_iff_eq] at hawaits
      obtain ⟨⟨hn, -⟩, hok⟩ := hawaits
      have hrequest := hv.isSome_request hs hn
      cases hasked : request with
      | none =>
        subst hasked
        refine .quiet [.complete job.response] rfl (by simp [Call.isReboot]) ?_ ?_ (by simp)
        · intro hcompletes
          exact absurd (hrequest.mpr hcompletes) (by decide)
        · intro hcomplete
          exact (hv.complete hs hn hcomplete).resolve_right (by decide)
      | some request =>
        subst hasked
        exact .fires request hphase hok rfl (hrequest.mp rfl) (by simp) rfl
  | _ => exact .of_upload [] rfl (by simp) rfl id

/-! ### When a reboot is due -/

/-- What a device does when a reboot is due: it carries nothing out, and calls
    only to tell the host, unless a job was done before. -/
structure Device.Refuses (d d' : Device (Logged σ)) (es : Journal) : Prop where
  rebooting : d'.core.rebooting = true
  lastWriter : d'.lastWriter = d.lastWriter
  refused : ∀ job, .carriedOut job ∈ es →
    job.result = some .rebooting ∨ job.result = some .disabled
  done : ∀ job, d'.phase = .done job → job.result = some .ok → d.phase = .done job
  calls : ∃ new, d'.machine.calls = new ++ d.machine.calls ∧ ∀ call ∈ new,
    call.isComplete = true
      ∨ call.isReboot = true ∧ ∃ job, d.phase = .done job ∧ job.result = some .ok

theorem Device.Refuses.refl (h : d.core.rebooting = true) : d.Refuses d [] :=
  ⟨h, rfl, by simp, fun _ hphase _ => hphase, [], rfl, by simp⟩

theorem Device.Refuses.trans {d'' : Device (Logged σ)} (h : d.Refuses d' es)
    (h' : d'.Refuses d'' es') : d.Refuses d'' (es' ++ es) := by
  obtain ⟨new, hnew, hcalls⟩ := h.calls
  obtain ⟨new', hnew', hcalls'⟩ := h'.calls
  refine ⟨h'.rebooting, h'.lastWriter.trans h.lastWriter, ?_, ?_, new' ++ new, ?_, ?_⟩
  · intro job hmem
    rcases List.mem_append.mp hmem with hmem | hmem
    · exact h'.refused job hmem
    · exact h.refused job hmem
  · intro job hphase hok
    exact h.done job (h'.done job hphase hok) hok
  · rw [hnew', hnew, List.append_assoc]
  · intro call hmem
    rcases List.mem_append.mp hmem with hmem | hmem
    · refine (hcalls' call hmem).imp_right ?_
      rintro ⟨hreboot, job, hphase, hok⟩
      exact ⟨hreboot, job, h.done job hphase hok, hok⟩
    · exact hcalls call hmem

/-- A step that makes no call and finishes no job refuses everything. -/
theorem Device.Refuses.of_same (hes : ∀ job, .carriedOut job ∉ es)
    (hdue : d'.core.rebooting = true) (hwriter : d'.lastWriter = d.lastWriter)
    (hphase : ∀ job, d'.phase = .done job → d.phase = .done job)
    (hmachine : d'.machine = d.machine) : d.Refuses d' es :=
  ⟨hdue, hwriter, fun job hmem => absurd hmem (hes job), fun job h _ => hphase job h, [],
    by rw [hmachine]; rfl, by simp⟩

theorem Device.Step.refuses [Machine σ] (h : d.Step es d') (hdue : d.core.rebooting = true) :
    d.Refuses d' es := by
  cases h with
  | nothing => exact .refl hdue
  | block _ hcases =>
    exact .of_same (fun _ => Upload.carriedOut_not_mem_entries) hdue rfl
      (fun _ hphase => hphase) rfl
  | resetDisk => exact .of_same (by simp) hdue rfl (fun _ hphase => hphase) rfl
  | setMode => exact .of_same (by simp) hdue rfl (fun _ hphase => hphase) rfl
  | latch => exact .of_same (by simp) rfl rfl (fun _ hphase => hphase) rfl
  | command => exact .of_same (by simp) hdue rfl (fun _ hphase => hphase) rfl
  | @take origin => cases origin <;> exact .of_same (by simp) hdue rfl (by simp) rfl
  | keptOut =>
    refine ⟨hdue, rfl, by simp, ?_, [], rfl, by simp⟩
    intro job hphase hok
    cases hphase
    cases hok
  | @carriedOut origin job =>
    rw [d.execute_of_rebooting job hdue]
    refine ⟨hdue, rfl, by simp, ?_, [], rfl, by simp⟩
    intro job hphase hok
    cases hphase
    cases hok
  | @told job =>
    refine ⟨hdue, rfl, by simp, by simp, ?_⟩
    by_cases hhost : job.listener = some .host
    · exact ⟨[.complete job.response], by simp [hhost], by simp [Call.isComplete]⟩
    · exact ⟨[], by simp [hhost], by simp⟩
  | @credited job v request hphase _ hcredit =>
    refine ⟨by simp [hdue], rfl, by simp, by simp, ?_⟩
    cases request with
    | none => exact ⟨[.complete job.response], rfl, by simp [Call.isComplete]⟩
    | some request =>
      -- Only a job that ended well is credited with a reboot.
      cases hawaits : d.core.upload.awaits job with
      | false =>
        rw [Upload.credit_of_not_awaits _ hawaits] at hcredit
        cases hcredit
      | true =>
        simp only [Upload.awaits, Bool.and_eq_true, beq_iff_eq] at hawaits
        exact ⟨[.complete job.response, .reboot request], rfl,
          by simp [Call.isComplete, Call.isReboot, hphase, hawaits.2]⟩

end firing

/-! ### Whole runs -/

/-- What is known of a device at any time of its reboot. -/
structure Device.Latched {σ : Type} (d : Device (Logged σ)) : Prop where
  sound : d.core.upload.Sound
  complete : d.core.upload.progress = .complete → d.core.rebooting = true
  once : d.machine.calls.countP Call.isReboot ≤ 1
  /-- After the machine was asked, no job is credited any more. -/
  spent : d.machine.calls.countP Call.isReboot ≠ 0 →
    d.core.rebooting = true ∧ ∀ job, d.phase = .done job → job.result ≠ some .ok

namespace Device

variable {σ : Type} [Machine σ]

theorem Latched.step {d d' : Device (Logged σ)} {es : Journal} (hd : d.Latched)
    (h : d.Step es d') : d'.Latched := by
  have hsound := h.sound hd.sound
  cases h.fires hd.sound with
  | quiet new hcalls hquiet _ hcomplete hdue =>
    have hcount : d'.machine.calls.countP Call.isReboot
        = d.machine.calls.countP Call.isReboot := by
      rw [hcalls, List.countP_append, List.countP_eq_zero.mpr fun call hmem => by
        simp [hquiet call hmem], Nat.zero_add]
    refine ⟨hsound, fun hv => hdue (hd.complete (hcomplete hv)), by rw [hcount]; exact hd.once, ?_⟩
    rw [hcount]
    intro hasked
    obtain ⟨hrebooting, hnone⟩ := hd.spent hasked
    refine ⟨hdue hrebooting, fun job hphase hok => ?_⟩
    exact hnone job ((h.refuses hrebooting).done job hphase hok) hok
  | @fires job request hphase hok hcalls _ hdue hidle =>
    -- A job that ended well is told of, so the machine was not asked before.
    have hzero : d.machine.calls.countP Call.isReboot = 0 := by
      by_contra hasked
      exact (hd.spent hasked).2 job hphase hok
    refine ⟨hsound, fun _ => hdue, ?_, fun _ => ⟨hdue, fun job hphase' => ?_⟩⟩
    · rw [hcalls]
      simp [List.countP_cons, Call.isReboot, hzero]
    · rw [hidle] at hphase'
      cases hphase'

/-- When a reboot is due, a job that the worker holds is refused, and the device
    is left as it was. -/
theorem carryOut_of_rebooting {d : Device σ} (hdue : d.core.rebooting = true) {origin : Channel}
    {job : Job} (hphase : d.phase = .holding origin job) :
    d.carryOut = { d with phase := .done { job with
      result := some (if (d.core.slot origin).isFenced then .disabled else .rebooting) } } := by
  cases hfence : (d.core.slot origin).isFenced with
  | true =>
    rw [carryOut_of_fenced hphase hfence]
    rfl
  | false =>
    rw [carryOut_of_open hphase hfence, doneJob, d.execute_of_rebooting job hdue]
    rfl

/-- Those who wait for a job that did not end well are told, and that is all. -/
theorem finish_of_not_ok {d : Device σ} {job : Job} (hphase : d.phase = .done job)
    (hok : job.result ≠ some .ok) :
    d.finish = .ok { d with
      phase := .idle
      machine := if job.listener.isSome
        then Machine.perform d.machine (.complete job.response) else d.machine } := by
  have hcredit : d.core.upload.credit job d.core.config = .ok (d.core.upload, none) :=
    Upload.credit_of_not_awaits _ (by simp [Upload.awaits, hok])
  cases hlistener : job.listener with
  | none => exact finish_of_unheard hphase hlistener
  | some listener =>
    cases listener with
    | host => exact finish_of_host hphase hlistener
    | upload =>
      rw [finish_of_credit hphase hlistener hcredit, Option.isSome_none, Bool.or_false]
      rfl

end Device

namespace Watched

variable {σ : Type} [Machine σ]

/-- From a device for which a reboot is due, every run comes to an end and all
    that it does is to refuse. -/
theorem run_refuses {w : Watched (Logged σ)} (hs : w.device.core.upload.Sound)
    (hdue : w.device.core.rebooting = true) (later : List Move) :
    ∃ w' since, w.run later = .ok w' ∧ w'.journal = since ++ w.journal
      ∧ w.device.Refuses w'.device since := by
  obtain ⟨w', hrun, -, since, hjournal, hrefuses⟩ := run_ok
    (P := fun v : Watched (Logged σ) => v.device.core.upload.Sound ∧ ∃ since,
      v.journal = since ++ w.journal ∧ w.device.Refuses v.device since)
    later ⟨hs, [], rfl, .refl hdue⟩ (by
      rintro m - v ⟨hv, since, hjournal, hrefuses⟩
      obtain ⟨d, hstep, hd⟩ := v.step_ok hv m
      exact ⟨_, hstep, hd.sound hv, v.device.entries m ++ since,
        by rw [List.append_assoc, ← hjournal], hrefuses.trans (hd.refuses hrefuses.rebooting)⟩)
  exact ⟨w', since, hrun, hjournal, hrefuses⟩

/-- A new device has not asked for a reboot, and every run keeps what is known of
    the reboot. -/
theorem run_latched (config : Config) (ramBlocks flashBlocks erasedSectors : IndexSet)
    (machine : σ) (moves : List Move) :
    ∃ w, (fresh config ramBlocks flashBlocks erasedSectors (Logged.new machine)).run moves = .ok w
      ∧ w.device.Latched := by
  have hfresh : (fresh config ramBlocks flashBlocks erasedSectors
      (Logged.new machine)).device.Latched := by
    refine ⟨Upload.sound_onSets ramBlocks flashBlocks erasedSectors, ?_, Nat.zero_le 1, ?_⟩
    · intro hcomplete
      cases hcomplete
    · intro hasked
      exact absurd rfl hasked
  refine run_ok (P := fun w => w.device.Latched) moves hfresh fun m _ v hv => ?_
  obtain ⟨d, hstep, hd⟩ := v.step_ok hv.sound m
  exact ⟨_, hstep, hv.step hd⟩

/-- In every run of a new device the machine is asked for a reboot once at most,
    and exactly when a job is told of that makes the last missing block valid. An
    upload is complete only if the reboot is due. Once it is due it stays so: a job
    that is picked up later is refused, leaves the device as it was, and makes no
    call but the one that tells the host. -/
theorem reboots_once (config : Config) (ramBlocks flashBlocks erasedSectors : IndexSet)
    (machine : σ) (moves : List Move) :
    ∃ w, (fresh config ramBlocks flashBlocks erasedSectors (Logged.new machine)).run moves = .ok w
      ∧ w.device.machine.calls.countP Call.isReboot ≤ 1
      ∧ (w.device.core.upload.status.progress = .complete → w.device.core.rebooting = true)
      ∧ (∀ m, ∃ w' new, w.step m = .ok w'
        ∧ w'.device.machine.calls = new ++ w.device.machine.calls
        ∧ ((∃ request, .reboot request ∈ new) ↔
          w.device.core.upload.Completes w'.device.core.upload
            ∧ ∃ job, w.device.phase = .done job ∧ w'.journal = .told job :: w.journal))
      ∧ (w.device.core.rebooting = true →
        (∀ origin job, w.device.phase = .holding origin job →
          w.device.carryOut = { w.device with phase := .done { job with
            result := some
              (if (w.device.core.slot origin).isFenced then .disabled else .rebooting) } })
        ∧ (∀ job, w.device.phase = .done job → job.result ≠ some .ok →
          w.device.finish = .ok { w.device with
            phase := .idle
            machine := if job.listener.isSome
              then Machine.perform w.device.machine (.complete job.response)
              else w.device.machine })
        ∧ ∀ later, ∃ w' since, w.run later = .ok w' ∧ w'.journal = since ++ w.journal
          ∧ w.device.Refuses w'.device since) := by
  obtain ⟨w, hrun, hw⟩ := run_latched config ramBlocks flashBlocks erasedSectors machine moves
  refine ⟨w, hrun, hw.once, hw.complete, ?_, ?_⟩
  · intro m
    obtain ⟨d, hstep, hd⟩ := w.step_ok hw.sound m
    generalize w.device.entries m = es at hstep hd
    cases hd.fires hw.sound with
    | quiet new hcalls hquiet hnot =>
      refine ⟨_, new, hstep, hcalls, ?_, fun h => absurd h.1 hnot⟩
      rintro ⟨request, hmem⟩
      cases hquiet _ hmem
    | @fires job request hphase hok hcalls hcompletes =>
      exact ⟨_, [.complete job.response, .reboot request], hstep, hcalls,
        fun _ => ⟨hcompletes, job, hphase, rfl⟩, fun _ => ⟨request, by simp⟩⟩
  · intro hdue
    exact ⟨fun _ _ hphase => Device.carryOut_of_rebooting hdue hphase,
      fun _ hphase hok => Device.finish_of_not_ok hphase hok, run_refuses hw.sound hdue⟩

end Watched

end Reflash
