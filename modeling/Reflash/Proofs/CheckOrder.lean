import Reflash.Proofs.CallBounds
/-! # All checks come first

  A job may ask for anything: several effects at once, ranges that lie nowhere, more bytes
  than it has. It is looked at as a whole before the first byte moves. There are seven
  checks, always made in the same order, and a job ends with the status of the first one
  that it fails. A job that fails one moves nothing, not even what passed its own checks,
  and comes back as it was.

  `Job.Fails` says of each check what it is to fail it, without regard to the others.
  `plan_eq` gives the whole plan of a job in these terms, and all else is read off it.
-/

namespace Reflash

/-! ### What a call does to memory -/

namespace Call

/-- What a call erases. -/
def erased? : Call → Option EraseRange
  | .updateFlash update => update.erase
  | _ => none

/-- The bytes that a call writes, and where to. -/
def written? : Call → Option (UInt32 × Bytes)
  | .writeRam addr bytes => some (addr, bytes)
  | .updateFlash update => update.program
  | _ => none

/-- Where a call reads from, and how much. -/
def loaded? : Call → Option (UInt32 × UInt32)
  | .read addr len => some (addr, len)
  | _ => none

end Call

namespace Job

/-! ### The checks -/

/-- What a job is checked for. -/
inductive Check where
  /-- No reboot is due. -/
  | reboot
  /-- The other party did not write last, if the job is guarded against that. -/
  | interleave
  /-- What is to be erased lies in flash, and flash may be touched. -/
  | erasePlace
  /-- What is to be erased is whole sectors. -/
  | eraseShape
  /-- The bytes of the job are no more than a page. -/
  | length
  /-- The bytes have a place in memory. -/
  | place
  /-- What is to be programmed is whole pages. -/
  | wholePages
deriving DecidableEq

namespace Check

/-- The checks of the ranges of a job, in the order in which they are made. -/
def ofRanges : List Check := [.erasePlace, .eraseShape, .length, .place, .wholePages]

/-- All checks, in the order in which they are made. -/
def inOrder : List Check := .reboot :: .interleave :: ofRanges

/-- How a job ends that fails a check. -/
def status : Check → Status
  | .reboot => .rebooting
  | .interleave => .interleavedWrite
  | .erasePlace | .place => .invalidAddress
  | .eraseShape | .wholePages => .badAlignment
  | .length => .invalidTransferLength

theorem status_ne_ok (c : Check) : c.status ≠ .ok := by cases c <;> exact nofun

end Check

/-- Whether a job fails a check. -/
def Fails (job : Job) (map : AddressMap) (rebooting : Bool) (lastWriter : Option Channel) :
    Check → Prop
  | .reboot => rebooting = true
  | .interleave => job.isMutation = true ∧ job.guarded = true ∧ ∃ writer ∈ lastWriter,
      writer ≠ job.source
  | .erasePlace => ∃ range ∈ job.erase,
      ¬ (job.exitXip = true ∧ map.HasIn .flash range.addr range.len.toNat)
  | .eraseShape => ∃ range ∈ job.erase, ¬ (0 < range.len.toNat
      ∧ range.addr.toNat % 4096 = 0 ∧ range.len.toNat % 4096 = 0)
  | .length => job.transfer.isSome = true ∧ 256 < job.length.toNat
  | .place => job.transfer = some .write ∧ ¬ map.HasIn .ram job.addr job.length.toNat
        ∧ ¬ (job.exitXip = true ∧ map.HasIn .flash job.addr job.length.toNat)
      ∨ job.transfer = some .read ∧ ¬ map.Has job.addr job.length.toNat
  | .wholePages => job.transfer = some .write ∧ ¬ map.HasIn .ram job.addr job.length.toNat
      ∧ ¬ (job.addr.toNat % 256 = 0 ∧ job.length.toNat % 256 = 0)

instance (job : Job) (map : AddressMap) (rebooting : Bool) (lastWriter : Option Channel) :
    DecidablePred (job.Fails map rebooting lastWriter)
  | .reboot => inferInstanceAs (Decidable (_ = _))
  | .interleave => inferInstanceAs (Decidable (_ ∧ _ ∧ ∃ writer ∈ lastWriter, _))
  | .erasePlace => inferInstanceAs (Decidable (∃ range ∈ job.erase, _))
  | .eraseShape => inferInstanceAs (Decidable (∃ range ∈ job.erase, _))
  | .length => inferInstanceAs (Decidable (_ ∧ _))
  | .place => inferInstanceAs (Decidable (_ ∨ _))
  | .wholePages => inferInstanceAs (Decidable (_ ∧ _))

/-- The first check that a job fails. -/
def firstFailed (job : Job) (map : AddressMap) (rebooting : Bool) (lastWriter : Option Channel) :
    Option Check :=
  Check.inOrder.find? fun c => job.Fails map rebooting lastWriter c

/-! ### What the checks come to -/

section checks

variable {job : Job} {map : AddressMap} {rebooting : Bool} {lastWriter : Option Channel}

/-- A job is refused by the guard if it fails that check. -/
theorem isRefused_iff :
    job.isRefused lastWriter = true ↔ job.Fails map rebooting lastWriter .interleave := by
  simp only [isRefused, Fails, Bool.and_eq_true, Option.any_eq_true, bne_iff_ne, and_assoc,
    Option.mem_def]

/-- What is to be erased is checked for its place and then for its shape. -/
theorem mapM_checkErase (job : Job) (map : AddressMap) (rebooting : Bool)
    (lastWriter : Option Channel) :
    job.erase.mapM (checkErase map job.exitXip) =
      if job.Fails map rebooting lastWriter .erasePlace then .error .invalidAddress
      else if job.Fails map rebooting lastWriter .eraseShape then .error .badAlignment
      else .ok job.erase := by
  cases herase : job.erase with
  | none =>
    have hplace : ¬ job.Fails map rebooting lastWriter .erasePlace := by simp [Fails, herase]
    have hshape : ¬ job.Fails map rebooting lastWriter .eraseShape := by simp [Fails, herase]
    rw [if_neg hplace, if_neg hshape]
    rfl
  | some range =>
    have hplace : job.Fails map rebooting lastWriter .erasePlace
        ↔ ¬ (job.exitXip = true ∧ map.HasIn .flash range.addr range.len.toNat) := by
      simp [Fails, herase]
    have hshape : job.Fails map rebooting lastWriter .eraseShape
        ↔ ¬ (0 < range.len.toNat ∧ range.addr.toNat % 4096 = 0
          ∧ range.len.toNat % 4096 = 0) := by
      simp [Fails, herase]
    simp only [Option.mapM_some, checkErase_eq, hplace, hshape]
    split
    · rfl
    · split <;> rfl

/-- Where the bytes of a job go if it fails no check. RAM comes before flash. -/
def goal (job : Job) (map : AddressMap) : Target :=
  match job.transfer with
  | none => .nowhere
  | some .read => .page
  | some .write => if map.HasIn .ram job.addr job.length.toNat then .ram else .flash

/-- The bytes of a job are checked for their number, their place and their shape. -/
theorem target_eq (job : Job) (map : AddressMap) (rebooting : Bool)
    (lastWriter : Option Channel) :
    job.target map =
      if job.Fails map rebooting lastWriter .length then .error .invalidTransferLength
      else if job.Fails map rebooting lastWriter .place then .error .invalidAddress
      else if job.Fails map rebooting lastWriter .wholePages then .error .badAlignment
      else .ok (job.goal map) := by
  cases htransfer : job.transfer with
  | none => simp [target, Fails, goal, htransfer]
  | some direction =>
    -- The number of bytes is looked at first, whichever way they move.
    by_cases hroom : job.length.toNat ≤ 256
    · have hshort : ¬ job.Fails map rebooting lastWriter .length :=
        fun hlong => Nat.not_lt.mpr hroom hlong.2
      rw [if_neg hshort]
      cases direction with
      | read =>
        rw [target_of_read htransfer hroom]
        simp only [Fails, goal, htransfer]
        by_cases hplace : map.Has job.addr job.length.toNat <;> simp [hplace]
      | write =>
        rw [target_of_write htransfer hroom]
        simp only [Fails, goal, htransfer]
        -- RAM takes any bytes, so that nothing else counts for bytes that lie there.
        by_cases hram : map.HasIn .ram job.addr job.length.toNat
        · simp [hram]
        · by_cases hflash : job.exitXip = true ∧ map.HasIn .flash job.addr job.length.toNat
          · by_cases hshape : job.addr.toNat % 256 = 0 ∧ job.length.toNat % 256 = 0 <;>
              simp [hram, hflash, hshape]
          · simp [hram, hflash]
    · have hlong : job.Fails map rebooting lastWriter .length :=
        ⟨by rw [htransfer]; rfl, Nat.not_le.mp hroom⟩
      have hlt : 256 < job.length := UInt32.lt_iff_toNat_lt.mpr (Nat.not_le.mp hroom)
      rw [if_pos hlong]
      simp only [target, htransfer, if_pos hlt]

/-- Looking for the first check that is failed is looking at the first one and then at the
    others. -/
theorem elim_find?_cons {α : Type} (fails : Check → Bool) (c : Check) (cs : List Check) (x : α)
    (f : Check → α) :
    ((c :: cs).find? fails).elim x f = if fails c then f c else (cs.find? fails).elim x f := by
  rw [List.find?_cons]
  cases fails c <;> rfl

theorem bind_ite_error {α β : Type} {p : Prop} [Decidable p] (status : Status)
    (x : Except Status α) (f : α → Except Status β) :
    ((if p then .error status else x) >>= f) = if p then .error status else x >>= f := by
  split <;> rfl

/-- The ranges of a job are found unfit by the first of their checks that it fails. If it
    fails none, its bytes move as it says. -/
theorem checkedMoves_eq (job : Job) (map : AddressMap) (rebooting : Bool)
    (lastWriter : Option Channel) :
    job.checkedMoves map =
      (Check.ofRanges.find? fun c => job.Fails map rebooting lastWriter c).elim
        (.ok (job.moves job.erase (job.goal map))) fun c => .error c.status := by
  simp only [checkedMoves, mapM_checkErase job map rebooting lastWriter,
    target_eq job map rebooting lastWriter, Check.ofRanges, elim_find?_cons, bind_ite_error,
    decide_eq_true_eq]
  rfl

/-- The plan of a job in terms of its checks. A job ends with the status of the first one
    that it fails. Unless a reboot is due, the opening calls are made and the mode changes in
    any case, but no byte moves if a check is failed. A mutation that the guard lets through
    is remembered, whatever becomes of its ranges. -/
theorem plan_eq (job : Job) (map : AddressMap) (rebooting : Bool) (lastWriter : Option Channel) :
    job.plan map rebooting lastWriter =
      { status := (job.firstFailed map rebooting lastWriter).elim .ok Check.status
        calls := if rebooting then [] else job.openingCalls
          ++ (job.firstFailed map rebooting lastWriter).elim
            (job.moves job.erase (job.goal map)) fun _ => []
        access := if rebooting then none else job.access
        lastWriter := if job.isMutation = true ∧ ¬ job.Fails map rebooting lastWriter .reboot
            ∧ ¬ job.Fails map rebooting lastWriter .interleave
          then some job.source else lastWriter } := by
  simp only [firstFailed, Check.inOrder, elim_find?_cons, decide_eq_true_eq]
  cases rebooting with
  | true =>
    have hdue : job.Fails map true lastWriter .reboot := rfl
    simp [plan, hdue, Check.status]
  | false =>
    have hawake : ¬ job.Fails map false lastWriter .reboot := Bool.false_ne_true
    by_cases hrefused : job.Fails map false lastWriter .interleave
    · have hclosed : job.isRefused lastWriter = true := isRefused_iff.mpr hrefused
      simp [plan, hawake, hrefused, hclosed, Check.status]
    · have hopen : job.isRefused lastWriter = false :=
        Bool.eq_false_iff.mpr (isRefused_iff.not.mpr hrefused)
      simp only [plan, hopen, checkedMoves_eq job map false lastWriter]
      -- What is left are the checks of the ranges.
      cases Check.ofRanges.find? fun c => job.Fails map false lastWriter c with
      | none => simp [hawake, hrefused]
      | some c => simp [hawake, hrefused]

/-- A job ends well if it fails no check, and only then. -/
theorem status_plan_eq_ok :
    (job.plan map rebooting lastWriter).status = .ok
      ↔ job.firstFailed map rebooting lastWriter = none := by
  rw [plan_eq]
  cases job.firstFailed map rebooting lastWriter with
  | none => simp
  | some c => simp [c.status_ne_ok]

/-- A job that fails no check makes all its calls. -/
theorem calls_plan_of_ok (h : (job.plan map rebooting lastWriter).status = .ok) :
    (job.plan map rebooting lastWriter).calls =
      job.openingCalls ++ job.moves job.erase (job.goal map) := by
  have hnone := status_plan_eq_ok.mp h
  have hawake : ¬ rebooting = true := by
    intro hdue
    have hpassed := List.find?_eq_none.mp hnone .reboot (List.mem_cons_self ..)
    exact hpassed (decide_eq_true hdue)
  rw [plan_eq, hnone]
  exact if_neg hawake

/-- A job that fails a check makes the opening calls at most. -/
theorem calls_plan_of_failed (h : (job.plan map rebooting lastWriter).status ≠ .ok) :
    (job.plan map rebooting lastWriter).calls.Sublist job.openingCalls := by
  rw [ne_eq, status_plan_eq_ok, ← ne_eq, Option.ne_none_iff_exists'] at h
  obtain ⟨c, hfailed⟩ := h
  rw [plan_eq, hfailed]
  cases rebooting with
  | true => exact List.nil_sublist _
  | false => exact (List.append_nil _).symm ▸ List.Sublist.refl _

end checks

/-! ### The calls of a job -/

/-- What a job asks for is done once: all that it erases, writes and reads, and nothing
    besides. -/
structure DoneOnce (job : Job) (calls : List Call) : Prop where
  erased : calls.filterMap Call.erased? = job.erase.toList
  written : calls.filterMap Call.written? =
    if job.transfer = some .write then [(job.addr, job.payload)] else []
  loaded : calls.filterMap Call.loaded? =
    if job.transfer = some .read then [(job.addr, job.length)] else []

section calls

variable (job : Job) (map : AddressMap)

/-- The volume is ejected before code is called. -/
theorem openingCalls_sublist : job.openingCalls.Sublist [.eject, .exec (job.addr ||| 1)] := by
  unfold openingCalls
  split <;> split <;> simp

/-- Flash is updated once at most, and before any bytes move that flash has no part in. -/
theorem moves_sublist (erase : Option EraseRange) (target : Target) :
    ∃ update move, (move = .writeRam job.addr job.payload ∨ move = .read job.addr job.length)
      ∧ (job.moves erase target).Sublist [.updateFlash update, move] := by
  refine ⟨⟨erase, if target = .flash then some (job.addr, job.payload) else none⟩,
    if target = .page then .read job.addr job.length else .writeRam job.addr job.payload,
    by split <;> simp, ?_⟩
  cases target <;> cases erase <;> simp [moves]

/-- The opening calls have nothing to do with memory. -/
theorem filterMap_openingCalls {α : Type} {f : Call → Option α} (heject : f .eject = none)
    (hexec : ∀ entry, f (.exec entry) = none) : job.openingCalls.filterMap f = [] := by
  rw [List.filterMap_eq_nil_iff]
  intro call hcall
  rcases openingCalls_cases hcall with rfl | ⟨entry, rfl⟩
  · exact heject
  · exact hexec entry

theorem erased_moves (erase : Option EraseRange) (target : Target) :
    (job.moves erase target).filterMap Call.erased? = erase.toList := by
  cases target <;> cases erase <;> rfl

/-- Bytes are written in one call, whether they go to RAM or to flash. -/
theorem written_moves (erase : Option EraseRange) (target : Target) :
    (job.moves erase target).filterMap Call.written? =
      if target = .ram ∨ target = .flash then [(job.addr, job.payload)] else [] := by
  cases target <;> cases erase <;> rfl

theorem loaded_moves (erase : Option EraseRange) (target : Target) :
    (job.moves erase target).filterMap Call.loaded? =
      if target = .page then [(job.addr, job.length)] else [] := by
  cases target <;> cases erase <;> rfl

/-- Where the bytes of a job go is settled by which way they move. -/
theorem goal_cases :
    job.transfer = none ∧ job.goal map = .nowhere
    ∨ job.transfer = some .read ∧ job.goal map = .page
    ∨ job.transfer = some .write ∧ (job.goal map = .ram ∨ job.goal map = .flash) := by
  unfold goal
  cases job.transfer with
  | none => exact .inl ⟨rfl, rfl⟩
  | some direction =>
    cases direction with
    | read => exact .inr (.inl ⟨rfl, rfl⟩)
    | write => exact .inr (.inr ⟨rfl, ite_eq_or_eq _ _ _⟩)

theorem goal_writes : job.goal map = .ram ∨ job.goal map = .flash ↔ job.transfer = some .write := by
  rcases job.goal_cases map with ⟨hmove, hgoal⟩ | ⟨hmove, hgoal⟩ | ⟨hmove, hgoal⟩
  · simp [hmove, hgoal]
  · simp [hmove, hgoal]
  · simp [hmove, hgoal]

theorem goal_reads : job.goal map = .page ↔ job.transfer = some .read := by
  rcases job.goal_cases map with ⟨hmove, hgoal⟩ | ⟨hmove, hgoal⟩ | ⟨hmove, hgoal | hgoal⟩
  · simp [hmove, hgoal]
  · simp [hmove, hgoal]
  · simp [hmove, hgoal]
  · simp [hmove, hgoal]

/-- The calls of a job that fails no check do once what it asks for. -/
theorem doneOnce : job.DoneOnce (job.openingCalls ++ job.moves job.erase (job.goal map)) := by
  constructor
  · rw [List.filterMap_append, filterMap_openingCalls job rfl fun _ => rfl, erased_moves]
    rfl
  · rw [List.filterMap_append, filterMap_openingCalls job rfl fun _ => rfl, written_moves,
      List.nil_append]
    exact if_congr (job.goal_writes map) rfl rfl
  · rw [List.filterMap_append, filterMap_openingCalls job rfl fun _ => rfl, loaded_moves,
      List.nil_append]
    exact if_congr (job.goal_reads map) rfl rfl

/-- The calls of a plan come in the order of the worker, whether all of them are made or
    only the first ones. -/
theorem plan_calls_sublist (rebooting : Bool) (lastWriter : Option Channel) :
    ∃ update move, (move = .writeRam job.addr job.payload ∨ move = .read job.addr job.length)
      ∧ (job.plan map rebooting lastWriter).calls.Sublist
        [.eject, .exec (job.addr ||| 1), .updateFlash update, move] := by
  obtain ⟨update, move, hmove, hmoves⟩ := job.moves_sublist job.erase (job.goal map)
  refine ⟨update, move, hmove, ?_⟩
  by_cases hok : (job.plan map rebooting lastWriter).status = .ok
  · rw [calls_plan_of_ok hok]
    exact job.openingCalls_sublist.append hmoves
  · have hopening := (calls_plan_of_failed hok).trans job.openingCalls_sublist
    exact hopening.trans (List.sublist_append_left _ [.updateFlash update, move])

end calls

/-! ### The job as it comes back -/

section comesBack

variable {σ : Type} [Machine σ] (job : Job) {plan : Plan} (after : σ)

/-- A job that reads comes back with what it read. -/
theorem carriedOut_of_ok (h : plan.status = .ok) :
    job.carriedOut plan after = if job.transfer = some .read then
      { job with data := overlay job.data (Machine.load after job.addr job.length) } else job := by
  have hreads : plan.reads job = true ↔ job.transfer = some .read := by
    simp only [Plan.reads, h, decide_true, Bool.true_and, decide_eq_true_eq]
  exact if_congr hreads rfl rfl

/-- A job that failed comes back as it was, even if it was to read. -/
theorem carriedOut_of_failed (h : plan.status ≠ .ok) : job.carriedOut plan after = job := by
  have hreads : ¬ plan.reads job = true := by
    simp only [Plan.reads, h, decide_false, Bool.false_and, Bool.false_eq_true, not_false_iff]
  exact if_neg hreads

end comesBack

end Job

/-! ### Carrying a job out -/

/-- A job is checked as a whole before anything in memory is touched. Whatever the state of
    the device and whatever the job, it ends with the status of the first check that it
    fails. The calls come in one order: the ejection, the call of the code, one update of
    flash, and then what goes to RAM or is read. If all checks are passed, what the job asks
    for is done once. If one is failed, no memory is touched, and the job comes back as it
    was. -/
theorem Device.execute_checks_first {σ : Type} [Machine σ] (d : Device (Logged σ)) (job : Job) :
    ∃ calls, (d.execute job).1.machine.calls = calls.reverse ++ d.machine.calls
      ∧ (d.execute job).1.machine.machine = Machine.performAll d.machine.machine calls
      ∧ (d.execute job).2.2 =
        (job.firstFailed d.core.config.map d.core.rebooting d.lastWriter).elim .ok
          Job.Check.status
      ∧ (∃ update move, (move = .writeRam job.addr job.payload ∨ move = .read job.addr job.length)
        ∧ calls.Sublist [.eject, .exec (job.addr ||| 1), .updateFlash update, move])
      ∧ ((d.execute job).2.2 = .ok → job.DoneOnce calls
        ∧ (d.execute job).2.1 =
          if job.transfer = some .read then
            { job with data :=
                Job.overlay job.data (Machine.load (d.execute job).1.machine job.addr job.length) }
          else job)
      ∧ ((d.execute job).2.2 ≠ .ok →
        (∀ call ∈ calls, call = .eject ∨ call = .exec (job.addr ||| 1))
        ∧ (d.execute job).2.1 = job) := by
  have hcalls := Logged.calls_performAll d.machine
    (job.plan d.core.config.map d.core.rebooting d.lastWriter).calls
  have hmachine := Logged.machine_performAll d.machine
    (job.plan d.core.config.map d.core.rebooting d.lastWriter).calls
  refine ⟨_, hcalls, hmachine, ?_, ?_, ?_, ?_⟩
  · exact congrArg Job.Plan.status (job.plan_eq _ _ _)
  · exact job.plan_calls_sublist _ _ _
  · intro hok
    have honce := job.doneOnce d.core.config.map
    rw [← Job.calls_plan_of_ok hok] at honce
    exact ⟨honce, job.carriedOut_of_ok _ hok⟩
  · intro hfailed
    refine ⟨fun call hcall => ?_, job.carriedOut_of_failed _ hfailed⟩
    -- What is left of the calls are the opening ones.
    have hopening := (Job.calls_plan_of_failed hfailed).trans job.openingCalls_sublist
    simpa using hopening.subset hcall

/-- A page of RAM is not written if what is to be erased along with it lies nowhere. -/
example :
    let job := { topJob with erase := some ⟨0, 0x1000⟩, addr := 0xFFFFF000 }
    (topDevice.execute job).1.machine.calls = []
      ∧ (topDevice.execute job).2.2 = .invalidAddress := by
  decide +kernel

end Reflash
