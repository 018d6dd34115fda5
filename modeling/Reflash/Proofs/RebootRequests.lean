import Reflash.Proofs.StartDecision
/-! # The last reboot request wins

  A reset can be asked for again before it comes, and the loader may take the application's
  note away at any time. What an earlier request has left in the registers must not show
  through a later one: `RebootTimer.last_request_wins` says that all that matters to the boot
  ROM and to the timer is what was asked for last, whatever was in the registers at first.

  One request is looked at first. Its updates turn the timer off, write what the boot ROM
  reads and turn the timer on again, so that nothing is written while it runs. What is known
  of a request is then carried along a list of `Use`s.
-/

namespace Reflash

namespace Word

/-- Setting bits that were cleared before is setting them. -/
theorem clear_or (w bits : UInt32) : w &&& ~~~bits ||| bits = w ||| bits := by
  refine UInt32.eq_of_toBitVec_eq (BitVec.eq_of_getLsbD_eq fun i hi => ?_)
  simp only [UInt32.toBitVec_or, UInt32.toBitVec_and, UInt32.toBitVec_not, BitVec.getLsbD_or,
    BitVec.getLsbD_and, BitVec.getLsbD_not, hi, decide_true, Bool.true_and]
  cases w.toBitVec.getLsbD i <;> cases bits.toBitVec.getLsbD i <;> rfl

theorem clear_and (w bits : UInt32) : w &&& ~~~bits &&& bits = 0 := by
  rw [UInt32.and_assoc, UInt32.not_and_self, UInt32.and_zero]

theorem toNat_timesCapped (a b : UInt32) :
    (timesCapped a b).toNat = min (a.toNat * b.toNat) 0xFFFFFFFF := by
  have hsize : UInt32.size = 4294967296 := rfl
  unfold timesCapped
  by_cases h : a.toNat * b.toNat < UInt32.size
  · rw [if_pos h, UInt32.toNat_mul, Nat.mod_eq_of_lt h]
    omega
  · rw [if_neg h, show (0xFFFFFFFF : UInt32).toNat = 0xFFFFFFFF from rfl]
    omega

end Word

/-- Where the boot ROM is to start, if it is not flash. -/
def RebootRequest.target (request : RebootRequest) : Option (UInt32 × UInt32) :=
  if request.entry = 0 then none else some (request.entry ||| 1, request.stack)

namespace RebootTimer

variable {t : RebootTimer} {r : TimerRegister} {request : RebootRequest} {u : Update}

/-! ### The updates of one request -/

theorem get_update (t : RebootTimer) (u : Update) (r : TimerRegister) :
    (t.update u).get r = if r = u.register then u.value (t.get u.register) else t.get r :=
  get_set t u.register r _

/-- Updates leave alone the registers that none of them is about. -/
theorem get_foldl_update {us : List Update} (h : ∀ u ∈ us, u.register ≠ r) :
    (us.foldl update t).get r = t.get r := by
  induction us generalizing t with
  | nil => rfl
  | cons u us ih =>
    rw [List.foldl_cons, ih fun v hv => h v (List.mem_cons_of_mem _ hv), get_update,
      if_neg (Ne.symm (h u List.mem_cons_self))]

/-- The timer is turned off. -/
def turnOff : Update := ⟨.control, fun w => w &&& ~~~enable⟩

/-- The timer is turned on. -/
def turnOn : Update := ⟨.control, fun w => w ||| enable⟩

/-- The updates in between. -/
def inner (request : RebootRequest) : List Update :=
  startUpdates request
    ++ [put .resetSelect allButOscillators, put .load (loadFor request.delayMs)]

/-- The timer is turned off first, and on last. -/
theorem updates_eq (request : RebootRequest) :
    updates request = turnOff :: (inner request ++ [turnOn]) := by
  simp [updates, inner, turnOff, turnOn]

/-- In between only the timer's load and what a reset reads are written. -/
theorem register_of_mem_inner (h : u ∈ inner request) :
    u.register = .resetSelect ∨ u.register = .load
      ∨ ∃ i : Fin 8, 4 ≤ i.val ∧ u.register = .scratch i := by
  rcases List.mem_append.mp h with h | h
  · refine .inr (.inr ?_)
    unfold startUpdates at h
    split at h
    · cases List.mem_singleton.mp h
      exact ⟨4, by decide, rfl⟩
    · simp only [List.mem_cons, List.not_mem_nil, or_false] at h
      rcases h with rfl | rfl | rfl | rfl
      · exact ⟨4, by decide, rfl⟩
      · exact ⟨5, by decide, rfl⟩
      · exact ⟨6, by decide, rfl⟩
      · exact ⟨7, by decide, rfl⟩
  · rcases List.mem_pair.mp h with rfl | rfl
    · exact .inl rfl
    · exact .inr (.inl rfl)

theorem inner_ne_control (h : u ∈ inner request) : u.register ≠ .control := by
  rcases register_of_mem_inner h with h | h | ⟨i, -, h⟩ <;>
    exact fun hcontrol => TimerRegister.noConfusion (h.symm.trans hcontrol)

/-- The first four scratch words are not the boot ROM's, and no request writes them. -/
theorem updates_ne_scratch (h : u ∈ updates request) {i : Fin 8} (hi : i.val < 4) :
    u.register ≠ .scratch i := by
  intro hscratch
  rw [updates_eq] at h
  rcases List.mem_cons.mp h with rfl | h
  · cases hscratch
  rcases List.mem_append.mp h with h | h
  · rcases register_of_mem_inner h with h | h | ⟨j, hj, h⟩ <;> cases hscratch.symm.trans h
    omega
  · cases List.mem_singleton.mp h
    cases hscratch

/-- Whenever another register than its own control is written, the timer is off. -/
theorem off_while_written (t : RebootTimer) {before later : List Update}
    (hupdates : updates request = before ++ u :: later) (hu : u.register ≠ .control) :
    (before.foldl update t).control &&& enable = 0 := by
  rw [updates_eq] at hupdates
  cases before with
  | nil =>
    obtain ⟨rfl, -⟩ := List.cons.inj hupdates
    exact absurd rfl hu
  | cons first before =>
    obtain ⟨rfl, hrest⟩ : turnOff = first ∧ inner request ++ [turnOn] = before ++ u :: later :=
      List.cons.inj hupdates
    -- `u` does not turn the timer on, so that comes later than all of `before`.
    have hbefore : ∀ v ∈ before, v.register ≠ .control := by
      intro v hv
      rcases List.eq_nil_or_concat later with rfl | ⟨later, last, rfl⟩
      · obtain ⟨-, hlast⟩ := List.append_inj' hrest rfl
        cases hlast
        exact absurd rfl hu
      · rw [List.concat_eq_append, ← List.cons_append, ← List.append_assoc] at hrest
        obtain ⟨hinner, -⟩ := List.append_inj' hrest rfl
        exact inner_ne_control (hinner ▸ List.mem_append_left _ hv)
    have hkept := get_foldl_update (t := t.update turnOff) hbefore
    exact (congrArg (· &&& enable) hkept).trans (Word.clear_and _ _)

/-- The timer counts down twice a microsecond, as far as it can. -/
theorem toNat_loadFor (delayMs : UInt32) :
    (loadFor delayMs).toNat = min (2000 * delayMs.toNat) (2 ^ 24 - 1) := by
  have hthousand : (1000 : UInt32).toNat = 1000 := rfl
  have htwo : (2 : UInt32).toNat = 2 := rfl
  have hmax : maxLoad.toNat = 2 ^ 24 - 1 := rfl
  unfold loadFor
  rw [UInt32.toNat_min, Word.toNat_timesCapped, Word.toNat_timesCapped, hthousand, htwo, hmax]
  omega

/-! ### What one request comes to -/

/-- A request turns the timer on, and leaves its other settings alone. -/
theorem control_arm (t : RebootTimer) (request : RebootRequest) :
    (t.arm request).control = t.control ||| enable := by
  have hkept := get_foldl_update (t := t.update turnOff)
    fun (u : Update) (hu : u ∈ inner request) => inner_ne_control hu
  unfold arm
  rw [updates_eq, List.foldl_cons, List.foldl_concat]
  exact (congrArg (· ||| enable) hkept).trans (Word.clear_or _ _)

theorem scratch_arm (t : RebootTimer) (request : RebootRequest) {i : Fin 8} (hi : i.val < 4) :
    (t.arm request).get (.scratch i) = t.get (.scratch i) :=
  get_foldl_update fun _ hu => updates_ne_scratch hu hi

/-- A reset is armed as it was asked for. -/
structure Armed (request : RebootRequest) (t : RebootTimer) : Prop where
  target : t.bootTarget = request.target
  load : t.load = loadFor request.delayMs
  resetSelect : t.resetSelect = allButOscillators

/-- After a request a reset is armed, whatever the registers held before. -/
theorem armed_arm (t : RebootTimer) (request : RebootRequest) : Armed request (t.arm request) := by
  have hload : (t.arm request).load = loadFor request.delayMs := by
    simp only [arm, updates, List.foldl_append, List.foldl_cons, List.foldl_nil]
    rfl
  have hselect : (t.arm request).resetSelect = allButOscillators := by
    simp only [arm, updates, List.foldl_append, List.foldl_cons, List.foldl_nil]
    rfl
  refine ⟨?_, hload, hselect⟩
  by_cases hentry : request.entry = 0
  · rw [bootTarget_arm t hentry, RebootRequest.target, if_pos hentry]
  · have hwords : (t.arm request).get (.scratch 4) = bootMagic
        ∧ (t.arm request).get (.scratch 5) = (request.entry ||| 1) ^^^ (0 - bootMagic)
        ∧ (t.arm request).get (.scratch 6) = request.stack
        ∧ (t.arm request).get (.scratch 7) = request.entry ||| 1 := by
      simp [arm, updates, startUpdates, hentry, update, put, get_set]
    obtain ⟨hmagic, hcheck, hstack, hstart⟩ := hwords
    unfold bootTarget RebootRequest.target
    rw [hmagic, hcheck, hstack, hstart, if_neg hentry]
    simp

/-! ### One request after the other -/

/-- What the loader does with the registers. -/
inductive Use where
  /-- A reset is asked for. -/
  | arm (request : RebootRequest)
  /-- The application's note is taken away. -/
  | takeNote
deriving DecidableEq

/-- The request that is made. -/
def Use.request? : Use → Option RebootRequest
  | .arm request => some request
  | .takeNote => none

/-- The registers after they were used. -/
def use (t : RebootTimer) : Use → RebootTimer
  | .arm request => t.arm request
  | .takeNote => t.takeUpdateRequest.1

/-- The registers after several uses. -/
def after (t : RebootTimer) (uses : List Use) : RebootTimer := uses.foldl use t

/-- The requests that were made, in order. -/
def requests (uses : List Use) : List RebootRequest := uses.filterMap Use.request?

variable {uses : List Use}

theorem after_concat (t : RebootTimer) (uses : List Use) (u : Use) :
    t.after (uses ++ [u]) = (t.after uses).use u := List.foldl_concat ..

theorem requests_concat (uses : List Use) (u : Use) :
    requests (uses ++ [u]) = requests uses ++ u.request?.toList := by
  cases u <;> simp [requests, Use.request?]

/-- Without the note the registers are the same, but for the word that it stood in. -/
theorem get_takeNote (t : RebootTimer) (r : TimerRegister) :
    (t.use .takeNote).get r = if r = noteRegister then 0 else t.get r := get_set t noteRegister r 0

/-- The note is none of what arms a reset. -/
theorem Armed.takeNote (h : Armed request t) : Armed request (t.use .takeNote) := by
  refine ⟨?_, h.load, h.resetSelect⟩
  rw [← h.target]
  simp [bootTarget, get_takeNote, noteRegister]

/-- The reset that is armed in the end is the one that was asked for last. -/
theorem armed_after (t : RebootTimer) (hlast : (requests uses).getLast? = some request) :
    Armed request (t.after uses) := by
  induction uses using List.reverseRecOn with
  | nil => cases hlast
  | append_singleton uses u ih =>
    rw [requests_concat] at hlast
    rw [after_concat]
    cases u with
    | arm last =>
      obtain rfl : last = request := by simpa [Use.request?] using hlast
      exact armed_arm _ last
    | takeNote => exact (ih (by simpa [Use.request?] using hlast)).takeNote

/-- Once there was a request the timer is on, and its other settings never change. -/
theorem control_after (t : RebootTimer) (uses : List Use) :
    (t.after uses).control = if requests uses = [] then t.control else t.control ||| enable := by
  induction uses using List.reverseRecOn with
  | nil => rfl
  | append_singleton uses u ih =>
    rw [after_concat, requests_concat]
    cases u with
    | arm request =>
      show ((t.after uses).arm request).control = _
      have hsome : requests uses ++ (Use.arm request).request?.toList ≠ [] :=
        List.append_ne_nil_of_right_ne_nil _ (List.cons_ne_nil _ _)
      rw [control_arm, ih, if_neg hsome]
      split
      · rfl
      · rw [UInt32.or_assoc, UInt32.or_self]
    | takeNote =>
      show (t.after uses).control = _
      rw [ih, show Use.takeNote.request?.toList = [] from rfl, List.append_nil]

/-- Of the first four scratch words only the note is lost, when it is taken away. -/
theorem scratch_after (t : RebootTimer) (uses : List Use) {i : Fin 8} (hi : i.val < 4) :
    (t.after uses).get (.scratch i)
      = if i = 0 ∧ .takeNote ∈ uses then 0 else t.get (.scratch i) := by
  induction uses using List.reverseRecOn with
  | nil => simp [after]
  | append_singleton uses u ih =>
    rw [after_concat]
    cases u with
    | arm request =>
      refine (scratch_arm _ request hi).trans ?_
      rw [ih]
      simp
    | takeNote =>
      rw [get_takeNote, ih]
      by_cases hzero : i = 0 <;> simp [noteRegister, hzero]

/-- The loader uses the registers where they lie in memory. -/
def Use.onChip (c : Rp2040.Chip) : Use → Rp2040.Chip
  | .arm request => c.armReset request
  | .takeNote => (Loader.takeUpdateRequest c).1

/-- To the registers that memory holds the same happens. -/
theorem timerOf_foldl_onChip (c : Rp2040.Chip) (uses : List Use) :
    Rp2040.timerOf (uses.foldl Use.onChip c).memory = (Rp2040.timerOf c.memory).after uses := by
  induction uses generalizing c with
  | nil => rfl
  | cons u uses ih =>
    rw [List.foldl_cons, ih, after, after, List.foldl_cons]
    refine congrArg (uses.foldl use) ?_
    cases u with
    | arm request => exact Rp2040.timerOf_armReset c request
    | takeNote => exact (Loader.takeUpdateRequest_eq c).2

/-- However often a reset is asked for, from whatever registers, and whether or not the note
    is taken away in between: the boot ROM will start where the last request says, or from
    flash if that names no entry point. The timer counts down from what the last request
    says, it is on, which bit 30 of its control word says, and its other settings are the
    first ones. No request touches the first four scratch words, and each writes the others
    and the load while the timer is off. In a chip the registers that lie in memory are used
    in this way. -/
theorem last_request_wins (t : RebootTimer) (uses : List Use) (hsome : requests uses ≠ []) :
    let request := (requests uses).getLast hsome
    (t.after uses).bootTarget
        = (if request.entry = 0 then none else some (request.entry ||| 1, request.stack))
      ∧ (t.after uses).load.toNat = min (2000 * request.delayMs.toNat) (2 ^ 24 - 1)
      ∧ (t.after uses).control = t.control ||| 0x40000000
      ∧ (∀ i : Fin 8, i.val < 4 → (t.after uses).get (.scratch i)
        = if i = 0 ∧ .takeNote ∈ uses then 0 else t.get (.scratch i))
      ∧ (∀ request, ∀ u ∈ updates request, ∀ i : Fin 8, i.val < 4 → u.register ≠ .scratch i)
      ∧ (∀ earlier request later, uses = earlier ++ .arm request :: later →
        ∀ before u rest, updates request = before ++ u :: rest → u.register ≠ .control →
          (before.foldl update (t.after earlier)).control &&& 0x40000000 = 0)
      ∧ ∀ c : Rp2040.Chip, Rp2040.timerOf c.memory = t →
        Rp2040.timerOf (uses.foldl Use.onChip c).memory = t.after uses := by
  intro request
  have harmed : Armed request (t.after uses) :=
    armed_after t (List.getLast?_eq_some_getLast hsome)
  refine ⟨harmed.target, ?_, ?_, fun i hi => scratch_after t uses hi,
    fun r u hu i hi => updates_ne_scratch hu hi,
    fun earlier r later _ before u rest hupdates hu => off_while_written _ hupdates hu, ?_⟩
  · rw [harmed.load, toNat_loadFor]
  · rw [control_after, if_neg hsome]
    rfl
  · rintro c rfl
    exact timerOf_foldl_onChip c uses

/-- A request for an image in RAM, and a request for flash with the longest delay behind it, on
    a timer that was off: it is let run, and neither the entry point of the request before nor
    what the scratch words held at first shows through. -/
theorem last_request_wins_flash :
    let t : RebootTimer := ⟨0, 7, Vector.replicate 8 0xB007C0D3, 1⟩
    let uses : List Use := [.arm ⟨0x20000000, 0x20042000, 10⟩, .takeNote, .arm ⟨0, 5, 0xFFFFFFFF⟩]
    ∃ hsome : requests uses ≠ [],
      (requests uses).getLast hsome = ⟨0, 5, 0xFFFFFFFF⟩
        ∧ (t.after uses).bootTarget = none
        ∧ (t.after uses).load.toNat = 2 ^ 24 - 1
        ∧ (t.after uses).control = 0x40000000 := by
  intro t uses
  have hsome : requests uses ≠ [] := by decide
  obtain ⟨htarget, hload, hcontrol, -⟩ := last_request_wins t uses hsome
  exact ⟨hsome, rfl, htarget, hload, hcontrol.trans (by decide)⟩

end RebootTimer

end Reflash
