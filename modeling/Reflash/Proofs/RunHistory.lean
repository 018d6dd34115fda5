import Reflash.Proofs.Run
/-! # What happened in a run

  A statement about a run may look back: at a step that was taken since the upload
  was last started, or at the calls that were made to the machine.

  * `SinceStart` says that there was such a step. A later step keeps it unless it
    starts an upload.
  * `Logged` is a machine that behaves as another one and keeps a list of the
    calls made to it. A run over it is a run over the other machine, which
    `run_forget` says.
-/

namespace Reflash

/-! ### A run and its parts -/

/-- What a block puts down is about the upload and the job left for the block. -/
theorem Upload.mem_entries {u : Upload} {block : Block} {config : Config} {fenced : Bool}
    {job : Option Job} {e : Entry} (h : e ∈ u.entries block config fenced job) :
    e.isBoundary = true ∨ e.isAccepted = true := by
  unfold entries at h
  split at h
  · rw [List.mem_singleton.mp h]
    exact .inl rfl
  · rcases List.mem_append.mp h with h | h
    · obtain ⟨left, -, rfl⟩ := List.mem_map.mp h
      exact .inr rfl
    · split at h
      · cases h
      · rw [List.mem_singleton.mp h]
        exact .inl rfl

theorem Upload.told_not_mem_entries {u : Upload} {block : Block} {config : Config} {fenced : Bool}
    {job : Option Job} {told : Job} : .told told ∉ u.entries block config fenced job := by
  intro h
  rcases mem_entries h with h | h <;> cases h

theorem Upload.carriedOut_not_mem_entries {u : Upload} {block : Block} {config : Config}
    {fenced : Bool} {job : Option Job} {done : Job} :
    .carriedOut done ∉ u.entries block config fenced job := by
  intro h
  rcases mem_entries h with h | h <;> cases h

namespace Watched

variable {σ : Type} [Machine σ]

theorem run_append (w : Watched σ) (moves later : List Move) :
    w.run (moves ++ later) = w.run moves >>= fun v => v.run later :=
  List.foldlM_append

/-- A run of a run is a run. -/
theorem run_trans {w v v' : Watched σ} {moves later : List Move} (h : w.run moves = .ok v)
    (h' : v.run later = .ok v') : w.run (moves ++ later) = .ok v' := by
  rw [run_append, h]
  exact h'

/-- A run that came to an end did so in each of its parts. -/
theorem run_append_eq_ok {w v' : Watched σ} {moves later : List Move}
    (h : w.run (moves ++ later) = .ok v') :
    ∃ v, w.run moves = .ok v ∧ v.run later = .ok v' := by
  rw [run_append] at h
  cases hv : w.run moves with
  | error e => rw [hv] at h; cases h
  | ok v => rw [hv] at h; exact ⟨v, rfl, h⟩

theorem run_singleton (w : Watched σ) (m : Move) : w.run [m] = w.step m := by
  unfold run
  cases h : w.step m <;> simp [h, bind, Except.bind, pure, Except.pure]

/-- A step only adds to the journal. -/
theorem step_journal {v v' : Watched σ} {m : Move} (h : v.step m = .ok v') :
    v'.journal = v.device.entries m ++ v.journal := by
  unfold step at h
  cases hmove : v.device.move m with
  | error e => rw [hmove] at h; cases h
  | ok d => rw [hmove] at h; cases h; rfl

/-- A run only adds to the journal. -/
theorem run_journal {moves : List Move} {w w' : Watched σ} (h : w.run moves = .ok w') :
    ∃ since, w'.journal = since ++ w.journal := by
  induction moves generalizing w with
  | nil => cases h; exact ⟨[], rfl⟩
  | cons m moves ih =>
    obtain ⟨v, hstep, hrest⟩ :=
      run_append_eq_ok (show w.run ([m] ++ moves) = .ok w' from h)
    rw [run_singleton] at hstep
    obtain ⟨since, hsince⟩ := ih hrest
    exact ⟨since ++ w.device.entries m, by rw [hsince, step_journal hstep, List.append_assoc]⟩

/-- What is known of a run at its end and kept by each step is known of every
    run, and so no run stops at a fault. -/
theorem run_history {P : List Move → Watched σ → Prop} {w₀ : Watched σ} (h₀ : P [] w₀)
    (hstep : ∀ moves v m, w₀.run moves = .ok v → P moves v →
      ∃ v', v.step m = .ok v' ∧ P (moves ++ [m]) v') (moves : List Move) :
    ∃ w, w₀.run moves = .ok w ∧ P moves w := by
  induction moves using List.reverseRecOn with
  | nil => exact ⟨w₀, rfl, h₀⟩
  | append_singleton moves m ih =>
    obtain ⟨v, hrun, hv⟩ := ih
    obtain ⟨v', hv', hP⟩ := hstep moves v m hrun hv
    exact ⟨v', run_snoc hrun hv', hP⟩

/-! ### Since the upload was started -/

/-- The run took a step that did `P`, and no upload was started since. -/
def SinceStart (P : Watched σ → Watched σ → Prop) (w₀ : Watched σ) (moves : List Move) : Prop :=
  ∃ earlier m later v v' w since, moves = earlier ++ m :: later ∧ w₀.run earlier = .ok v
    ∧ v.step m = .ok v' ∧ P v v' ∧ v'.run later = .ok w
    ∧ w.journal = since ++ v'.journal ∧ .started ∉ since

/-- Nothing was done before the first move. -/
theorem not_sinceStart_nil (P : Watched σ → Watched σ → Prop) (w₀ : Watched σ) :
    ¬ SinceStart P w₀ [] := by
  rintro ⟨earlier, m, later, -, -, -, -, hmoves, -⟩
  simp at hmoves

variable {P : Watched σ → Watched σ → Prop} {w₀ v v' : Watched σ} {m : Move} {moves : List Move}

theorem SinceStart.now (hrun : w₀.run moves = .ok v) (hstep : v.step m = .ok v') (h : P v v') :
    SinceStart P w₀ (moves ++ [m]) :=
  ⟨moves, m, [], v, v', v', [], rfl, hrun, hstep, h, rfl, rfl, List.not_mem_nil⟩

theorem SinceStart.later (h : SinceStart P w₀ moves) (hrun : w₀.run moves = .ok v)
    (hstep : v.step m = .ok v') (hno : .started ∉ v.device.entries m) :
    SinceStart P w₀ (moves ++ [m]) := by
  obtain ⟨earlier, m', later, x, x', w, since, rfl, hx, hx', hP, hw, hjournal, hsince⟩ := h
  -- The step goes on from the end of the run.
  have hsame : w₀.run (earlier ++ m' :: later) = .ok w :=
    run_trans hx ((run_cons x x' m' later hx').trans hw)
  cases hsame.symm.trans hrun
  refine ⟨earlier, m', later ++ [m], x, x', v', v.device.entries m ++ since, by simp, hx, hx', hP,
    run_snoc hw hstep, by rw [step_journal hstep, hjournal, List.append_assoc], ?_⟩
  rw [List.mem_append, not_or]
  exact ⟨hno, hsince⟩

/-- What was done since the start was done by the last step, or before it. -/
theorem SinceStart.cases (h : SinceStart P w₀ (moves ++ [m])) (hrun : w₀.run moves = .ok v)
    (hstep : v.step m = .ok v') :
    P v v' ∨ SinceStart P w₀ moves ∧ .started ∉ v.device.entries m := by
  obtain ⟨earlier, m', later, x, x', w, since, hmoves, hx, hx', hP, hw, hjournal, hsince⟩ := h
  rcases later.eq_nil_or_concat with rfl | ⟨later, last, rfl⟩
  · obtain ⟨rfl, hlast⟩ := List.append_inj' hmoves rfl
    cases hlast
    cases hx.symm.trans hrun
    cases hx'.symm.trans hstep
    exact .inl hP
  · rw [List.concat_eq_append, ← List.cons_append, ← List.append_assoc] at hmoves
    rw [List.concat_eq_append] at hw
    obtain ⟨rfl, hlast⟩ := List.append_inj' hmoves rfl
    cases hlast
    -- The rest of the run ends where the last step begins.
    obtain ⟨y, hy, hlast⟩ := run_append_eq_ok hw
    rw [run_singleton] at hlast
    cases (run_trans hx ((run_cons x x' m' later hx').trans hy)).symm.trans hrun
    cases hlast.symm.trans hstep
    obtain ⟨between, hbetween⟩ := run_journal hy
    have hsplit : since = v.device.entries m ++ between := by
      rw [step_journal hstep, hbetween, ← List.append_assoc] at hjournal
      exact (List.append_cancel_right hjournal).symm
    rw [hsplit, List.mem_append, not_or] at hsince
    exact .inr ⟨⟨earlier, m', later, x, x', v, between, rfl, hx, hx', hP, hy, hbetween,
      hsince.2⟩, hsince.1⟩

end Watched

/-! ### The calls of a run -/

/-- A machine, and the calls made to it, the latest first. -/
structure Logged (σ : Type) where
  machine : σ
  calls : List Call

namespace Logged

variable {σ : Type} [Machine σ]

instance : Machine (Logged σ) where
  perform l call := ⟨Machine.perform l.machine call, call :: l.calls⟩
  load l addr len := Machine.load l.machine addr len
  length_load l := Machine.length_load l.machine

/-- A machine to which no call was made. -/
def new (machine : σ) : Logged σ := ⟨machine, []⟩

@[simp] theorem calls_perform (l : Logged σ) (call : Call) :
    (Machine.perform l call).calls = call :: l.calls := rfl

@[simp] theorem machine_perform (l : Logged σ) (call : Call) :
    (Machine.perform l call).machine = Machine.perform l.machine call := rfl

@[simp] theorem calls_performAll (l : Logged σ) (calls : List Call) :
    (Machine.performAll l calls).calls = calls.reverse ++ l.calls := by
  unfold Machine.performAll
  induction calls generalizing l with
  | nil => rfl
  | cons call calls ih => rw [List.foldl_cons, ih]; simp

@[simp] theorem machine_performAll (l : Logged σ) (calls : List Call) :
    (Machine.performAll l calls).machine = Machine.performAll l.machine calls := by
  unfold Machine.performAll
  induction calls generalizing l with
  | nil => rfl
  | cons call calls ih => rw [List.foldl_cons, List.foldl_cons, ih]; rfl

end Logged

namespace Device

variable {σ : Type} [Machine σ]

/-- The device without the list of calls. -/
def forget (d : Device (Logged σ)) : Device σ :=
  { core := d.core, phase := d.phase, lastWriter := d.lastWriter, machine := d.machine.machine }

omit [Machine σ] in
theorem forget_takeJob (d : Device (Logged σ)) : d.takeJob.forget = d.forget.takeJob := by
  rcases d with ⟨core, phase, lastWriter, machine⟩
  cases phase with
  | holding => rfl
  | done => rfl
  | idle =>
    simp only [takeJob, forget]
    rcases core.dequeue .disk with ⟨afterDisk, _ | job⟩
    · rcases core.dequeue .control with ⟨afterControl, _ | job⟩ <;> rfl
    · rfl

theorem forget_execute (d : Device (Logged σ)) (job : Job) :
    d.forget.execute job = ((d.execute job).1.forget, (d.execute job).2) := by
  -- What a job reads is the same on both machines.
  have hload : ∀ calls addr len, Machine.load (Machine.performAll d.machine calls) addr len
      = Machine.load (Machine.performAll d.machine.machine calls) addr len := by
    intro calls addr len
    rw [← Logged.machine_performAll]
    rfl
  simp only [execute, forget, Job.carriedOut, Logged.machine_performAll, hload]
  rfl

theorem forget_carryOut (d : Device (Logged σ)) : d.carryOut.forget = d.forget.carryOut := by
  cases hphase : d.phase with
  | idle =>
    have hphase' : d.forget.phase = .idle := hphase
    rw [carryOut_of_idle hphase, carryOut_of_idle hphase']
  | done job =>
    have hphase' : d.forget.phase = .done job := hphase
    rw [carryOut_of_done hphase, carryOut_of_done hphase']
  | holding origin job =>
    have hphase' : d.forget.phase = .holding origin job := hphase
    cases hfence : (d.core.slot origin).isFenced with
    | true =>
      have hfence' : (d.forget.core.slot origin).isFenced = true := hfence
      rw [carryOut_of_fenced hphase hfence, carryOut_of_fenced hphase' hfence']
      rfl
    | false =>
      have hfence' : (d.forget.core.slot origin).isFenced = false := hfence
      rw [carryOut_of_open hphase hfence, carryOut_of_open hphase' hfence', doneJob, doneJob,
        forget_execute]
      rfl

theorem forget_finish (d : Device (Logged σ)) : d.finish.map forget = d.forget.finish := by
  rcases d with ⟨core, phase, lastWriter, machine⟩
  cases phase with
  | idle => rfl
  | holding => rfl
  | done job =>
    simp only [finish, forget, notify]
    cases job.listener with
    | none => rfl
    | some listener =>
      cases listener with
      | host => rfl
      | upload =>
        cases core.upload.credit job core.config with
        | error e => rfl
        | ok p =>
          rcases p with ⟨u, _ | request⟩ <;> rfl

theorem forget_move (d : Device (Logged σ)) (m : Move) :
    (d.move m).map forget = d.forget.move m := by
  cases m with
  | sector token sector =>
    simp only [move, forget]
    cases d.core.writeSector token sector <;> rfl
  | command token command =>
    simp only [move, forget]
    cases d.core.handle command token <;> rfl
  | resetDisk => rfl
  | setMode mode => rfl
  | take => exact congrArg Except.ok d.forget_takeJob
  | carryOut => exact congrArg Except.ok d.forget_carryOut
  | finish => exact d.forget_finish

theorem forget_entries (d : Device (Logged σ)) (m : Move) : d.forget.entries m = d.entries m := by
  cases m with
  | carryOut =>
    simp only [entries, ← forget_carryOut]
    rfl
  | _ => rfl

end Device

namespace Watched

variable {σ : Type} [Machine σ]

/-- The device without the list of calls, and its journal. -/
def forget (w : Watched (Logged σ)) : Watched σ := ⟨w.device.forget, w.journal⟩

theorem forget_step (w : Watched (Logged σ)) (m : Move) :
    (w.step m).map forget = w.forget.step m := by
  unfold step
  show _ = (do return ⟨← w.device.forget.move m, w.device.forget.entries m ++ w.journal⟩ :
    Except Fault (Watched σ))
  rw [← Device.forget_move, Device.forget_entries]
  cases w.device.move m <;> rfl

/-- A run over a machine that keeps a list of its calls is a run over the machine
    without it. -/
theorem run_forget (w : Watched (Logged σ)) (moves : List Move) :
    (w.run moves).map forget = w.forget.run moves := by
  induction moves generalizing w with
  | nil => rfl
  | cons m moves ih =>
    have hstep := w.forget_step m
    cases hw : w.step m with
    | error e =>
      rw [hw] at hstep
      simp only [run, List.foldlM_cons, hw, ← hstep]
      rfl
    | ok v =>
      rw [hw] at hstep
      rw [run_cons w v m moves hw, run_cons w.forget v.forget m moves hstep.symm, ih]

end Watched

end Reflash
