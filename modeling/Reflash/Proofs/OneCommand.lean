import Reflash.Proofs.Answers
import Reflash.Proofs.LoaderUpload
/-! # One command at a time

  A command comes in when nothing else is on its way to the loader, in a frame of its own
  that is cut into packets of 64 bytes. One interrupt takes it in, deals with it and sends
  what waits to be sent (`Quiet.ask`). The worker may have a job all the while.

  Questions about the status change nothing but the token of the next command, so as many
  of them as there are words bring it back to where it was (`Quiet.askStatus`).

  As long as fewer commands come in, the worker's job does not bear the token of the next
  one (`Attended.keepsUp_of_few`).
-/

namespace Reflash

namespace Loader

/-- A frame that has come in as a whole is the command in it. -/
theorem Receiver.receive_pieces {command : Command} (hfits : command.Fits .device) :
    Receiver.empty.receive (pieces 64 (Frame.wrap (Encode.command command)))
      = ⟨0, some command, .empty, []⟩ := by
  have hwhole : (pieces 64 (Frame.wrap (Encode.command command))).flatten
      = Stuffing.stuff (Encode.command command) ++ [0] := flatten_pieces 64 _
  refine (receive_of_nil #[] _).trans ?_
  refine fetch_whole (fun _ hpacket => ne_nil_of_mem_pieces hpacket) (fun hnone => ?_) hwhole
    (Stuffing.zero_not_mem_stuff _)
    (Nat.le_of_lt (Frame.length_stuff_lt (Frame.wrap?_command hfits)))
    (Stuffing.stuff_ne_nil _) (Frame.decode_stuff (Reads.command hfits))
  rw [hnone] at hwhole
  exact List.append_ne_nil_of_right_ne_nil _ (List.cons_ne_nil _ _) hwhole.symm

namespace Attended

variable {σ : Type} [Hardware σ] {w v : Attended σ} {command : Command} {core : Core}
  {outcome : Core.Outcome}

/-! ### A command -/

/-- Nothing is on its way to the loader, and one answer at most waits to be sent. -/
structure Quiet (w : Attended σ) : Prop where
  duty : w.duty = .away
  receiver : w.service.receiver = .empty
  packets : w.service.endpoint.packets = []
  completions : w.service.device.machine.completions.length ≤ 1

/-- A command comes in, and the interrupt deals with it. -/
def ask (command : Command) : List Action :=
  .arrive (pieces 64 (Frame.wrap (Encode.command command))) :: .interrupt
    :: List.replicate 4 .attend

/-- What is left of a loader by commands that ended in a core, while no reset was armed
    and the worker did nothing. -/
structure Asked (w : Attended σ) (commands : List Command) (core : Core) (v : Attended σ) : Prop
    where
  quiet : v.Quiet
  completions : v.service.device.machine.completions = []
  core : v.service.device.core = core
  phase : v.service.device.phase = w.service.device.phase
  chip : v.service.chip = w.service.chip
  token : v.service.nextToken = w.service.nextToken + UInt32.ofNat commands.length
  asked : ∃ new, v.view.asked = new ++ w.view.asked ∧ new.map Prod.snd = commands

omit [Hardware σ] in
/-- What was asked is one of the commands, or was asked before. -/
theorem Asked.mem_asked {commands : List Command} (h : w.Asked commands core v)
    {p : UInt32 × Command} (hp : p ∈ v.view.asked) : p.2 ∈ commands ∨ p ∈ w.view.asked := by
  obtain ⟨new, hasked, hnew⟩ := h.asked
  rw [hasked] at hp
  rw [← hnew]
  exact (List.mem_append.mp hp).imp_left fun hmem => List.mem_map_of_mem hmem

/-- One run and then another one. -/
theorem run_trans {u : Attended σ} {actions later : List Action} (h : w.run actions = .ok v)
    (h' : v.run later = .ok u) : w.run (actions ++ later) = .ok u := (run_append h).trans h'

omit [Hardware σ] in
/-- The interrupt puts down one command. -/
theorem commands_exchanges {s : Service σ}
    (hhandle : s.device.core.handle command s.nextToken = .ok (core, outcome))
    (log : List Exchange) :
    Exchange.commands (s.exchanges command ++ log)
      = (s.nextToken, command) :: Exchange.commands log := by
  unfold Service.exchanges
  rw [hhandle]
  cases outcome with
  | pending =>
    rw [List.append_assoc]
    exact Exchange.filterMap_displaced (fun _ _ => rfl) _ _ _
  | _ => rfl

/-- What a command that does not reboot the chip leaves of the service. -/
theorem served_keeps (s : Service σ) (core : Core) (hother : ∀ request, outcome ≠ .reboot request) :
    (s.served core outcome).device = { s.device with core }
      ∧ (s.served core outcome).nextToken = s.nextToken + 1 := by
  cases outcome with
  | reboot request => exact absurd rfl (hother request)
  | _ => exact ⟨rfl, rfl⟩

/-- The interrupt sends the one answer that may wait, and is over. -/
theorem run_last_answer (hduty : w.duty = .sending)
    (hcompletions : w.service.device.machine.completions.length ≤ 1) :
    ∃ v, w.run (List.replicate 2 .attend) = .ok v ∧ v.duty = .away
      ∧ v.service.device = { w.service.device with
          machine := { w.service.device.machine with completions := [] } }
      ∧ v.service.receiver = w.service.receiver
      ∧ v.service.endpoint.packets = w.service.endpoint.packets
      ∧ v.service.nextToken = w.service.nextToken ∧ v.view.asked = w.view.asked := by
  cases hwaiting : w.service.device.machine.completions with
  | nil =>
    have hstep : w.step .attend = .ok { w with duty := .away } := by
      simp only [step, attend, hduty, hwaiting]
    refine ⟨{ w with duty := .away }, run_cons _ hstep, rfl, ?_, rfl, rfl, rfl, rfl⟩
    rw [← hwaiting]
  | cons response rest =>
    obtain rfl : rest = [] := by
      rw [hwaiting, List.length_cons] at hcompletions
      exact List.length_eq_zero_iff.mp (Nat.le_zero.mp (Nat.succ_le_succ_iff.mp hcompletions))
    let after : Attended σ :=
      ⟨(w.service.withCompletions []).send response, .sending, .answered response :: w.log⟩
    have hstep : w.step .attend = .ok after := by
      simp only [step, attend, hduty, hwaiting, after]
    have hlast : after.step .attend = .ok { after with duty := .away } := rfl
    have hpackets : after.service.endpoint.packets = w.service.endpoint.packets := by
      have hsame := Service.send_withInput w.service.receiver w.service.endpoint.packets
        (w.service.withCompletions []) response
      exact congrArg (fun s => s.endpoint.packets) hsame
    exact ⟨{ after with duty := .away }, (run_cons _ hstep).trans (run_cons _ hlast), rfl, rfl, rfl,
      hpackets, rfl, rfl⟩

/-- A command that comes in alone is dealt with in one interrupt. -/
theorem Quiet.ask (h : w.Quiet) (hfits : command.Fits .device)
    (hhandle : w.service.device.core.handle command w.service.nextToken = .ok (core, outcome))
    (hother : ∀ request, outcome ≠ .reboot request) :
    ∃ v, w.run (Attended.ask command) = .ok v ∧ w.Asked [command] core v := by
  let packets := pieces 64 (Frame.wrap (Encode.command command))
  let arrived : Attended σ :=
    { w with service := w.service.withInput .empty packets }
  let entered : Attended σ := { w with service := arrived.service.entered, duty := .receiving }
  let before : Service σ := entered.service.withInput .empty []
  let served : Attended σ :=
    ⟨before.served core outcome, .receiving, before.exchanges command ++ w.log⟩
  obtain ⟨hdevice, htoken⟩ := served_keeps before core hother
  have harrive : w.step (.arrive packets) = .ok arrived := by
    simp only [step, h.receiver, h.packets, List.nil_append, arrived]
  have hinterrupt : arrived.step .interrupt = .ok entered := if_pos h.duty
  have hreceive : entered.service.receive = (before, some command) := by
    unfold Service.receive
    rw [show entered.service.receiver.receive entered.service.endpoint.packets
      = ⟨0, some command, .empty, []⟩ from Receiver.receive_pieces hfits]
    rfl
  have hserve : before.serve command = .ok served.service := Service.serve_of_handle hhandle
  have hattend : entered.step .attend = .ok served := by
    simp only [step, attend, show entered.duty = .receiving from rfl, hreceive, hserve]
    rfl
  obtain ⟨hreceiver, hpackets⟩ := Service.serve_input hserve
  have hnone : served.step .attend = .ok { served with duty := .sending } := by
    simp only [step, attend, show served.duty = .receiving from rfl,
      Service.receive_of_quiet hreceiver hpackets]
  have hcompletions : served.service.device.machine.completions.length ≤ 1 := by
    rw [show served.service.device = { before.device with core } from hdevice]
    exact h.completions
  obtain ⟨v, hv, haway, hvdevice, hvreceiver, hvpackets, hvtoken, hlog⟩ :=
    run_last_answer (w := { served with duty := .sending }) rfl hcompletions
  rw [show ({ served with duty := .sending } : Attended σ).service.device
    = { before.device with core } from hdevice] at hvdevice
  have hempty : v.service.device.machine.completions = [] := by
    rw [hvdevice]
  refine ⟨v, ?_, ⟨haway, hvreceiver.trans hreceiver, hvpackets.trans hpackets, ?_⟩, hempty, ?_, ?_,
    ?_, hvtoken.trans htoken, [(w.service.nextToken, command)], ?_, rfl⟩
  · refine (run_cons _ harrive).trans ((run_cons _ hinterrupt).trans ?_)
    exact (run_cons _ hattend).trans ((run_cons _ hnone).trans hv)
  · rw [hempty]
    exact Nat.zero_le 1
  · rw [hvdevice]
  · rw [hvdevice]
    rfl
  · show v.service.device.machine.chip = _
    rw [hvdevice]
    rfl
  · rw [hlog]
    exact commands_exchanges hhandle w.log

/-- Questions about the status use up tokens, and change nothing else. -/
theorem Quiet.askStatus (h : w.Quiet) (hempty : w.service.device.machine.completions = [])
    (n : Nat) :
    ∃ v, w.run (List.replicate n (Attended.ask .getStatus)).flatten = .ok v
      ∧ w.Asked (List.replicate n .getStatus) w.service.device.core v := by
  induction n generalizing w with
  | zero => exact ⟨w, rfl, h, hempty, rfl, rfl, rfl, (UInt32.add_zero _).symm, [], rfl, rfl⟩
  | succ n ih =>
    have hhandle : w.service.device.core.handle .getStatus w.service.nextToken
        = .ok (w.service.device.core, .reply w.service.device.core.statusResponse) := rfl
    obtain ⟨u, hu, hfirst⟩ :=
      h.ask (show Command.Fits .device .getStatus from trivial) hhandle nofun
    obtain ⟨v, hv, hlater⟩ := ih hfirst.quiet hfirst.completions
    obtain ⟨first, hfirstAsked, hfirstNew⟩ := hfirst.asked
    obtain ⟨later, hlaterAsked, hlaterNew⟩ := hlater.asked
    refine ⟨v, ?_, hlater.quiet, hlater.completions, hlater.core.trans hfirst.core,
      hlater.phase.trans hfirst.phase, hlater.chip.trans hfirst.chip, ?_, later ++ first, ?_, ?_⟩
    · rw [List.replicate_succ, List.flatten_cons, run_append hu]
      exact hv
    · rw [hlater.token, hfirst.token, List.length_replicate, List.length_replicate,
        UInt32.add_assoc, ← UInt32.ofNat_add]
      exact congrArg (fun k => w.service.nextToken + UInt32.ofNat k) (Nat.add_comm 1 n)
    · rw [hlaterAsked, hfirstAsked, List.append_assoc]
    · rw [List.map_append, hlaterNew, hfirstNew, List.replicate_succ']

/-! ### The worker -/

theorem step_take (hduty : w.duty = .away) :
    w.step .take = .ok (w.withDevice w.service.device.takeJob) := if_pos hduty

theorem step_carryOut (hduty : w.duty = .away) :
    w.step .carryOut = .ok (w.withDevice w.service.device.carryOut) := if_pos hduty

theorem step_finish {d : Device (Board σ)} (hduty : w.duty = .away)
    (h : w.service.device.finish = .ok d) : w.step .finish = .ok (w.withDevice d) := by
  simp only [step, work, if_pos hduty, h]
  rfl

/-! ### A page -/

section page

variable {img : PagedImage} {capacity i : UInt32} {inRam : Bool} {sent : List Sector} {u : Upload}
  {request : Option RebootRequest} {job : Job} (h : w.Quiet)

/-- What the sector of a page leaves when the worker has carried out the job for the page,
    but has not told of it. -/
structure Written (img : PagedImage) (inRam : Bool) (w : Attended σ) (i : UInt32) (lba : Nat)
    (v : Attended σ) : Prop where
  quiet : v.Quiet
  completions : v.service.device.machine.completions = []
  core : v.service.device.core = { w.service.device.core with
    upload := img.afterPage inRam w.service.device.core.upload i w.service.nextToken
    disk := { w.service.device.core.disk with job := none } }
  phase : v.service.device.phase = .done
    { (img.pageJob config inRam w.service.device.core.upload i w.service.nextToken).forUpload with
      result := some .ok }
  chip : v.service.chip = Machine.perform w.service.chip
    ((img.pageJob config inRam w.service.device.core.upload i
      w.service.nextToken).forUpload.pageCall map)
  token : v.service.nextToken = w.service.nextToken + 1
  asked : ∃ token, v.view.asked
    = (token, .forSector lba (img.sector config.familyId i)) :: w.view.asked

/-- What is left when the worker has told of a job that was credited. -/
structure Credited (w : Attended σ) (u : Upload) (request : Option RebootRequest)
    (v : Attended σ) : Prop where
  quiet : v.Quiet
  core : v.service.device.core = { w.service.device.core with
    upload := u, rebooting := w.service.device.core.rebooting || request.isSome }
  phase : v.service.device.phase = .idle
  chip : v.service.chip = Machine.performAll w.service.chip (request.map Call.reboot).toList
  token : v.service.nextToken = w.service.nextToken
  asked : v.view.asked = w.view.asked

/-- What the sector of a page leaves when the worker has told of the job for the page as
    well, and a reboot was asked for or not. -/
structure Delivered (img : PagedImage) (capacity : UInt32) (inRam : Bool) (sent : List Sector)
    (w : Attended σ) (i : UInt32) (lba : Nat) (request : Option RebootRequest) (v : Attended σ) :
    Prop where
  quiet : v.Quiet
  sameConfig : v.service.device.core.config = w.service.device.core.config
  sameFence : v.service.device.core.disk.fence = w.service.device.core.disk.fence
  phase : v.service.device.phase = .idle
  tally : img.Tally config capacity inRam (sent ++ [img.sector config.familyId i])
    v.service.device.core.upload
  numBlocks : v.service.device.core.upload.numBlocks = img.numBlocks
  due : v.service.device.core.rebooting = request.isSome
  chip : v.service.chip = Machine.performAll (Machine.perform w.service.chip
    ((img.pageJob config inRam w.service.device.core.upload i
      w.service.nextToken).forUpload.pageCall map)) (request.map Call.reboot).toList
  asked : ∃ token, v.view.asked
    = (token, .forSector lba (img.sector config.familyId i)) :: w.view.asked

include h

/-- The worker tells of the job of an upload. -/
theorem Quiet.credit (hnone : w.service.device.machine.completions = [])
    (hphase : w.service.device.phase = .done job) (hlistener : job.listener = some .upload)
    (hcredit : w.service.device.core.upload.credit job w.service.device.core.config
      = .ok (u, request)) :
    ∃ v, w.run [.finish] = .ok v ∧ w.Credited u request v := by
  let told : Device (Board σ) := { w.service.device with
    core := { w.service.device.core with
      upload := u, rebooting := w.service.device.core.rebooting || request.isSome }
    phase := .idle
    machine := ⟨Machine.performAll w.service.chip (request.map Call.reboot).toList, [job.response],
      true⟩ }
  have hfinish : w.service.device.finish = .ok told := by
    rw [Device.finish_of_credit hphase hlistener hcredit]
    -- The answer is the only one that waits, whether a reboot is asked for or not.
    cases request with
    | none =>
      exact congrArg (fun machine => Except.ok { told with machine })
        (Board.complete_of_nil (b := w.service.device.machine) _ hnone)
    | some request =>
      exact congrArg (fun machine => Except.ok { told with machine })
        (Board.complete_of_nil (b := Machine.perform w.service.device.machine (.reboot request)) _
          hnone)
  exact ⟨_, run_cons _ (step_finish h.duty hfinish), ⟨h.duty, h.receiver, h.packets, Nat.le_refl 1⟩,
    rfl, rfl, rfl, rfl, rfl⟩

section sector

variable (hconfig : w.service.device.core.config = config)
  (hopen : w.service.device.core.disk.fence = none)
  (htally : img.Tally config capacity inRam sent w.service.device.core.upload)
  (hlies : img.Lies capacity inRam map i) (hi : i < img.numBlocks)

include hconfig hopen htally hlies hi

/-- The sector of a page comes in, and a job for the page is left. -/
theorem Quiet.sector (lba : Nat) :
    ∃ v, w.run (Attended.ask (.forSector lba (img.sector config.familyId i))) = .ok v
      ∧ w.Asked [.forSector lba (img.sector config.familyId i)]
        (w.service.device.core.afterBlock
          (img.afterPage inRam w.service.device.core.upload i w.service.nextToken)
          (some (img.pageJob config inRam w.service.device.core.upload i w.service.nextToken)))
        v := by
  have haccepts := htally.accepts hlies hi w.service.nextToken
  have hfence : w.service.device.core.disk.isFenced = false := by
    unfold Slot.isFenced
    rw [hopen]
    rfl
  have hwrite := Core.writeSector_of_block (c := w.service.device.core)
    (by rw [hconfig]; exact img.ofSectorFor?_sector _ i)
    (by rw [hfence, hconfig]; exact haccepts.accept_eq) haccepts.result
  exact h.ask (Command.fits_forSector lba _) (handle_forSector lba hwrite) nofun

/-- The sector of a page comes in, and the page is written. -/
theorem Quiet.page (hphase : w.service.device.phase = .idle)
    (hdue : w.service.device.core.rebooting = false) (lba : Nat) :
    ∃ v, w.run (Attended.ask (.forSector lba (img.sector config.familyId i)) ++ [.take, .carryOut])
        = .ok v
      ∧ Written img inRam w i lba v := by
  obtain ⟨u, hu, hasked⟩ := h.sector hconfig hopen htally hlies hi lba
  let job := (img.pageJob config inRam w.service.device.core.upload i w.service.nextToken).forUpload
  let core : Core := { w.service.device.core with
    upload := img.afterPage inRam w.service.device.core.upload i w.service.nextToken
    disk := { w.service.device.core.disk with job := none } }
  let held : Device (Board σ) := { u.service.device with core, phase := .holding .disk job }
  have htake : u.step .take = .ok (u.withDevice held) := by
    have hjob : u.service.device.core.disk.job = some job := by
      rw [hasked.core]
      rfl
    rw [step_take hasked.quiet.duty, Device.takeJob_of_disk (hasked.phase.trans hphase) hjob,
      hasked.core]
    rfl
  have hwrites : job.WritesPage := (htally.accepts hlies hi w.service.nextToken).writesPage
    (by rw [PagedImage.payload_block hi, PagedImage.length_page hi])
  have hplan : job.plan held.core.config.map held.core.rebooting held.lastWriter =
      { status := .ok, calls := [job.pageCall map], access := none, lastWriter := some .disk } := by
    rw [show held.core.config = config from hconfig, show held.core.rebooting = false from hdue]
    exact htally.plan_pageJob hlies hi w.service.nextToken held.lastWriter
  let written : Device (Board σ) := { held with
    phase := .done { job with result := some .ok }
    lastWriter := some .disk
    machine := { u.service.device.machine with
      chip := Machine.perform w.service.chip (job.pageCall map) } }
  have hcarry : (u.withDevice held).step .carryOut = .ok (u.withDevice written) := by
    have hmachine : Machine.perform u.service.device.machine (job.pageCall map)
        = written.machine := by
      rw [Board.perform_pageCall, show u.service.device.machine.chip = _ from hasked.chip]
    refine (step_carryOut (w := u.withDevice held) hasked.quiet.duty).trans ?_
    refine congrArg (fun d => Except.ok (u.withDevice d)) ?_
    refine (Device.carryOut_page (d := held) rfl hopen hwrites hplan).trans ?_
    exact congrArg (fun machine => { written with machine }) hmachine
  obtain ⟨new, hlog, hnew⟩ := hasked.asked
  refine ⟨_, (run_append hu).trans ((run_cons _ htake).trans (run_cons _ hcarry)),
    ⟨hasked.quiet.duty, hasked.quiet.receiver, hasked.quiet.packets, hasked.quiet.completions⟩,
    hasked.completions, rfl, rfl, rfl, hasked.token, ?_⟩
  obtain ⟨⟨token, command⟩, rfl, rfl⟩ := List.map_eq_singleton_iff.mp hnew
  exact ⟨token, hlog⟩

/-- The sector of a page comes in, and the page is written and counts as sent. A reboot is
    asked for if it was the last one missing. -/
theorem Quiet.deliver (hphase : w.service.device.phase = .idle)
    (hdue : w.service.device.core.rebooting = false) (lba : Nat) :
    ∃ v request, w.run (Attended.ask (.forSector lba (img.sector config.familyId i))
        ++ [.take, .carryOut] ++ [.finish]) = .ok v
      ∧ Delivered img capacity inRam sent w i lba request v
      ∧ (request.isSome = true ↔ ¬ img.sectors config.familyId ⊆ sent
        ∧ img.sectors config.familyId ⊆ sent ++ [img.sector config.familyId i]) := by
  obtain ⟨u, hu, hwritten⟩ := h.page hconfig hopen htally hlies hi hphase hdue lba
  obtain ⟨x, request, hcredit, hx, hn, hrequest⟩ := htally.credit hlies hi w.service.nextToken
  obtain ⟨v, hv, hcredited⟩ := hwritten.quiet.credit hwritten.completions hwritten.phase rfl
    (by rw [hwritten.core, hconfig]; exact hcredit)
  have hupload : v.service.device.core.upload = x := by
    rw [hcredited.core]
  refine ⟨v, request, run_trans hu hv, ⟨hcredited.quiet, ?_, ?_, hcredited.phase, hupload ▸ hx,
    hupload ▸ hn, ?_, ?_, ?_⟩, hrequest⟩
  · rw [hcredited.core, hwritten.core]
  · rw [hcredited.core, hwritten.core]
  · rw [hcredited.core, hwritten.core]
    exact (congrArg (· || request.isSome) hdue).trans (Bool.false_or _)
  · rw [hcredited.chip, hwritten.chip]
  · rw [hcredited.asked]
    exact hwritten.asked

end sector

end page

end Attended

end Loader

end Reflash
