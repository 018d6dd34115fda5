import Reflash.Loader.Startup
import Reflash.Proofs.Conversation
/-! # Host and device in step

  The device numbers the commands that it takes in, and the host counts the answers that
  it gets. These are two counts on two machines, and an answer need not bear a number.
  Still they agree after every exchange, whatever the commands are, wherever the count
  began, and even if answers to commands that were given up come in late.

  `Due`, `Behind` and `Astray` say what an answer can be to a host that waits for one
  with a certain token: it is one of the three, and `check` tells which. `Ready.carry_any`
  is the part of the device: whatever the command is, its answer is due. `InStep` puts
  the exchanges of a whole conversation together.
-/

namespace Reflash

/-! ### What an answer can be -/

namespace Response

variable {response : Response} {want token : UInt32}

/-- An answer to the command with the token `want`. It need not bear a token. -/
def Due (response : Response) (want : UInt32) : Prop :=
  ∀ token, response.token? = some token → token = want

/-- An answer to one of the commands before the one with the token `want`, as far back as
    half the way round. -/
def Behind (response : Response) (want : UInt32) : Prop :=
  ∃ back : Nat, 1 ≤ back ∧ back ≤ 2 ^ 31 ∧ response.token? = some (want - UInt32.ofNat back)

/-- An answer to a command that was not sent yet. -/
def Astray (response : Response) (want : UInt32) : Prop :=
  ¬ response.Due want ∧ ¬ response.Behind want

end Response

namespace TokenCounter

variable {response : Response} {want token : UInt32}

/-- The tokens before another one are those from which it is reached by going on. -/
theorem isBefore_iff :
    isBefore token want = true ↔ ∃ back : Nat, 1 ≤ back ∧ back ≤ 2 ^ 31
      ∧ token = want - UInt32.ofNat back := by
  have hsub : (token - want).toNat = (2 ^ 32 - want.toNat + token.toNat) % 2 ^ 32 :=
    UInt32.toNat_sub token want
  have htoken := token.toNat_lt
  have hwant := want.toNat_lt
  unfold isBefore
  rw [decide_eq_true_iff, hsub]
  constructor
  · intro h
    refine ⟨2 ^ 32 - (token - want).toNat, by omega, by omega, ?_⟩
    rw [← UInt32.toNat_inj, UInt32.toNat_sub, UInt32.toNat_ofNat', hsub]
    omega
  · rintro ⟨back, hlow, hhigh, rfl⟩
    rw [UInt32.toNat_sub, UInt32.toNat_ofNat']
    omega

theorem isBefore_irrefl (want : UInt32) : isBefore want want = false := by
  unfold isBefore
  rw [UInt32.sub_self]
  rfl

theorem behind_iff (h : response.token? = some token) :
    response.Behind want ↔ isBefore token want = true := by
  rw [isBefore_iff, Response.Behind, h]
  simp only [Option.some.injEq]

/-- An answer that is due is accepted, and the count goes on. -/
theorem check_of_due (h : response.Due want) :
    check ⟨some want⟩ response = (⟨some (want + 1)⟩, .accept) := by
  unfold check
  cases hcompletion : response.completion with
  | none => rfl
  | some told =>
    obtain ⟨token, status⟩ := told
    obtain rfl : token = want := h token (congrArg (Option.map Prod.fst) hcompletion)
    exact if_pos rfl

theorem check_of_ne (h : response.token? = some token) (hne : token ≠ want) :
    check ⟨some want⟩ response
      = if isBefore token want then (⟨some want⟩, .stale token)
        else (unknown, .lost token want) := by
  obtain ⟨⟨token, status⟩, hcompletion, rfl⟩ := Option.map_eq_some_iff.mp h
  unfold check
  simp only [hcompletion, if_neg hne]

/-- An answer from before is skipped, and the count stays as it is. -/
theorem check_of_behind (h : response.Behind want) :
    ∃ token, response.token? = some token
      ∧ check ⟨some want⟩ response = (⟨some want⟩, .stale token) := by
  obtain ⟨back, -, -, htoken⟩ := id h
  have hbefore := (behind_iff htoken).mp h
  have hne : want - UInt32.ofNat back ≠ want := by
    intro hsame
    rw [hsame, isBefore_irrefl] at hbefore
    cases hbefore
  exact ⟨_, htoken, by rw [check_of_ne htoken hne, if_pos hbefore]⟩

/-- Any other answer is refused, and the count is lost. -/
theorem check_of_astray (h : response.Astray want) :
    ∃ token, response.token? = some token
      ∧ check ⟨some want⟩ response = (unknown, .lost token want) := by
  obtain ⟨hdue, hbehind⟩ := h
  obtain ⟨token, hdiffers⟩ := not_forall.mp hdue
  obtain ⟨htoken, hne⟩ := Classical.not_imp.mp hdiffers
  rw [behind_iff htoken] at hbehind
  exact ⟨token, htoken, by rw [check_of_ne htoken hne, if_neg hbehind]⟩

end TokenCounter

/-! ### Answers that come in late -/

/-- Answers come in one after the other, each in a frame of its own, with silence before
    and between the bytes. -/
inductive Late : List Response → List Arrival → Prop where
  | nil {arrivals : List Arrival} (silence : Arrives [] arrivals) : Late [] arrivals
  | cons {response : Response} {rest : List Response} {arrivals later : List Arrival}
    (frame : Arrives (Stuffing.stuff (Encode.response response)) arrivals)
    (others : Late rest later) : Late (response :: rest) (arrivals ++ .byte 0 :: later)

/-- What was heard when some answers had been skipped before. -/
def Heard.behind (heard : Heard) (skipped : List UInt32) : Heard :=
  { heard with stale := skipped ++ heard.stale }

section listen

variable {quiet : Failure} {want : UInt32} {leftovers : List Response} {arrivals : List Arrival}

/-- The host skips answers from before, whatever comes in after them. -/
theorem listen_late (h : Late leftovers arrivals)
    (hfits : ∀ response ∈ leftovers, response.Fits .device)
    (hbehind : ∀ response ∈ leftovers, response.Behind want) (more : List Arrival) :
    listen quiet ⟨some want⟩ #[] (arrivals ++ more)
      = (listen quiet ⟨some want⟩ #[] more).behind (leftovers.filterMap Response.token?) := by
  induction h with
  | nil silence =>
    rw [listen_append_of_arrives silence List.not_mem_nil (Nat.zero_le _)]
    rfl
  | @cons response rest arrivals later frame others ih =>
    obtain ⟨token, htoken, hcheck⟩ :=
      TokenCounter.check_of_behind (hbehind response List.mem_cons_self)
    have hrest := ih (fun r hr => hfits r (List.mem_cons_of_mem _ hr))
      (fun r hr => hbehind r (List.mem_cons_of_mem _ hr))
    rw [List.append_assoc, List.cons_append,
      listen_response frame (hfits response List.mem_cons_self), hcheck]
    dsimp only
    rw [hrest, List.filterMap_cons_some htoken]
    rfl

/-- The answer that is due is heard behind those from before. -/
theorem listen_due {response : Response} (h : Late leftovers arrivals)
    (hfits : ∀ response ∈ leftovers, response.Fits .device)
    (hbehind : ∀ response ∈ leftovers, response.Behind want) (hresponse : response.Fits .device)
    (hdue : response.Due want) :
    listen quiet ⟨some want⟩ #[] (arrivals ++ (Frame.wrap (Encode.response response)).map .byte)
      = ⟨.ok response, ⟨some (want + 1)⟩, leftovers.filterMap Response.token?, []⟩ := by
  rw [← List.append_nil (List.map _ _), listen_late h hfits hbehind,
    listen_wrap hresponse (TokenCounter.check_of_due hdue), Heard.behind, List.append_nil]

/-- An answer that is astray ends the wait, and the count is lost. -/
theorem listen_astray {response : Response} (h : Late leftovers arrivals)
    (hfits : ∀ response ∈ leftovers, response.Fits .device)
    (hbehind : ∀ response ∈ leftovers, response.Behind want) (hresponse : response.Fits .device)
    (hastray : response.Astray want) (rest : List Arrival) :
    ∃ token, response.token? = some token
      ∧ listen quiet ⟨some want⟩ #[]
          (arrivals ++ ((Frame.wrap (Encode.response response)).map .byte ++ rest))
        = ⟨.error (.wrongToken token want), .unknown, leftovers.filterMap Response.token?,
            rest⟩ := by
  obtain ⟨token, htoken, hcheck⟩ := TokenCounter.check_of_astray hastray
  refine ⟨token, htoken, ?_⟩
  rw [listen_late h hfits hbehind, map_byte_wrap_append,
    listen_response (Arrives.map_byte _) hresponse, hcheck]
  simp only [Heard.behind, List.append_nil]

end listen

/-! ### The answer of the device -/

namespace Loader

section worker

variable {σ : Type} [Hardware σ] {d : Device (Board σ)} {channel : Channel} {job : Job}

omit [Hardware σ] in
/-- An idle worker takes the only job that waits. -/
theorem takeJob_of_only (hphase : d.phase = .idle) (hjob : (d.core.slot channel).job = some job)
    (hothers : ∀ other, other ≠ channel → (d.core.slot other).job = none) :
    d.takeJob.phase = .holding channel job ∧ d.takeJob.core.upload = d.core.upload
      ∧ d.takeJob.machine = d.machine := by
  cases channel with
  | disk =>
    rw [Device.takeJob_of_disk hphase hjob]
    exact ⟨rfl, rfl, rfl⟩
  | control =>
    rw [Device.takeJob_of_control hphase (hothers .disk Channel.noConfusion) hjob]
    exact ⟨rfl, rfl, rfl⟩

/-- The worker deals with the only job that waits, and leaves its answer. -/
theorem wrapUp_of_only (hphase : d.phase = .idle) (hjob : (d.core.slot channel).job = some job)
    (hothers : ∀ other, other ≠ channel → (d.core.slot other).job = none)
    (hlistener : job.listener.isSome = true) (hs : d.core.upload.Sound)
    (hqueue : d.machine.completions = []) :
    ∃ d' done, d.wrapUp = .ok d' ∧ d'.core.upload.Sound ∧ done.token = job.token
      ∧ d'.machine.completions = [Job.response done] := by
  obtain ⟨hheld, hupload, hmachine⟩ := takeJob_of_only hphase hjob hothers
  obtain ⟨done, htoken, hlistens, hdone, -, hupload', hqueue'⟩ := carryOut_of_holding _ hheld
  have hsound : d.takeJob.carryOut.core.upload.Sound := by
    rw [hupload', hupload]
    exact hs
  have hempty : d.takeJob.carryOut.machine.completions = [] := by
    rw [hqueue', hmachine]
    exact hqueue
  obtain ⟨d', hfinish, -, -, hsound', hanswer⟩ := finish_of_done _ hsound hdone
    (by rw [hlistens]; exact hlistener) (by rw [hempty]; decide)
  exact ⟨d', done, hfinish, hsound', htoken, by rw [hanswer, hempty, List.nil_append]⟩

end worker

namespace Service

variable {σ : Type} [Hardware σ] {s : Service σ} {command : Command}

/-- Whatever the command is, the service sends an answer that is due, and waits for the
    next command then. -/
theorem Ready.carry_any (h : s.Ready) (hs : s.device.core.upload.Sound)
    (hcommand : command.Fits .device) (events : List LineEvent) :
    ∃ t response, s.carry (Frame.wrap (Encode.command command)) events = .ok t
      ∧ t.endpoint.sent = Frame.wrap (Encode.response response)
      ∧ response.Fits .device ∧ response.Due s.nextToken
      ∧ t.collected.Ready ∧ t.device.core.upload.Sound ∧ t.nextToken = s.nextToken + 1 := by
  obtain ⟨core, outcome, hhandle, hhandles⟩ := s.device.core.handle_handles command s.nextToken
  have hsound : core.upload.Sound := Device.sound_of_handle hhandle hs
  cases hhandles with
  | status _ hcore =>
    obtain ⟨t, hcarry, hreplied⟩ := h.carry_answered hcommand hhandle rfl trivial events
    exact ⟨t, _, hcarry, hreplied.sent, trivial, nofun, hreplied.ready,
      by rw [hreplied.core]; exact hsound, hreplied.token⟩
  | acked status _ hanswer _ =>
    obtain ⟨t, hcarry, hreplied⟩ := h.carry_answered hcommand hhandle hanswer trivial events
    have hcore : t.device.core = core :=
      hreplied.core.trans (Attended.served_answered core hanswer).1
    refine ⟨t, _, hcarry, hreplied.sent, trivial, fun token htoken => ?_, hreplied.ready,
      by rw [hcore]; exact hsound, hreplied.token⟩
    exact (Option.some.inj htoken).symm
  | @queued job _ htoken hlistener hjob hothers =>
    have hnone : ∀ other, other ≠ command.channel → (core.slot other).job = none :=
      fun other hother => (hothers other hother).trans (h.noneWaits other)
    obtain ⟨d, done, hwrap, hsound', hdone, hqueue⟩ := wrapUp_of_only
      (d := { s.device with core }) h.phase hjob hnone hlistener hsound h.completions
    obtain ⟨t, hcarry, hreplied⟩ :=
      h.carry_pending hcommand hhandle done.response_fits hwrap hqueue events
    refine ⟨t, _, hcarry, hreplied.sent, done.response_fits, fun token htold => ?_,
      hreplied.ready, by rw [hreplied.core]; exact hsound', hreplied.token⟩
    rw [Job.token?_response] at htold
    rw [← Option.some.inj htold, hdone, htoken]

end Service

/-! ### A line with late answers -/

/-- A line over which answers to earlier commands come in late. -/
structure Laggard (σ : Type) where
  line : Line σ
  /-- What comes in before the answer to each command in turn. -/
  late : List (List Arrival)

/-- A frame goes over the line. -/
def Laggard.take {σ : Type} [Hardware σ] (p : Laggard σ) (frame : Bytes) :
    Delivery × Laggard σ :=
  let (delivery, line) := p.line.take frame
  (match delivery with
    | .sent arrived => .sent (p.late.headD [] ++ arrived)
    | other => other, ⟨line, p.late.tail⟩)

instance {σ : Type} [Hardware σ] : FarEnd (Laggard σ) where
  take := Laggard.take

theorem Laggard.take_of_answers {σ : Type} [Hardware σ] {p : Laggard σ} {command : Command}
    {response : Response} {l : Line σ} (h : Answers p.line command response l) :
    FarEnd.take p (Frame.wrap (Encode.command command))
      = (.sent (p.late.headD [] ++ (Frame.wrap (Encode.response response)).map .byte),
        ⟨l, p.late.tail⟩) := by
  change p.line.take _ = _ at h
  show p.take _ = _
  unfold take
  rw [h]

end Loader

/-! ### One exchange after the other -/

open Loader

/-- A command, and what comes in before its answer. -/
structure Round where
  command : Command
  /-- The answers to earlier commands. -/
  leftovers : List Response
  /-- How their bytes come in. -/
  arrivals : List Arrival

/-- A round in which the answers to earlier commands come in without a pause. -/
def Round.prompt (command : Command) (leftovers : List Response) : Round :=
  ⟨command, leftovers, leftovers.flatMap fun response =>
    (Frame.wrap (Encode.response response)).map .byte⟩

theorem Round.late_prompt (command : Command) (leftovers : List Response) :
    Late leftovers (prompt command leftovers).arrivals := by
  unfold prompt
  induction leftovers with
  | nil => exact .nil .nil
  | cons response rest ih =>
    rw [List.flatMap_cons, map_byte_wrap_append]
    exact .cons (Arrives.map_byte _) ih

/-- A round that can be, if its command gets the token `want`. -/
structure Round.Proper (round : Round) (want : UInt32) : Prop where
  command : round.command.Fits .device
  late : Late round.leftovers round.arrivals
  fits : ∀ response ∈ round.leftovers, response.Fits .device
  behind : ∀ response ∈ round.leftovers, response.Behind want

/-- The tokens of the answers that are skipped in some rounds. -/
def Round.skipped (rounds : List Round) : List UInt32 :=
  rounds.flatMap fun round => round.leftovers.filterMap Response.token?

/-- All through a conversation the host knows the token that the device gives the next
    command. Answers from before are told as such and change nothing about that. The
    service at the end of the line answers the command, its answer is the one that is
    due, and when the host has accepted it, it knows the next token again. -/
inductive InStep {σ : Type} [Hardware σ] : Line σ → List Round → List Response → Line σ → Prop where
  | nil (l : Line σ) : InStep l [] [] l
  | cons {l l' l'' : Line σ} {round : Round} {rounds : List Round} {reply : Response}
    {replies : List Response}
    (stale : ∀ response ∈ round.leftovers, ∃ token, response.token? = some token
      ∧ TokenCounter.check ⟨some l.service.nextToken⟩ response
        = (⟨some l.service.nextToken⟩, .stale token))
    (answers : Answers l round.command reply l')
    (due : reply.Due l.service.nextToken)
    (accepted : TokenCounter.check ⟨some l.service.nextToken⟩ reply
      = (⟨some l'.service.nextToken⟩, .accept))
    (rest : InStep l' rounds replies l'') : InStep l (round :: rounds) (reply :: replies) l''

theorem staleText_append (earlier later : List UInt32) :
    staleText (earlier ++ later) = staleText earlier ++ staleText later := by
  unfold staleText
  rw [List.map_append, String.join_append]

namespace Desk

section

variable {π : Type} (d : Desk π)

theorem asked_nil : d.asked [] d.farEnd = d := rfl

theorem warn_warn (earlier later : List UInt32) :
    (d.warn (staleText earlier)).warn (staleText later)
      = d.warn (staleText (earlier ++ later)) := by
  simp [warn, staleText_append, String.append_assoc]

end

variable {σ : Type} [Hardware σ] {d : Desk (Laggard σ)}

/-- One command is sent, and the host gets its answer, behind those from before. -/
theorem hold_ask_round {round : Round} (hready : d.farEnd.line.service.Ready)
    (hsound : d.farEnd.line.service.device.core.upload.Sound) (hbuffer : d.buffer = [])
    (hlate : d.farEnd.late.headD [] = round.arrivals)
    (hproper : round.Proper d.farEnd.line.service.nextToken) :
    ∃ reply l, Answers d.farEnd.line round.command reply l
      ∧ reply.Due d.farEnd.line.service.nextToken ∧ l.service.Ready
      ∧ l.service.device.core.upload.Sound
      ∧ l.service.nextToken = d.farEnd.line.service.nextToken + 1
      ∧ d.hold ⟨some d.farEnd.line.service.nextToken⟩ (ask round.command)
        = (.ok (reply, ⟨some l.service.nextToken⟩),
          (d.asked [round.command] ⟨l, d.farEnd.late.tail⟩).warn
            (staleText (round.leftovers.filterMap Response.token?))) := by
  obtain ⟨t, reply, hcarry, hsent, hfits, hdue, hready', hsound', htoken⟩ :=
    hready.carry_any hsound hproper.command (d.farEnd.line.schedule.headD [])
  have hanswers := Line.answers_of_carry hcarry hsent
  refine ⟨reply, _, hanswers, hdue, hready', hsound', htoken, ?_⟩
  have hheard : ∀ quiet, listen quiet ⟨some d.farEnd.line.service.nextToken⟩ #[]
      (d.farEnd.late.headD [] ++ (Frame.wrap (Encode.response reply)).map .byte)
      = ⟨.ok reply, ⟨some (d.farEnd.line.service.nextToken + 1)⟩,
        round.leftovers.filterMap Response.token?, []⟩ := by
    intro quiet
    rw [hlate]
    exact listen_due hproper.late hproper.fits hproper.behind hfits hdue
  rw [hold_ask_of_heard hproper.command hbuffer (Laggard.take_of_answers hanswers) hheard]
  refine Prod.ext (congrArg (fun token => Except.ok (reply, (⟨some token⟩ : TokenCounter)))
    htoken.symm) ?_
  exact congrArg (fun buffer => { (d.asked [round.command] ⟨_, d.farEnd.late.tail⟩).warn
    (staleText (round.leftovers.filterMap Response.token?)) with buffer }) hbuffer.symm

/-- A conversation of some rounds. -/
theorem hold_rounds {rounds : List Round} (hready : d.farEnd.line.service.Ready)
    (hsound : d.farEnd.line.service.device.core.upload.Sound) (hbuffer : d.buffer = [])
    (hlate : d.farEnd.late = rounds.map Round.arrivals)
    (hproper : ∀ (i : Nat) (round : Round), rounds[i]? = some round →
      round.Proper (d.farEnd.line.service.nextToken + UInt32.ofNat i)) :
    ∃ replies p, InStep d.farEnd.line rounds replies p.line
      ∧ p.line.service.nextToken
        = d.farEnd.line.service.nextToken + UInt32.ofNat rounds.length
      ∧ d.hold ⟨some d.farEnd.line.service.nextToken⟩ ((rounds.map Round.command).mapM ask)
        = (.ok (replies, ⟨some p.line.service.nextToken⟩),
          (d.asked (rounds.map Round.command) p).warn (staleText (Round.skipped rounds))) := by
  induction rounds generalizing d with
  | nil =>
    refine ⟨[], d.farEnd, .nil _, (UInt32.add_zero _).symm, ?_⟩
    rw [List.map_nil, asked_nil, show Round.skipped [] = [] from rfl, warn_nil]
    rfl
  | cons round rounds ih =>
    have hfirst : round.Proper d.farEnd.line.service.nextToken := by
      have hzero := hproper 0 round rfl
      rwa [show UInt32.ofNat 0 = 0 from rfl, UInt32.add_zero] at hzero
    obtain ⟨reply, l, hanswers, hdue, hready', hsound', htoken, hheld⟩ :=
      hold_ask_round hready hsound hbuffer (by rw [hlate]; rfl) hfirst
    have hnext : ∀ n : Nat, l.service.nextToken + UInt32.ofNat n
        = d.farEnd.line.service.nextToken + UInt32.ofNat (n + 1) := by
      intro n
      rw [htoken, UInt32.add_assoc, UInt32.add_comm 1, UInt32.ofNat_add]
      rfl
    let d' := (d.asked [round.command] ⟨l, d.farEnd.late.tail⟩).warn
      (staleText (round.leftovers.filterMap Response.token?))
    have hlate' : d'.farEnd.late = rounds.map Round.arrivals := congrArg List.tail hlate
    have hproper' : ∀ (i : Nat) (later : Round), rounds[i]? = some later →
        later.Proper (d'.farEnd.line.service.nextToken + UInt32.ofNat i) := by
      intro i later hlater
      show later.Proper (l.service.nextToken + _)
      rw [hnext]
      exact hproper (i + 1) later hlater
    obtain ⟨replies, p, hsteps, hlast, hrest⟩ :=
      ih (d := d') hready' hsound' hbuffer hlate' hproper'
    refine ⟨reply :: replies, p, .cons (fun response hresponse => ?_) hanswers hdue ?_ hsteps,
      hlast.trans (hnext _), ?_⟩
    · exact TokenCounter.check_of_behind (hfirst.behind response hresponse)
    · rw [htoken]
      exact TokenCounter.check_of_due hdue
    · rw [List.map_cons, List.mapM_cons]
      refine (hold_bind hheld _).trans ?_
      refine (hold_bind hrest _).trans ?_
      have hdesk : (d'.asked (rounds.map Round.command) p).warn (staleText (Round.skipped rounds))
          = (d.asked (round.command :: rounds.map Round.command) p).warn
              (staleText (Round.skipped (round :: rounds))) := by
        rw [asked_warn, warn_warn, asked_asked]
        rfl
      exact congrArg
        (Except.ok (reply :: replies, (⟨some p.line.service.nextToken⟩ : TokenCounter)), ·) hdesk

/-- When an answer that is astray comes in, the command fails. -/
theorem hold_ask_astray {round : Round} {stray : Response} {want token : UInt32}
    {more : List Arrival} (hbuffer : d.buffer = []) (hproper : round.Proper want)
    (hfits : stray.Fits .device) (hastray : stray.Astray want)
    (htoken : stray.token? = some token)
    (htake : (FarEnd.take d.farEnd (Frame.wrap (Encode.command round.command))).1
      = .sent (round.arrivals ++ ((Frame.wrap (Encode.response stray)).map .byte ++ more))) :
    (d.hold ⟨some want⟩ (ask round.command)).1 = .error (.wrongToken token want) := by
  have hheard : ∀ quiet, listen quiet ⟨some want⟩ #[]
      (round.arrivals ++ ((Frame.wrap (Encode.response stray)).map .byte ++ more))
      = ⟨.error (.wrongToken token want), .unknown, round.leftovers.filterMap Response.token?,
        more⟩ := by
    intro quiet
    obtain ⟨token', htoken', hlost⟩ :=
      listen_astray hproper.late hproper.fits hproper.behind hfits hastray more
    rw [hlost, Option.some.inj (htoken.symm.trans htoken')]
  rw [hold_ask_of_heard hproper.command hbuffer (Prod.ext htake rfl) hheard]
  rfl

/-- The host knows the token of the next command, and holds a conversation with a service
    that waits for it, wherever the count of the two stands. Before each answer others may
    come in, to as many commands as there are tokens on half the way round. The tool skips
    these and warns of them, it gets the answer to every command, and after each exchange
    it still knows the next token. An answer that bears any other token is refused, and
    the count is lost then. -/
theorem stays_in_step {rounds : List Round} (hready : d.farEnd.line.service.Ready)
    (hsound : d.farEnd.line.service.device.core.upload.Sound) (hbuffer : d.buffer = [])
    (hlate : d.farEnd.late = rounds.map Round.arrivals)
    (hproper : ∀ (i : Nat) (round : Round), rounds[i]? = some round →
      round.Proper (d.farEnd.line.service.nextToken + UInt32.ofNat i)) :
    (∃ replies p, InStep d.farEnd.line rounds replies p.line
      ∧ p.line.service.nextToken
        = d.farEnd.line.service.nextToken + UInt32.ofNat rounds.length
      ∧ d.hold ⟨some d.farEnd.line.service.nextToken⟩ ((rounds.map Round.command).mapM ask)
        = (.ok (replies, ⟨some p.line.service.nextToken⟩),
          (d.asked (rounds.map Round.command) p).warn (staleText (Round.skipped rounds))))
    ∧ ∀ (want : UInt32) (stray : Response), stray.Astray want →
      ∃ token, stray.token? = some token
        ∧ TokenCounter.check ⟨some want⟩ stray = (.unknown, .lost token want)
        ∧ ∀ (e : Desk (Laggard σ)) (round : Round) (more : List Arrival), e.buffer = [] →
          round.Proper want → stray.Fits .device →
          (FarEnd.take e.farEnd (Frame.wrap (Encode.command round.command))).1
            = .sent (round.arrivals ++ ((Frame.wrap (Encode.response stray)).map .byte ++ more)) →
          (e.hold ⟨some want⟩ (ask round.command)).1 = .error (.wrongToken token want) := by
  refine ⟨hold_rounds hready hsound hbuffer hlate hproper, fun want stray hastray => ?_⟩
  obtain ⟨token, htoken, hcheck⟩ := TokenCounter.check_of_astray hastray
  refine ⟨token, htoken, hcheck, fun e round more hempty hround hfits htake => ?_⟩
  exact hold_ask_astray hempty hround hfits hastray htoken htake

/-- A line to a loader that gives the last token there is to the next command. The first
    frame comes in as two packets. -/
def lineBeforeWrap : Line Rp2040.Chip :=
  { service := { UpdateMode.service .unused with nextToken := 0xFFFFFFFF }
    schedule := [[.arrive ⟨0, by decide⟩, .interrupt]]
    answers := [] }

/-- Three rounds, with answers from just before and from half the way round. -/
def roundsOverWrap : List Round :=
  [ .prompt .getStatus [.ack 0xFFFFFFFE .ok],
    .prompt (.read 0x20000000 4) [.data 0x80000000 .ok [1, 2], .ack 0xFFFFFFFF .disabled],
    ⟨.exclusiveAccess .exclusive, [], [.timeout]⟩ ]

/-- The tool at the other end of this line. -/
def deskBeforeWrap : Desk (Laggard Rp2040.Chip) :=
  .bare [] ⟨lineBeforeWrap, roundsOverWrap.map Round.arrivals⟩

/-- The count goes on over its end. -/
theorem stays_in_step_wrapping :
    (∃ replies p, InStep lineBeforeWrap roundsOverWrap replies p.line
      ∧ deskBeforeWrap.hold ⟨some 0xFFFFFFFF⟩ ((roundsOverWrap.map Round.command).mapM ask)
        = (.ok (replies, ⟨some 2⟩),
          (deskBeforeWrap.asked (roundsOverWrap.map Round.command) p).warn
            (staleText [0xFFFFFFFE, 0x80000000, 0xFFFFFFFF])))
    ∧ TokenCounter.check ⟨some 0⟩ (.ack 1 .ok) = (.unknown, .lost 1 0) := by
  have hready : lineBeforeWrap.service.Ready :=
    ⟨⟨rfl, rfl, rfl, rfl, rfl, rfl⟩, rfl, List.not_mem_nil⟩
  have hsound : lineBeforeWrap.service.device.core.upload.Sound := fun hn => absurd rfl hn
  have hproper : ∀ (i : Nat) (round : Round), roundsOverWrap[i]? = some round →
      round.Proper (0xFFFFFFFF + UInt32.ofNat i) := by
    intro i round hround
    match i with
    | 0 =>
      cases hround
      refine ⟨trivial, Round.late_prompt _ _, List.forall_mem_singleton.mpr trivial,
        List.forall_mem_singleton.mpr ?_⟩
      exact ⟨1, by decide, by decide, rfl⟩
    | 1 =>
      cases hround
      have hbytes : Response.Fits .device (.data 0x80000000 .ok [1, 2]) :=
        Limits.admits_page (by decide)
      refine ⟨trivial, Round.late_prompt _ _,
        List.forall_mem_cons.mpr ⟨hbytes, List.forall_mem_singleton.mpr trivial⟩,
        List.forall_mem_cons.mpr ⟨?_, List.forall_mem_singleton.mpr ?_⟩⟩
      · exact ⟨2 ^ 31, by decide, by decide, rfl⟩
      · exact ⟨1, by decide, by decide, rfl⟩
    | 2 =>
      cases hround
      exact ⟨trivial, .nil (.timeout .nil), nofun, nofun⟩
    | n + 3 => cases hround
  have hastray : Response.Astray (.ack 1 .ok) 0 := by
    refine ⟨fun hdue => absurd (hdue 1 rfl) (by decide), ?_⟩
    rw [TokenCounter.behind_iff rfl]
    decide
  obtain ⟨⟨replies, p, hsteps, hlast, hheld⟩, hlost⟩ := stays_in_step (d := deskBeforeWrap)
    hready hsound rfl rfl hproper
  have htwo : p.line.service.nextToken = 2 := hlast
  rw [htwo] at hheld
  refine ⟨⟨replies, p, hsteps, hheld⟩, ?_⟩
  obtain ⟨token, htoken, hcheck, -⟩ := hlost 0 (.ack 1 .ok) hastray
  cases htoken
  exact hcheck

end Desk

end Reflash
