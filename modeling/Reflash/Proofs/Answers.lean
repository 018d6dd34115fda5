import Mathlib.Data.List.Count
import Mathlib.Data.List.Nodup
import Reflash.Bench.Panel
import Reflash.Proofs.Attended
/-! # Every command is answered once

  A command that asks for the status is answered on the spot. Every other one has a
  token that is at each moment in exactly one place: it was answered, its job waits in
  a slot or is with the worker, its answer waits to be sent, or its job was displaced.

  `census` lists the tokens that are somewhere, `owed` those that ought to be. The
  invariant `Accounted` says that one is the other in some order, so that no step loses
  a token or makes a second one of it; and tokens are counted from one, so that they
  are all different as long as the count does not come round.
-/

namespace Reflash

namespace Loader

/-! ### Places -/

/-- Where the token of a command can be. -/
inductive Place where
  | answered
  | waiting (channel : Channel)
  /-- The worker has the job. -/
  | inFlight
  /-- The answer waits to be sent. -/
  | queued
  | displaced
deriving DecidableEq

/-- All places. -/
def Place.all : List Place :=
  [.answered, .waiting .disk, .waiting .control, .inFlight, .queued, .displaced]

theorem Place.mem_all (place : Place) : place ∈ all := by
  cases place with
  | waiting channel => cases channel <;> decide
  | _ => decide

namespace Exchange

/-- The command that was taken in, with its token. -/
def asked? : Exchange → Option (UInt32 × Command)
  | .asked token command => some (token, command)
  | _ => none

/-- The answer that was sent. -/
def answer? : Exchange → Option Response
  | .answered response => some response
  | _ => none

/-- The token that was answered. -/
def answered? (e : Exchange) : Option UInt32 := e.answer?.bind Response.token?

/-- The token of the command that was lost. -/
def lost? : Exchange → Option UInt32
  | .displaced token _ => some token
  | _ => none

/-- The commands in a log, with their tokens. -/
def commands (log : List Exchange) : List (UInt32 × Command) := log.filterMap asked?

/-- The tokens of the commands that are not answered on the spot. -/
def owed (log : List Exchange) : List UInt32 :=
  ((commands log).filter fun p => p.2 != .getStatus).map Prod.fst

/-- Each question about the status is followed by its answer, and that answer stands
    nowhere else. The log has the latest first. -/
def Prompt : List Exchange → Prop
  | [] => True
  | .answered (.status ..) :: .asked _ .getStatus :: earlier => Prompt earlier
  | .answered (.status ..) :: _ => False
  | .asked _ .getStatus :: _ => False
  | _ :: earlier => Prompt earlier

end Exchange

namespace View

/-- The tokens at a place. -/
def tokensAt (v : View) : Place → List UInt32
  | .answered => v.log.filterMap Exchange.answered?
  | .waiting channel => ((v.slot channel).map Job.token).toList
  | .inFlight => (v.working.map Job.token).toList
  | .queued => v.completions.filterMap Response.token?
  | .displaced => v.log.filterMap Exchange.lost?

/-- The tokens that are somewhere. -/
def census (v : View) : List UInt32 := Place.all.flatMap v.tokensAt

/-- The commands that were taken in, with their tokens, the latest first. -/
def asked (v : View) : List (UInt32 × Command) := Exchange.commands v.log

/-- The tokens that ought to be somewhere. -/
def owed (v : View) : List UInt32 := Exchange.owed v.log

/-- The answers that were sent, the latest first. -/
def answers (v : View) : List Response := v.log.filterMap Exchange.answer?

/-- The tokens that are at one place or at another, and the rest. -/
theorem exists_census_perm {source target : Place} (hne : source ≠ target) :
    ∃ rest : List Place, (∀ place ∈ rest, place ≠ source ∧ place ≠ target) ∧ ∀ v : View,
      v.census.Perm (v.tokensAt source ++ (v.tokensAt target ++ rest.flatMap v.tokensAt)) := by
  have hnodup : Place.all.Nodup := by decide
  have htarget : target ∈ Place.all.erase source :=
    hnodup.mem_erase_iff.mpr ⟨hne.symm, Place.mem_all target⟩
  refine ⟨(Place.all.erase source).erase target, fun place hplace => ?_, fun v => ?_⟩
  · obtain ⟨htarget, hplace⟩ := (hnodup.erase source).mem_erase_iff.mp hplace
    exact ⟨(hnodup.mem_erase_iff.mp hplace).1, htarget⟩
  · have hperm : Place.all.Perm (source :: target :: (Place.all.erase source).erase target) :=
      (List.perm_cons_erase (Place.mem_all source)).trans (.cons _ (List.perm_cons_erase htarget))
    exact hperm.flatMap_right v.tokensAt

/-- Tokens go from one place to another, and new ones come to the first. -/
theorem census_perm_of_moved {v v' : View} (h : v.census.Perm v.owed) (source target : Place)
    (moved new : List UInt32) (hne : source ≠ target)
    (hsource : (v'.tokensAt source ++ moved).Perm (new ++ v.tokensAt source))
    (htarget : (v'.tokensAt target).Perm (moved ++ v.tokensAt target))
    (hother : ∀ place, place ≠ source → place ≠ target → v'.tokensAt place = v.tokensAt place)
    (howed : v'.owed = new ++ v.owed) : v'.census.Perm v'.owed := by
  obtain ⟨rest, hrest, hcensus⟩ := exists_census_perm hne
  have hsame : rest.flatMap v'.tokensAt = rest.flatMap v.tokensAt :=
    List.flatMap_congr fun place hplace =>
      hother place (hrest place hplace).1 (hrest place hplace).2
  calc List.Perm v'.census
        (v'.tokensAt source ++ (v'.tokensAt target ++ rest.flatMap v.tokensAt)) := by
        rw [← hsame]
        exact hcensus v'
    List.Perm _ (v'.tokensAt source ++ (moved ++ v.tokensAt target ++ rest.flatMap v.tokensAt)) :=
        (htarget.append_right _).append_left _
    List.Perm _ (new ++ (v.tokensAt source ++ (v.tokensAt target ++ rest.flatMap v.tokensAt))) := by
        rw [List.append_assoc, ← List.append_assoc, ← List.append_assoc new]
        exact hsource.append_right _
    List.Perm _ (new ++ v.owed) := ((hcensus v).symm.trans h).append_left _
    List.Perm _ v'.owed := by rw [howed]

/-! ### The books -/

/-- The books of a view. -/
structure Accounted (v : View) : Prop where
  /-- Every token that is owed is somewhere, once. -/
  census : v.census.Perm v.owed
  /-- Tokens are counted from one. -/
  numbered : v.asked.map Prod.fst
    = ((List.range v.asked.length).map fun i => UInt32.ofNat (i + 1)).reverse
  next : v.nextToken = UInt32.ofNat (v.asked.length + 1)
  prompt : Exchange.Prompt v.log
  /-- What waits in a slot is for a command that goes through it. -/
  waiting : ∀ channel job, v.slot channel = some job →
    ∃ command, .asked job.token command ∈ v.log ∧ command.channel = channel
  /-- A job is displaced by that of a later command that goes through the same slot. -/
  displaced : ∀ token winner, .displaced token winner ∈ v.log → ∃ loser victor,
    [.displaced token winner, .asked winner victor, .asked token loser].Sublist v.log
      ∧ loser.channel = victor.channel
  /-- The frames of the answers are what was sent. -/
  sent : v.sent = v.answers.reverse.flatMap fun r => Frame.wrap (Encode.response r)

theorem accounted_fresh {σ : Type} [Hardware σ] (chip : σ) (upload : Upload) :
    (Attended.fresh chip upload).view.Accounted where
  census := .refl _
  numbered := rfl
  next := rfl
  prompt := trivial
  waiting := fun channel job h => by cases channel <;> cases h
  displaced := fun token winner h => by cases h
  sent := rfl

end View

namespace Exchange

variable {log : List Exchange} {token : UInt32}

/-! What an entry adds to a log. -/

theorem filterMap_answered (response : Response) (log : List Exchange) :
    (answered response :: log).filterMap answered?
      = response.token?.toList ++ log.filterMap answered? := by
  cases htoken : response.token? with
  | none => exact List.filterMap_cons_none htoken
  | some token => exact List.filterMap_cons_some htoken

theorem owed_asked (token : UInt32) (command : Command) (log : List Exchange) :
    owed (.asked token command :: log)
      = (if command = .getStatus then [] else [token]) ++ owed log := by
  have hcommands : commands (.asked token command :: log) = (token, command) :: commands log :=
    List.filterMap_cons_some rfl
  unfold owed
  rw [hcommands, List.filter_cons]
  by_cases hstatus : command = .getStatus
  · rw [if_pos hstatus, if_neg (by simp [hstatus])]
    rfl
  · rw [if_neg hstatus, if_pos (by simp [hstatus])]
    rfl

theorem filterMap_displaced {α : Type} {f : Exchange → Option α}
    (hf : ∀ token winner, f (.displaced token winner) = none) (lost : List Job) (winner : UInt32)
    (log : List Exchange) :
    (lost.map (fun job => displaced job.token winner) ++ log).filterMap f = log.filterMap f := by
  induction lost with
  | nil => rfl
  | cons job lost ih => exact (List.filterMap_cons_none (hf _ _)).trans ih

theorem filterMap_lost (lost : List Job) (winner : UInt32) (log : List Exchange) :
    (lost.map (fun job => Exchange.displaced job.token winner) ++ log).filterMap lost?
      = lost.map Job.token ++ log.filterMap lost? := by
  induction lost with
  | nil => rfl
  | cons job lost ih => exact congrArg (job.token :: ·) ih

theorem prompt_answered {response : Response} (h : response.token? = some token)
    (hlog : Prompt log) : Prompt (.answered response :: log) := by
  cases response with
  | status => cases h
  | ack => exact hlog
  | data => exact hlog

theorem prompt_asked {command : Command} (h : command ≠ .getStatus) (hlog : Prompt log) :
    Prompt (.asked token command :: log) := by
  cases command with
  | getStatus => exact absurd rfl h
  | _ => exact hlog

theorem prompt_displaced {lost : List Job} {winner : UInt32} (hlog : Prompt log) :
    Prompt (lost.map (fun job => .displaced job.token winner) ++ log) := by
  induction lost with
  | nil => exact hlog
  | cons job lost ih => exact ih

end Exchange

namespace View

variable {v : View}

/-- The next command gets the next number. -/
theorem Accounted.numbered_cons (h : v.Accounted) (command : Command) :
    ((v.nextToken, command) :: v.asked).map Prod.fst
        = ((List.range (v.asked.length + 1)).map fun i => UInt32.ofNat (i + 1)).reverse
      ∧ v.nextToken + 1 = UInt32.ofNat (v.asked.length + 1 + 1) := by
  refine ⟨?_, ?_⟩
  · rw [List.map_cons, h.numbered, h.next, List.range_succ, List.map_append, List.reverse_append]
    rfl
  · rw [h.next, UInt32.ofNat_add (v.asked.length + 1) 1]
    rfl

/-- What was displaced stays so, and the commands stay in their order. -/
theorem Accounted.displaced_append (h : v.Accounted) (es : List Exchange)
    (hes : ∀ token winner, .displaced token winner ∉ es) (token winner : UInt32)
    (hmem : .displaced token winner ∈ es ++ v.log) : ∃ loser victor,
      [.displaced token winner, .asked winner victor, .asked token loser].Sublist (es ++ v.log)
        ∧ loser.channel = victor.channel := by
  obtain ⟨loser, victor, hsublist, hchannel⟩ :=
    h.displaced token winner ((List.mem_append.mp hmem).resolve_left (hes token winner))
  exact ⟨loser, victor, hsublist.trans (List.sublist_append_right _ _), hchannel⟩

theorem Accounted.waiting_append (h : v.Accounted) (es : List Exchange) {channel : Channel}
    {job : Job} (hjob : v.slot channel = some job) :
    ∃ command, .asked job.token command ∈ es ++ v.log ∧ command.channel = channel := by
  obtain ⟨command, hmem, hchannel⟩ := h.waiting channel job hjob
  exact ⟨command, List.mem_append_right _ hmem, hchannel⟩

/-- A command that is answered at once keeps the books in order. -/
theorem Accounted.answered (h : v.Accounted) {command : Command} {response : Response}
    (htoken : response.token? = if command = .getStatus then none else some v.nextToken)
    (hprompt : Exchange.Prompt (.answered response :: .asked v.nextToken command :: v.log)) :
    Accounted { v with
      nextToken := v.nextToken + 1
      sent := v.sent ++ Frame.wrap (Encode.response response)
      log := .answered response :: .asked v.nextToken command :: v.log } := by
  obtain ⟨hnumbered, hnext⟩ := h.numbered_cons command
  refine ⟨?_, hnumbered, hnext, hprompt, ?_, ?_, ?_⟩
  · refine census_perm_of_moved h.census .answered .queued [] response.token?.toList nofun ?_
      (.refl _) (fun place hne _ => ?_) ?_
    · rw [List.append_nil]
      exact .of_eq (Exchange.filterMap_answered response (.asked v.nextToken command :: v.log))
    · cases place <;> first | rfl | exact absurd rfl hne
    · rw [htoken]
      refine (Exchange.owed_asked v.nextToken command v.log).trans (congrArg (· ++ v.owed) ?_)
      by_cases hstatus : command = .getStatus
      · rw [if_pos hstatus, if_pos hstatus]
        rfl
      · rw [if_neg hstatus, if_neg hstatus]
        rfl
  · intro channel job hjob
    exact h.waiting_append [.answered response, .asked v.nextToken command] hjob
  · exact h.displaced_append [.answered response, .asked v.nextToken command] (by simp)
  · rw [h.sent]
    simp [answers, List.filterMap_cons, Exchange.answer?, List.flatMap_append]

/-- A job that is left for a command may displace another one. -/
theorem Accounted.queued (h : v.Accounted) {command : Command} {job : Job}
    (hother : command ≠ .getStatus) (htoken : job.token = v.nextToken) :
    Accounted { v with
      slot := Function.update v.slot command.channel (some job)
      nextToken := v.nextToken + 1
      log := ((v.slot command.channel).toList.map fun lost =>
        .displaced lost.token v.nextToken) ++ .asked v.nextToken command :: v.log } := by
  obtain ⟨hnumbered, hnext⟩ := h.numbered_cons command
  have hcommands : Exchange.commands (((v.slot command.channel).toList.map fun lost =>
      .displaced lost.token v.nextToken) ++ .asked v.nextToken command :: v.log)
      = (v.nextToken, command) :: v.asked :=
    Exchange.filterMap_displaced (f := Exchange.asked?) (fun _ _ => rfl) _ _ _
  refine ⟨?_, ?_, ?_, Exchange.prompt_displaced (Exchange.prompt_asked hother h.prompt), ?_, ?_, ?_⟩
  · refine census_perm_of_moved h.census (.waiting command.channel) .displaced
      ((v.slot command.channel).toList.map Job.token) [v.nextToken] nofun ?_ ?_
      (fun place hwaiting hdisplaced => ?_) ?_
    · refine .of_eq ?_
      show
        ((Function.update v.slot command.channel (some job) command.channel).map Job.token).toList
          ++ _ = [v.nextToken] ++ ((v.slot command.channel).map Job.token).toList
      rw [Function.update_self, Option.map_some, htoken, Option.toList_map]
      rfl
    · exact .of_eq (Exchange.filterMap_lost _ _ _)
    · cases place with
      | displaced => exact absurd rfl hdisplaced
      | answered => exact Exchange.filterMap_displaced (fun _ _ => rfl) _ _ _
      | inFlight => rfl
      | queued => rfl
      | waiting channel =>
        have hchannel : channel ≠ command.channel :=
          fun heq => hwaiting (congrArg Place.waiting heq)
        show ((Function.update v.slot command.channel (some job) channel).map Job.token).toList = _
        rw [Function.update_of_ne hchannel]
        rfl
    · show ((Exchange.commands _).filter _).map Prod.fst = _
      rw [hcommands]
      exact (Exchange.owed_asked v.nextToken command v.log).trans
        (congrArg (· ++ v.owed) (if_neg hother))
  · show (Exchange.commands _).map Prod.fst = _
    unfold asked
    rw [hcommands]
    exact hnumbered
  · show v.nextToken + 1 = UInt32.ofNat ((Exchange.commands _).length + 1)
    rw [hcommands]
    exact hnext
  · intro channel waiting hwaiting
    change Function.update v.slot command.channel (some job) channel = some waiting at hwaiting
    by_cases hchannel : channel = command.channel
    · subst hchannel
      rw [Function.update_self] at hwaiting
      cases hwaiting
      rw [htoken]
      exact ⟨command, List.mem_append_right _ List.mem_cons_self, rfl⟩
    · rw [Function.update_of_ne hchannel] at hwaiting
      obtain ⟨other, hmem, hother⟩ := h.waiting channel waiting hwaiting
      exact ⟨other, List.mem_append_right _ (List.mem_cons_of_mem _ hmem), hother⟩
  · intro token winner hmem
    rcases List.mem_append.mp hmem with hnew | hold
    · -- The job that is displaced came from a command that is in the log.
      obtain ⟨lost, hlost, heq⟩ := List.mem_map.mp hnew
      cases heq
      have hslot : v.slot command.channel = some lost := Option.mem_toList.mp hlost
      obtain ⟨loser, hloser, hchannel⟩ := h.waiting command.channel lost hslot
      refine ⟨loser, command, ?_, hchannel⟩
      show [_, _, _].Sublist (((v.slot command.channel).toList.map fun lost =>
        .displaced lost.token v.nextToken) ++ .asked v.nextToken command :: v.log)
      rw [hslot]
      exact .cons_cons _ (.cons_cons _ (List.singleton_sublist.mpr hloser))
    · obtain ⟨loser, victor, hsublist, hchannel⟩ :=
        h.displaced_append [.asked v.nextToken command] (by simp) token winner hold
      exact ⟨loser, victor, hsublist.trans (List.sublist_append_right _ _), hchannel⟩
  · show v.sent = (List.filterMap Exchange.answer? _).reverse.flatMap _
    rw [Exchange.filterMap_displaced (fun _ _ => rfl), h.sent]
    rfl

/-- An answer that waited is sent. -/
theorem Accounted.sent_answer (h : v.Accounted) {response : Response} {rest : List Response}
    {token : UInt32} (hwaiting : v.completions = response :: rest)
    (htoken : response.token? = some token) :
    Accounted { v with
      completions := rest
      sent := v.sent ++ Frame.wrap (Encode.response response)
      log := .answered response :: v.log } := by
  refine ⟨?_, h.numbered, h.next, Exchange.prompt_answered htoken h.prompt, ?_, ?_, ?_⟩
  · refine census_perm_of_moved h.census .queued .answered [token] [] nofun ?_ ?_
      (fun place hqueued hanswered => ?_) rfl
    · show (rest.filterMap Response.token? ++ [token]).Perm
        (v.completions.filterMap Response.token?)
      rw [hwaiting, List.filterMap_cons_some htoken]
      exact List.perm_append_singleton _ _
    · refine .of_eq ((Exchange.filterMap_answered response v.log).trans ?_)
      rw [htoken]
      rfl
    · cases place <;> first | rfl | exact absurd rfl hqueued | exact absurd rfl hanswered
  · intro channel job hjob
    exact h.waiting_append [.answered response] hjob
  · exact h.displaced_append [.answered response] (by simp)
  · rw [h.sent]
    simp [answers, Exchange.answer?, List.flatMap_append]

/-- The worker takes a job out of its slot. -/
theorem Accounted.taken (h : v.Accounted) {channel : Channel} {job : Job}
    (hworking : v.working = none) (hslot : v.slot channel = some job) :
    Accounted { v with slot := Function.update v.slot channel none, working := some job } := by
  refine ⟨?_, h.numbered, h.next, h.prompt, ?_, h.displaced, h.sent⟩
  · refine census_perm_of_moved h.census (.waiting channel) .inFlight [job.token] [] nofun ?_ ?_
      (fun place hwaiting hinFlight => ?_) rfl
    · refine .of_eq ?_
      show ((Function.update v.slot channel none channel).map Job.token).toList ++ _
        = ((v.slot channel).map Job.token).toList
      rw [Function.update_self, hslot]
      rfl
    · refine .of_eq ?_
      show [job.token] = [job.token] ++ (v.working.map Job.token).toList
      rw [hworking]
      rfl
    · cases place with
      | inFlight => exact absurd rfl hinFlight
      | waiting other =>
        have hother : other ≠ channel := fun heq => hwaiting (congrArg Place.waiting heq)
        show ((Function.update v.slot channel none other).map Job.token).toList = _
        rw [Function.update_of_ne hother]
        rfl
      | _ => rfl
  · intro other waiting hwaiting
    change Function.update v.slot channel none other = some waiting at hwaiting
    by_cases hother : other = channel
    · subst hother
      rw [Function.update_self] at hwaiting
      cases hwaiting
    · rw [Function.update_of_ne hother] at hwaiting
      exact h.waiting other waiting hwaiting

/-- The worker carries a job out. -/
theorem Accounted.carriedOut (h : v.Accounted) {job done : Job} (hworking : v.working = some job)
    (htoken : done.token = job.token) : Accounted { v with working := some done } := by
  refine ⟨?_, h.numbered, h.next, h.prompt, h.waiting, h.displaced, h.sent⟩
  refine census_perm_of_moved h.census .inFlight .queued [] [] nofun ?_ (.refl _)
    (fun place hinFlight _ => ?_) rfl
  · refine .of_eq ?_
    show [done.token] ++ [] = (v.working.map Job.token).toList
    rw [hworking, htoken]
    rfl
  · cases place <;> first | rfl | exact absurd rfl hinFlight

/-- The worker leaves the answer about a job. -/
theorem Accounted.told (h : v.Accounted) {job : Job} (hworking : v.working = some job) :
    Accounted { v with working := none, completions := v.completions ++ [job.response] } := by
  refine ⟨?_, h.numbered, h.next, h.prompt, h.waiting, h.displaced, h.sent⟩
  refine census_perm_of_moved h.census .inFlight .queued [job.token] [] nofun ?_ ?_
    (fun place hinFlight hqueued => ?_) rfl
  · refine .of_eq ?_
    show [job.token] = (v.working.map Job.token).toList
    rw [hworking]
    rfl
  · show ((v.completions ++ [job.response]).filterMap Response.token?).Perm _
    rw [List.filterMap_append, List.filterMap_cons_some job.token?_response]
    exact List.perm_append_comm
  · cases place <;> first | rfl | exact absurd rfl hinFlight | exact absurd rfl hqueued

/-- Every step keeps the books in order. -/
theorem Accounted.step {v' : View} (h : v.Accounted) (hstep : v.Step v') : v'.Accounted := by
  cases hstep with
  | same => exact h
  | status => exact h.answered rfl h.prompt
  | acked hother =>
    exact h.answered (if_neg hother).symm
      (Exchange.prompt_answered rfl (Exchange.prompt_asked hother h.prompt))
  | queued hother htoken => exact h.queued hother htoken
  | sent hwaiting htoken => exact h.sent_answer hwaiting htoken
  | taken hworking hslot => exact h.taken hworking hslot
  | carriedOut hworking htoken => exact h.carriedOut hworking htoken
  | told hworking => exact h.told hworking

/-! ### Every command -/

/-- The commands so far are answered once each, or will be, or were displaced. -/
structure AnsweredOnce (v : View) : Prop where
  /-- No two commands have the same token. -/
  tokens : (v.asked.map Prod.fst).Nodup
  /-- A command that does not ask for the status is at one place, and there once. -/
  onePlace : ∀ token command, (token, command) ∈ v.asked → command ≠ .getStatus →
    ∃ place, (v.tokensAt place).count token = 1 ∧ ∀ other, other ≠ place → token ∉ v.tokensAt other
  /-- Nothing else is anywhere. -/
  noOther : ∀ place, ∀ token ∈ v.tokensAt place,
    ∃ command, command ≠ .getStatus ∧ (token, command) ∈ v.asked
  /-- No command is answered twice. -/
  once : (v.tokensAt .answered).Nodup
  /-- What waits in a slot is for a command that goes through it. -/
  waiting : ∀ channel, ∀ token ∈ v.tokensAt (.waiting channel),
    ∃ command, (token, command) ∈ v.asked ∧ command.channel = channel
  /-- A command is displaced by a later one that goes through the same slot. -/
  displaced : ∀ token winner, .displaced token winner ∈ v.log → ∃ loser victor,
    [.displaced token winner, .asked winner victor, .asked token loser].Sublist v.log
      ∧ loser.channel = victor.channel
  /-- A question about the status is answered at once, and once. -/
  prompt : Exchange.Prompt v.log
  /-- What went out are the frames of the answers, in order. -/
  sent : v.sent = v.answers.reverse.flatMap fun r => Frame.wrap (Encode.response r)
  /-- There is room for one more answer. -/
  room : v.completions.length < completionSlots

theorem Accounted.nodup_tokens (h : v.Accounted) (hfew : v.asked.length < UInt32.size) :
    (v.asked.map Prod.fst).Nodup := by
  rw [h.numbered, List.nodup_reverse]
  refine List.Nodup.map_on ?_ List.nodup_range
  intro i hi j hj heq
  rw [List.mem_range] at hi hj
  have hvalue := congrArg UInt32.toNat heq
  have hsize : UInt32.size = 4294967296 := rfl
  rw [UInt32.toNat_ofNat_of_lt' (by omega), UInt32.toNat_ofNat_of_lt' (by omega)] at hvalue
  omega

theorem mem_owed {token : UInt32} :
    token ∈ v.owed ↔ ∃ command, command ≠ .getStatus ∧ (token, command) ∈ v.asked := by
  simp only [owed, Exchange.owed, List.mem_map, List.mem_filter, bne_iff_ne]
  constructor
  · rintro ⟨⟨_, command⟩, ⟨hmem, hother⟩, rfl⟩
    exact ⟨command, hother, hmem⟩
  · rintro ⟨command, hother, hmem⟩
    exact ⟨(token, command), ⟨hmem, hother⟩, rfl⟩

/-- With books in order every command is answered once. -/
theorem Accounted.answeredOnce (h : v.Accounted) (hroom : v.completions.length < completionSlots)
    (hfew : v.asked.length < UInt32.size) : v.AnsweredOnce := by
  have hnodup := h.nodup_tokens hfew
  have howed : v.owed.Nodup := hnodup.sublist (List.filter_sublist.map _)
  have hcensus : v.census.Nodup := h.census.nodup_iff.mpr howed
  have hmem : ∀ place token, token ∈ v.tokensAt place → token ∈ v.census :=
    fun place token htoken => List.mem_flatMap.mpr ⟨place, Place.mem_all place, htoken⟩
  have hplaces : ∀ place, (v.tokensAt place).Nodup :=
    fun place => (List.nodup_flatMap.mp hcensus).1 place (Place.mem_all place)
  refine ⟨hnodup, ?_, ?_, hplaces .answered, ?_, h.displaced, h.prompt, h.sent, hroom⟩
  · intro token command hasked hother
    have hsomewhere : token ∈ v.census :=
      h.census.mem_iff.mpr (mem_owed.mpr ⟨command, hother, hasked⟩)
    obtain ⟨place, -, hplace⟩ := List.mem_flatMap.mp hsomewhere
    refine ⟨place, List.count_eq_one_of_mem (hplaces place) hplace, fun other hne hother => ?_⟩
    -- Elsewhere the token would stand in the list a second time.
    obtain ⟨rest, -, hperm⟩ := exists_census_perm hne
    have hboth := (hperm v).nodup_iff.mp hcensus
    exact List.disjoint_of_nodup_append hboth hother (List.mem_append_left _ hplace)
  · intro place token htoken
    exact mem_owed.mp (h.census.mem_iff.mp (hmem place token htoken))
  · intro channel token htoken
    obtain ⟨job, hslot, rfl⟩ := Option.map_eq_some_iff.mp (Option.mem_toList.mp htoken)
    obtain ⟨command, hcommand, hchannel⟩ := h.waiting channel job hslot
    exact ⟨command, List.mem_filterMap.mpr ⟨_, hcommand, rfl⟩, hchannel⟩

end View

namespace Attended

variable {σ : Type} [Hardware σ]

/-- Whatever happens to a service with books in order, it goes on, and they stay so. -/
theorem run_accounted {w : Attended σ} (hready : w.Ready) (hbooks : w.view.Accounted)
    (actions : List Action) :
    ∃ w', w.run actions = .ok w' ∧ w'.Ready ∧ w'.view.Accounted := by
  induction actions generalizing w with
  | nil => exact ⟨w, rfl, hready, hbooks⟩
  | cons a actions ih =>
    obtain ⟨v, hv, hstep, hv'⟩ := hready.step a
    obtain ⟨w', hrun, hw'⟩ := ih hv' (hbooks.step hstep)
    exact ⟨w', (run_cons actions hv).trans hrun, hw'⟩

/-- From the start of update mode, whatever packets arrive and wherever the interrupt
    comes between the steps of the worker, the loader goes on, and as long as the tokens
    do not come round, every command is answered once: on the spot if it asks for the
    status, and otherwise its token is at one place at each moment. -/
theorem every_command_answered_once (chip : σ) (ramBlocks flashBlocks erasedSectors : IndexSet)
    (actions : List Action) :
    ∃ w, (fresh chip (.onSets ramBlocks flashBlocks erasedSectors)).run actions = .ok w
      ∧ (w.view.asked.length < 2 ^ 32 → w.view.AnsweredOnce) := by
  obtain ⟨w, hrun, hready, hbooks⟩ :=
    run_accounted (ready_fresh chip ramBlocks flashBlocks erasedSectors)
      (View.accounted_fresh chip _) actions
  exact ⟨w, hrun, fun hfew => hbooks.answeredOnce hready.length_completions_lt hfew⟩

/-- The host asks for the status and then calls code twice, all in one packet. The worker
    takes the second call and carries it out, and the interrupt sends the answer. -/
def twoCalls : List Action :=
  [.arrive [[1, 1, 0, 3, 5, 4, 0, 3, 5, 8, 0]], .interrupt, .attend, .attend, .attend, .attend,
    .attend, .take, .carryOut, .finish, .interrupt, .attend, .attend]

theorem every_command_answered_once_twoCalls :
    ∃ w, (fresh Panel.fresh (.onSets (.empty 1) (.empty 1) (.empty 1))).run twoCalls = .ok w
      ∧ w.view.asked = [(3, .exec 8), (2, .exec 4), (1, .getStatus)]
      ∧ w.view.tokensAt .answered = [3] ∧ w.view.tokensAt .displaced = [2]
      ∧ w.view.AnsweredOnce := by
  obtain ⟨w, hrun, honce⟩ :=
    every_command_answered_once Panel.fresh (.empty 1) (.empty 1) (.empty 1) twoCalls
  have hview : ((fresh Panel.fresh (.onSets (.empty 1) (.empty 1) (.empty 1))).run twoCalls).map
      (fun w => (w.view.asked, w.view.tokensAt .answered, w.view.tokensAt .displaced))
      = .ok ([(3, .exec 8), (2, .exec 4), (1, .getStatus)], [3], [2]) := by
    decide +kernel
  rw [hrun] at hview
  obtain ⟨hasked, hplaces⟩ := Prod.mk.inj (Except.ok.inj hview)
  obtain ⟨hanswered, hdisplaced⟩ := Prod.mk.inj hplaces
  refine ⟨w, hrun, hasked, hanswered, hdisplaced, honce ?_⟩
  rw [hasked]
  decide

end Attended

end Loader

end Reflash
