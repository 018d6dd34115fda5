import Reflash.Proofs.Conversation
import Reflash.Proofs.FlatMemory
import Reflash.Proofs.LoaderProtection
/-! # The loader as a flat memory

  Over the line, too, the loader on a chip is a flat memory to a host that has it for
  itself. `Service.Holds` says so between two commands: the service waits for one, the
  host is alone with the device, and each byte of the chip is that of the flat memory, but
  for the register that turns the cache off. Whatever requests the host sends, however
  their frames come in, it gets the answers that the flat memory gives.
-/

namespace Reflash

open Rp2040 (Chip)

/-! ### A chip and a memory -/

namespace Memory

variable {m m' : Memory} {a : UInt32}

/-- What a change leaves at an address depends on that address alone. -/
theorem byte_change_congr (h : m.byte a = m'.byte a) (change : Change) :
    (m.change change).byte a = (m'.change change).byte a :=
  congrArg (change.apply a) h

theorem byte_updateFlash_congr (h : m.byte a = m'.byte a) (update : FlashUpdate) :
    (m.updateFlash update).byte a = (m'.updateFlash update).byte a := by
  obtain ⟨erase, program⟩ := update
  cases erase with
  | none =>
    cases program with
    | none => exact h
    | some page => exact byte_change_congr h _
  | some range =>
    cases program with
    | none => exact byte_change_congr h _
    | some page => exact byte_change_congr (byte_change_congr h _) _

end Memory

namespace Rp2040.Chip

open Loader (OffCache)

variable {c : Chip} {b : MemoryMachine}

/-- A chip carries a call out as a memory does, unless a reboot is asked for. -/
theorem byte_perform (hsame : ∀ a, OffCache a → c.memory.byte a = b.memory.byte a) {call : Call}
    (hcall : call.isReboot = false) :
    ∀ a, OffCache a → (Machine.perform c call).memory.byte a
      = (Machine.perform b call).memory.byte a := by
  intro a ha
  cases call with
  | read | exec | eject | complete => exact hsame a ha
  | reboot => cases hcall
  | writeRam addr bytes => exact Memory.byte_change_congr (hsame a ha) _
  | updateFlash update =>
    exact (c.byte_updateFlash ha update).trans (Memory.byte_updateFlash_congr (hsame a ha) update)

theorem byte_performAll (hsame : ∀ a, OffCache a → c.memory.byte a = b.memory.byte a)
    {calls : List Call} (hcalls : ∀ call ∈ calls, call.isReboot = false) :
    ∀ a, OffCache a → (Machine.performAll c calls).memory.byte a
      = (Machine.performAll b calls).memory.byte a := by
  induction calls generalizing c b with
  | nil => exact hsame
  | cons call calls ih =>
    exact ih (byte_perform hsame (hcalls call List.mem_cons_self))
      fun later hlater => hcalls later (List.mem_cons_of_mem _ hlater)

end Rp2040.Chip

namespace MemoryRequest

variable {map : AddressMap} {r : MemoryRequest} {call : Call}

/-- No reboot is asked for and nothing is told. -/
theorem mem_calls (h : call ∈ r.calls map) : call.isReboot = false ∧ call.isComplete = false := by
  rcases List.mem_append.mp h with hopening | hmoved
  · split at hopening
    · rw [List.mem_singleton.mp hopening]
      exact ⟨rfl, rfl⟩
    · cases hopening
  · split at hmoved
    · cases r with
      | write =>
        simp only [moves] at hmoved
        split at hmoved <;> (rw [List.mem_singleton.mp hmoved]; exact ⟨rfl, rfl⟩)
      | access => cases hmoved
      | read | erase =>
        rw [List.mem_singleton.mp hmoved]
        exact ⟨rfl, rfl⟩
    · cases hmoved

/-- A request for a page at most fits a frame. -/
theorem fits_command (h : r.isLong = false) : r.command.Fits .device := by
  cases r with
  | read | erase | access => trivial
  | write addr data => exact Limits.admits_page (Nat.not_lt.mp (of_decide_eq_false h))

/-- What is read can be read anywhere in memory that agrees on the range. -/
theorem response_congr {status : Status} {token : UInt32} {load load' : UInt32 → UInt32 → Bytes}
    (h : ∀ addr len, r = .read addr len → status = .ok → load addr len = load' addr len) :
    r.response status token load = r.response status token load' := by
  cases r with
  | write | erase | access => rfl
  | read addr len =>
    by_cases hok : status = .ok
    · simp only [response, if_pos hok, h addr len rfl hok]
    · simp only [response, if_neg hok]

end MemoryRequest

/-- Memory is as it was when it was read. -/
theorem FlatMemory.after_read (m : FlatMemory) (map : AddressMap) (addr len : UInt32) :
    m.after map (.read addr len) = m := by
  unfold FlatMemory.after
  split <;> rfl

/-! ### Between two commands -/

namespace Loader

variable {addr a : UInt32} {n : Nat}

/-- No region of the loader's map has the register that turns the cache off. -/
theorem offCache_of_has (h : map.Has addr n) (hlow : addr.toNat ≤ a.toNat)
    (hhigh : a.toNat < addr.toNat + n) : OffCache a := by
  obtain ⟨region, hregion, hrange⟩ := h
  have hall : ∀ r ∈ map,
      r.base.toNat + r.len.toNat ≤ 0x14003000 ∨ 0x14003004 ≤ r.base.toNat := by decide
  obtain ⟨hbase, hstop⟩ := Region.contains_iff.mp (hrange.contains hlow hhigh)
  have haway := hall region hregion
  unfold OffCache
  omega

/-- The service waits for a command, and holds a flat memory for the host alone. -/
structure Service.Holds (s : Service (Logged Chip)) (m : FlatMemory) : Prop where
  ready : s.Ready
  host : s.device.HostOnly
  config : s.device.core.config = config
  memory : ∀ a, OffCache a → s.chip.machine.memory.byte a = m a

namespace Service

variable {s : Service (Logged Chip)} {m : FlatMemory} {r : MemoryRequest}

/-- What is read from the chip is what the flat memory holds. -/
theorem load_eq_of_byte {memory : Memory} (h : ∀ a, OffCache a → memory.byte a = m a)
    {len : UInt32} (hrange : map.Has addr len.toNat) :
    memory.load addr len.toNat = m.load addr len := by
  rw [Memory.load_eq]
  refine List.map_congr_left fun i hi => ?_
  have hi := List.mem_range.mp hi
  have hthere := Memory.toNat_add_ofNat (bounded_map.of_has hrange) hi
  exact h _ (offCache_of_has hrange (by omega) (by omega))

/-- The calls for a request do to the chip what the request does to the flat memory. -/
theorem byte_calls_of_same {l : Logged Chip} (h : ∀ a, OffCache a → l.machine.memory.byte a = m a)
    (hshort : r.isLong = false) : ∀ a, OffCache a →
    (Machine.performAll l (r.calls map)).machine.memory.byte a = m.after map r a := by
  intro a ha
  let b : MemoryMachine := .new ⟨m, []⟩
  have hcalls : ∀ call ∈ r.calls map, call.isReboot = false :=
    fun call hcall => (MemoryRequest.mem_calls hcall).1
  rw [Logged.machine_performAll, Chip.byte_performAll (b := b) h hcalls a ha,
    MemoryRequest.byte_calls bounded_map hshort b]
  rfl

/-- A request goes over the line, and the service answers it as the flat memory does. -/
theorem Holds.carry (h : s.Holds m) (hshort : r.isLong = false) (events : List LineEvent) :
    ∃ t, s.carry (Frame.wrap (Encode.command r.command)) events = .ok t
      ∧ t.endpoint.sent
        = Frame.wrap (Encode.response (r.response (r.status map) s.nextToken m.load))
      ∧ t.collected.Holds (m.after map r) ∧ t.nextToken = s.nextToken + 1 := by
  -- There is one job, and the worker has nothing else to do: `execute` is all that happens
  -- between the command and its answer.
  let token := s.nextToken
  let job := r.job s.device.core token
  let after : Device (Board (Logged Chip)) :=
    (s.device.execute job).1.report (s.device.doneJob job)
  have hjob : s.device.core.jobFor r.command token = .ok job := MemoryRequest.jobFor_of_short hshort
  obtain ⟨hhost, hconfig, hmachine, hanswer⟩ := h.host.execute_job hshort token
  have hmap : s.device.core.config.map = map := congrArg Config.map h.config
  rw [hmap] at hmachine hanswer
  have hquiet : ∀ call ∈ r.calls map, call.isComplete = false :=
    fun call hcall => (MemoryRequest.mem_calls hcall).2
  have hboard : (s.device.execute job).1.machine
      = { s.device.machine with chip := Machine.performAll s.chip (r.calls map) } :=
    hmachine.trans (Board.performAll_quiet hquiet)
  have hafter : after.machine = ⟨Machine.performAll s.chip (r.calls map),
      [(s.device.doneJob job).response], true⟩ := by
    show Board.complete (s.device.execute job).1.machine _ = _
    rw [hboard]
    exact Board.complete_of_nil _ h.ready.completions
  -- The chip holds what the flat memory holds after the request.
  have hmemory : ∀ a, OffCache a →
      (Machine.performAll s.chip (r.calls map)).machine.memory.byte a = m.after map r a :=
    byte_calls_of_same h.memory hshort
  have hresponse : (s.device.doneJob job).response
      = r.response (r.status map) token m.load := by
    rw [hanswer, Board.performAll_quiet hquiet]
    refine MemoryRequest.response_congr fun addr len hread hok => ?_
    subst hread
    rw [FlatMemory.after_read] at hmemory
    exact load_eq_of_byte hmemory (MemoryRequest.has_of_read hok)
  -- How the frame is cut and when the interrupt comes makes no difference.
  obtain ⟨t, hcarry, hreplied⟩ := h.ready.carry_pending (MemoryRequest.fits_command hshort)
    (Core.handle_of_jobFor hjob) (s.device.doneJob job).response_fits
    (h.host.finish_control hjob) (congrArg Board.completions hafter) events
  refine ⟨t, hcarry, ?_, ⟨hreplied.ready, ?_, ?_, ?_⟩, hreplied.token⟩
  · rw [hreplied.sent, hresponse]
  · have hcore : t.device.core = (s.device.execute job).1.core := hreplied.core
    refine ⟨⟨hreplied.ready.phase, hreplied.ready.disk, ?_⟩, ?_, ?_⟩
    · exact (congrArg Core.control hcore).trans hhost.control
    · exact (congrArg Core.rebooting hcore).trans hhost.awake
    · intro hdisk
      exact hhost.writer (hreplied.lastWriter.symm.trans hdisk)
  · exact (congrArg Core.config hreplied.core).trans (hconfig.trans h.config)
  · intro a ha
    have hchip : t.chip = Machine.performAll s.chip (r.calls map) :=
      hreplied.chip.trans (congrArg Board.chip hafter)
    show t.chip.machine.memory.byte a = _
    rw [hchip]
    exact hmemory a ha

/-- A loader that has just been started holds what the chip holds. -/
theorem holds_started (c : Chip) {script : List WriteResult} (hscript : .failed ∉ script) :
    (started c script).Holds c.memory.byte :=
  ⟨ready_started c hscript, ⟨⟨rfl, rfl, rfl⟩, rfl, nofun⟩, rfl, fun _ _ => rfl⟩

end Service

end Loader

/-! ### One request after the other -/

namespace FlatMemory

variable (map : AddressMap)

/-- Some requests, the first of them with this token, and the answers to them. -/
def talk : FlatMemory → UInt32 → List MemoryRequest → List (Command × Response)
  | _, _, [] => []
  | m, token, r :: later =>
    (r.command, r.response (r.status map) token m.load) :: talk (m.after map r) (token + 1) later

/-- Memory after some requests. -/
def afterAll (m : FlatMemory) (requests : List MemoryRequest) : FlatMemory :=
  requests.foldl (fun m r => m.after map r) m

end FlatMemory

namespace Loader

variable {l : Line (Logged Chip)} {m : FlatMemory}

/-- Whatever a host asks for, the line answers as the flat memory does. -/
theorem Service.Holds.converses (h : l.service.Holds m) {requests : List MemoryRequest}
    (hshort : ∀ r ∈ requests, r.isLong = false) :
    ∃ l', Converses l (m.talk map l.service.nextToken requests) l'
      ∧ l'.service.Holds (m.afterAll map requests) := by
  induction requests generalizing l m with
  | nil => exact ⟨l, .nil l, h⟩
  | cons r later ih =>
    obtain ⟨t, hcarry, hsent, ht, htoken⟩ :=
      h.carry (hshort r List.mem_cons_self) (l.schedule.headD [])
    let next : Line (Logged Chip) := ⟨t.collected, l.schedule.tail,
      Frame.wrap (Encode.response (r.response (r.status map) l.service.nextToken m.load))
        :: l.answers⟩
    obtain ⟨l', hlater, hl'⟩ := ih (l := next) ht fun r hr => hshort r (List.mem_cons_of_mem _ hr)
    have hnext : next.service.nextToken = l.service.nextToken + 1 := htoken
    rw [hnext] at hlater
    exact ⟨l', .cons (Line.answers_of_carry hcarry hsent) hlater, hl'⟩

end Loader

end Reflash
