import Reflash.Proofs.MemoryMachine
import Reflash.Proofs.MemoryRequest
/-! # The control channel as a flat memory

  To a host that has the device for itself the device is a byte at every address, which it
  reads, writes and erases. `FlatMemory` is just that: no jobs, no slots and no worker.
  `Device.refines_flatMemory` says that the device cannot be told from it: whatever the
  host asks for and however often, it gets the same answers, and memory holds the same
  bytes.

  `Refines` is what holds between two requests. It is kept by each of them, whatever its
  range.
-/

namespace Reflash

/-! ### The reference -/

/-- A byte at every address. -/
abbrev FlatMemory := UInt32 → UInt8

/-- What comes of a command that is dealt with before the next one. -/
structure Exchange where
  /-- How it is taken. -/
  outcome : Core.Outcome
  /-- Whether there is a job for the worker. -/
  worked : Bool
  /-- What the host is told meanwhile. -/
  told : List Response
deriving DecidableEq

namespace FlatMemory

variable (m : FlatMemory) (map : AddressMap)

/-- The bytes from an address on. -/
def load (addr len : UInt32) : Bytes :=
  (List.range len.toNat).map fun i => m (addr + UInt32.ofNat i)

/-- The bytes from an address on are these, and the others are as before. -/
def store (addr : UInt32) (bytes : Bytes) : FlatMemory := fun a =>
  if addr.toNat ≤ a.toNat ∧ a.toNat < addr.toNat + bytes.length
  then bytes.getD (a.toNat - addr.toNat) 0 else m a

/-- The bytes from an address on lose the bits that are clear in these. -/
def program (addr : UInt32) (bytes : Bytes) : FlatMemory := fun a =>
  if addr.toNat ≤ a.toNat ∧ a.toNat < addr.toNat + bytes.length
  then m a &&& bytes.getD (a.toNat - addr.toNat) 0 else m a

/-- The bytes from an address on have every bit set. -/
def erase (addr len : UInt32) : FlatMemory := fun a =>
  if addr.toNat ≤ a.toNat ∧ a.toNat < addr.toNat + len.toNat then 0xFF else m a

/-- Memory after a request. Only one that ends well changes it. -/
def after (r : MemoryRequest) : FlatMemory :=
  if r.isLong = true ∨ r.status map ≠ .ok then m
  else match r with
    | .write addr data =>
      if map.HasIn .ram addr data.length then m.store addr data else m.program addr data
    | .erase addr len => m.erase addr len
    | .read .. | .access _ => m

/-- What comes of a request. One for more than a page is answered at once. -/
def exchange (token : UInt32) (r : MemoryRequest) : Exchange :=
  if r.isLong then ⟨.reply (.ack token .invalidTransferLength), false, []⟩
  else ⟨.pending, true, [r.response (r.status map) token m.load]⟩

/-- What comes of requests one after the other, and memory after them. -/
def serveAll (map : AddressMap) :
    FlatMemory → List (UInt32 × MemoryRequest) → List Exchange × FlatMemory
  | m, [] => ([], m)
  | m, (token, r) :: later =>
    let (exchanges, after) := serveAll map (m.after map r) later
    (m.exchange map token r :: exchanges, after)

end FlatMemory

/-! ### The device -/

/-- What the host is told by a call. -/
def Call.response? : Call → Option Response
  | .complete response => some response
  | _ => none

namespace Device

variable {σ : Type} [Machine σ]

/-- The device with a list of the calls that are made from now on. -/
def logged (d : Device σ) : Device (Logged σ) :=
  { core := d.core, phase := d.phase, lastWriter := d.lastWriter, machine := .new d.machine }

/-- A command is handled, and then the worker does what there is to do. -/
def exchange (d : Device σ) (token : UInt32) (command : Command) :
    Except Fault (Exchange × Device σ) := do
  let (core, outcome) ← d.core.handle command token
  let (after, worked) ← { d.logged with core }.poll
  return (⟨outcome, worked, after.machine.calls.reverse.filterMap Call.response?⟩, after.forget)

/-- Commands are dealt with one after the other. -/
def exchangeAll (d : Device σ) : List (UInt32 × Command) → Except Fault (List Exchange × Device σ)
  | [] => .ok ([], d)
  | (token, command) :: later => do
    let (exchange, d) ← d.exchange token command
    let (exchanges, d) ← d.exchangeAll later
    return (exchange :: exchanges, d)

/-- A device that holds a flat memory and has nothing else to do. -/
structure Refines (d : Device MemoryMachine) (config : Config) (m : FlatMemory) : Prop
    extends d.HostOnly where
  config : d.core.config = config
  memory : d.machine.memory.byte = m

end Device

/-! ### One request -/

namespace MemoryRequest

variable {map : AddressMap} {r : MemoryRequest}

/-- What is read, written or erased lies in one region. -/
theorem has_of_read {addr len : UInt32} (h : (MemoryRequest.read addr len).status map = .ok) :
    map.Has addr len.toNat := by
  simp only [status] at h
  split at h
  · assumption
  · cases h

theorem has_of_write {addr : UInt32} {data : Bytes}
    (h : (MemoryRequest.write addr data).status map = .ok) : map.Has addr data.length := by
  simp only [status] at h
  split at h
  · rename_i hram
    exact hram.has
  · split at h
    · rename_i hflash
      exact hflash.has
    · cases h

theorem has_of_erase {addr len : UInt32} (h : (MemoryRequest.erase addr len).status map = .ok) :
    map.Has addr len.toNat := by
  simp only [status] at h
  split at h
  · rename_i hflash
    exact hflash.has
  · cases h

/-- The calls for a request do to memory what the request asks for. -/
theorem byte_calls (hmap : map.Bounded) (hshort : r.isLong = false) (b : MemoryMachine) :
    (Machine.performAll b (r.calls map)).memory.byte = FlatMemory.after b.memory.byte map r := by
  have hlong : ¬ r.isLong = true := by
    rw [hshort]
    exact Bool.false_ne_true
  by_cases hok : r.status map = .ok
  · have hafter : ¬ (r.isLong = true ∨ r.status map ≠ .ok) := not_or.mpr ⟨hlong, not_not.mpr hok⟩
    unfold calls FlatMemory.after
    rw [if_pos hok, if_neg hafter]
    cases r with
    | read addr len => rfl
    | access mode => cases mode <;> rfl
    | write addr data =>
      have hfits := hmap.of_has (has_of_write hok)
      funext a
      by_cases hram : map.HasIn .ram addr data.length
      · simp only [moves, if_pos hram]
        exact b.memory.byte_store a hfits
      · simp only [moves, if_neg hram]
        exact b.memory.byte_program a hfits
    | erase addr len =>
      have hfits := hmap.of_has (has_of_erase hok)
      funext a
      exact b.memory.byte_erase a hfits
  · have haccess : r ≠ .access .exclusiveAndEject := by
      rintro rfl
      exact hok rfl
    have hnothing : r.isLong = true ∨ r.status map ≠ .ok := .inr hok
    unfold calls FlatMemory.after
    rw [if_neg haccess, if_neg hok, if_pos hnothing]
    rfl

/-- What a request reads is what the flat memory holds. -/
theorem response_load (status : Status) (token : UInt32) (b : MemoryMachine) :
    r.response status token (Machine.load (Machine.performAll b (r.calls map)))
      = r.response status token (FlatMemory.load b.memory.byte) := by
  cases r with
  | write | erase | access => rfl
  | read addr len =>
    have hsame : Machine.performAll b ((MemoryRequest.read addr len).calls map) = b := by
      unfold calls
      split <;> split <;> rfl
    have hload : Machine.load b addr len = FlatMemory.load b.memory.byte addr len :=
      b.memory.load_eq addr len.toNat
    simp only [response, hsame, hload]

end MemoryRequest

namespace Device

variable {σ : Type} [Machine σ]

theorem exchange_eq {d : Device σ} {after : Device (Logged σ)} {token : UInt32} {command : Command}
    {core : Core} {outcome : Core.Outcome} {worked : Bool}
    (hhandle : d.core.handle command token = .ok (core, outcome))
    (hpoll : { d.logged with core }.poll = .ok (after, worked)) :
    d.exchange token command
      = .ok (⟨outcome, worked, after.machine.calls.reverse.filterMap Call.response?⟩,
        after.forget) := by
  simp only [exchange, hhandle, bind, Except.bind, hpoll, pure, Except.pure]

/-- A command that is answered at once leaves nothing to the worker. -/
theorem Settled.exchange_reply {d : Device σ} (h : d.Settled) {token : UInt32} {command : Command}
    {response : Response} (hhandle : d.core.handle command token = .ok (d.core, .reply response)) :
    d.exchange token command = .ok (⟨.reply response, false, []⟩, d) := by
  have hcontrol : d.core.control.job = none := by
    rw [h.control]
    rfl
  exact exchange_eq hhandle (poll_of_empty (d := d.logged) h.phase h.disk hcontrol)

/-- The worker deals with the job that a command leaves, and the host is told once. -/
theorem Settled.exchange_job {d : Device σ} (h : d.Settled) {token : UInt32} {command : Command}
    {job : Job} (hjob : d.core.jobFor command token = .ok job) :
    d.exchange token command
      = .ok (⟨.pending, true, [(d.doneJob job).response]⟩,
        (d.execute job).1.report (d.doneJob job)) := by
  have hlogged : d.logged.Settled := ⟨h.phase, h.disk, h.control⟩
  -- The list of calls changes neither the job nor what is done.
  have hexecute : d.execute job = ((d.logged.execute job).1.forget, (d.logged.execute job).2) :=
    d.logged.forget_execute job
  have hdone : d.logged.doneJob job = d.doneJob job := by
    simp only [doneJob, hexecute]
  have hforget : ((d.logged.execute job).1.report (d.doneJob job)).forget
      = (d.execute job).1.report (d.doneJob job) := by
    rw [hexecute]
    rfl
  let planned := (job.plan d.core.config.map d.core.rebooting d.lastWriter).calls
  have hcalls : ((d.logged.execute job).1.report (d.doneJob job)).machine.calls
      = .complete (d.doneJob job).response :: (planned.reverse ++ []) := by
    show _ :: (Machine.performAll d.logged.machine planned).calls = _
    rw [Logged.calls_performAll]
    rfl
  have hquiet : planned.filterMap Call.response? = [] := by
    rw [List.filterMap_eq_nil_iff]
    intro call hcall
    have hcomplete := (Job.mem_plan_calls hcall).2
    cases call with
    | complete => cases hcomplete
    | _ => rfl
  rw [exchange_eq (Core.handle_of_jobFor hjob) (hlogged.poll_control hjob), hdone, hforget, hcalls,
    List.append_nil, List.reverse_cons, List.reverse_reverse, List.filterMap_append, hquiet]
  rfl

variable {d : Device MemoryMachine} {config : Config} {m : FlatMemory} {r : MemoryRequest}

/-- The device answers a request as the flat memory does, and holds the same bytes
    afterwards. -/
theorem Refines.exchange (h : d.Refines config m) (hmap : config.map.Bounded) (token : UInt32)
    (r : MemoryRequest) :
    ∃ d', d.exchange token r.command = .ok (m.exchange config.map token r, d')
      ∧ d'.Refines config (m.after config.map r) := by
  cases hlong : r.isLong with
  | true =>
    have hafter : m.after config.map r = m := if_pos (.inl hlong)
    refine ⟨d, ?_, ?_⟩
    · rw [h.exchange_reply (MemoryRequest.handle_of_long hlong), FlatMemory.exchange, if_pos hlong]
    · rw [hafter]
      exact h
  | false =>
    have hjob : d.core.jobFor r.command token = .ok (r.job d.core token) :=
      MemoryRequest.jobFor_of_short hlong
    obtain ⟨hhost, hconfig, hmachine, hresponse⟩ := h.execute_job hlong token
    rw [h.config, MemoryRequest.response_load, h.memory] at hresponse
    have hshort : ¬ r.isLong = true := by
      rw [hlong]
      exact Bool.false_ne_true
    refine ⟨(d.execute (r.job d.core token)).1.report (d.doneJob (r.job d.core token)), ?_,
      ⟨⟨⟨hhost.phase, hhost.disk, hhost.control⟩, hhost.awake, hhost.writer⟩,
        hconfig.trans h.config, ?_⟩⟩
    · rw [h.exchange_job hjob, hresponse, FlatMemory.exchange, if_neg hshort]
    · show (d.execute (r.job d.core token)).1.machine.memory.byte = m.after config.map r
      rw [hmachine, h.config, MemoryRequest.byte_calls hmap hlong, h.memory]

/-! ### Every sequence of requests -/

/-- A device that holds a flat memory serves requests as it does. -/
theorem Refines.exchangeAll (hmap : config.map.Bounded) (h : d.Refines config m)
    (requests : List (UInt32 × MemoryRequest)) :
    ∃ d', d.exchangeAll (requests.map fun (token, r) => (token, r.command))
        = .ok ((m.serveAll config.map requests).1, d')
      ∧ d'.Refines config (m.serveAll config.map requests).2 := by
  induction requests generalizing d m with
  | nil => exact ⟨d, rfl, h⟩
  | cons request later ih =>
    obtain ⟨token, r⟩ := request
    obtain ⟨next, hexchange, hnext⟩ := h.exchange hmap token r
    obtain ⟨d', hlater, hd'⟩ := ih hnext
    refine ⟨d', ?_, hd'⟩
    rw [List.map_cons]
    simp only [Device.exchangeAll, hexchange, bind, Except.bind, hlater, pure, Except.pure]
    rfl

theorem refines_fresh (config : Config) (upload : Upload) (memory : Memory) :
    (Device.fresh (.fresh config upload) (MemoryMachine.new memory)).Refines config memory.byte :=
  ⟨⟨⟨rfl, rfl, rfl⟩, rfl, nofun⟩, rfl, rfl⟩

/-- A device that nobody but the host uses is a flat memory to it. Whatever the host reads,
    writes and erases and whoever it lets write, each command gets the answer that the
    memory gives, and in the end memory holds the bytes that it should.

    Regions may overlap, as long as none goes beyond the last address. -/
theorem refines_flatMemory (config : Config) (hmap : config.map.Bounded) (upload : Upload)
    (memory : Memory) (requests : List (UInt32 × MemoryRequest)) :
    ∃ d, (Device.fresh (.fresh config upload) (MemoryMachine.new memory)).exchangeAll
          (requests.map fun (token, r) => (token, r.command))
        = .ok ((FlatMemory.serveAll config.map memory.byte requests).1, d)
      ∧ d.machine.memory.byte = (FlatMemory.serveAll config.map memory.byte requests).2 := by
  obtain ⟨d, hserved, hd⟩ := (refines_fresh config upload memory).exchangeAll hmap requests
  exact ⟨d, hserved, hd.memory⟩

/-- Two sectors of flash at the bottom of the address space, and RAM at the top. -/
def twoRegions : Config := ⟨[⟨.flash, 0, 0x2000⟩, ⟨.ram, 0xFFFFF000, 0x1000⟩], 0, 0, 0⟩

/-- The last byte of memory is written and read, the last sector of flash is erased, and
    four requests end badly. -/
def someRequests : List (UInt32 × MemoryRequest) :=
  [(7, .write 0xFFFFFFFE [1, 2]), (8, .read 0xFFFFFFFF 1), (9, .read 0xFFFFFFFF 2),
    (10, .erase 0x1000 0x1000), (11, .write 0x1FFF [0]), (12, .read 0x1FFF 1),
    (13, .write 0x1FFF []), (14, .write 0x2000 []), (15, .read 0 257), (16, .access .exclusive)]

/-- What was written comes back, and each request that cannot be met is told why. -/
theorem refines_flatMemory_twoRegions :
    twoRegions.map.Bounded
      ∧ (FlatMemory.serveAll twoRegions.map (fun _ => 0) someRequests).1 =
        [⟨.pending, true, [.ack 7 .ok]⟩, ⟨.pending, true, [.data 8 .ok [2]]⟩,
          ⟨.pending, true, [.data 9 .invalidAddress [0, 0]]⟩, ⟨.pending, true, [.ack 10 .ok]⟩,
          ⟨.pending, true, [.ack 11 .badAlignment]⟩, ⟨.pending, true, [.data 12 .ok [0xFF]]⟩,
          ⟨.pending, true, [.ack 13 .badAlignment]⟩, ⟨.pending, true, [.ack 14 .invalidAddress]⟩,
          ⟨.reply (.ack 15 .invalidTransferLength), false, []⟩, ⟨.pending, true, [.ack 16 .ok]⟩]
      ∧ ∃ d, (Device.fresh (.fresh twoRegions default)
              (MemoryMachine.new ⟨fun _ => 0, []⟩)).exchangeAll
            (someRequests.map fun (token, r) => (token, r.command))
          = .ok ((FlatMemory.serveAll twoRegions.map (fun _ => 0) someRequests).1, d)
        ∧ d.machine.memory.byte
          = (FlatMemory.serveAll twoRegions.map (fun _ => 0) someRequests).2 :=
  ⟨by decide, by decide +kernel,
    refines_flatMemory twoRegions (by decide) default ⟨fun _ => 0, []⟩ someRequests⟩

end Device

end Reflash
