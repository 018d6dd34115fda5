import Reflash.Proofs.Chunks
import Reflash.Proofs.FlatMemory
/-! # Short answers

  A device may answer a read with fewer bytes than it was asked for. The tool then goes on
  behind the last byte that came, until it has the whole range.

  `Tool.readRest` is the read at the moment when some chunks have come, and `readRest_step` is
  one turn of its loop. `Collected` says that chunks came one after the other, whoever sent them
  and whatever came in between. From there either all bytes are there, or one more request goes
  out, and its answer brings a byte at least or ends the run.
-/

namespace Reflash

/-! ### Bytes of a memory -/

namespace FlatMemory

/-- Memory has these bytes from an address on. Behind the last address comes the first one. -/
def Has (m : FlatMemory) (addr : UInt32) (bytes : Bytes) : Prop :=
  ∀ (i : Nat) (h : i < bytes.length), bytes[i] = m (addr + UInt32.ofNat i)

variable {m : FlatMemory} {addr : UInt32}

theorem has_nil : m.Has addr [] := fun _ h => absurd h (Nat.not_lt_zero _)

theorem Has.append {earlier later : Bytes} (hearlier : m.Has addr earlier)
    (hlater : m.Has (addr + UInt32.ofNat earlier.length) later) :
    m.Has addr (earlier ++ later) := by
  intro i h
  rcases Nat.lt_or_ge i earlier.length with hi | hi
  · rw [List.getElem_append_left hi]
    exact hearlier i hi
  · have hlength : i - earlier.length < later.length := by
      rw [List.length_append] at h
      omega
    rw [List.getElem_append_right hi, hlater _ hlength, UInt32.add_assoc, ← UInt32.ofNat_add,
      Nat.add_sub_cancel' hi]

theorem has_load (len : UInt32) : m.Has addr (m.load addr len) := by
  intro i h
  simp only [load, List.getElem_map, List.getElem_range]

theorem length_load (len : UInt32) : (m.load addr len).length = len.toNat := by
  rw [load, List.length_map, List.length_range]

/-- There is but one list of bytes that memory has there. -/
theorem Has.eq_load {bytes : Bytes} {len : UInt32} (h : m.Has addr bytes)
    (hlength : bytes.length = len.toNat) : bytes = m.load addr len := by
  apply List.ext_getElem (hlength.trans (length_load len).symm)
  intro i hi hi'
  rw [h i hi, has_load len i hi']

end FlatMemory

/-! ### The loop -/

namespace Tool

/-- What is asked for when these chunks of a range have come. -/
def nextRead (addr : UInt32) (len : Nat) (chunks : List Bytes) : Command :=
  .read (addr + UInt32.ofNat chunks.flatten.length)
    (UInt32.ofNat (min (len - chunks.flatten.length) maxTransfer))

/-- All that was asked for when these chunks of a range have come. -/
def reads (addr : UInt32) (len : Nat) (chunks : List Bytes) : List Command :=
  (List.range chunks.length).map fun k => nextRead addr len (chunks.take k)

theorem reads_concat (addr : UInt32) (len : Nat) (chunks : List Bytes) (chunk : Bytes) :
    reads addr len (chunks ++ [chunk]) = reads addr len chunks ++ [nextRead addr len chunks] := by
  have hearlier : ∀ k ∈ List.range chunks.length,
      nextRead addr len ((chunks ++ [chunk]).take k) = nextRead addr len (chunks.take k) := by
    intro k hk
    rw [List.take_append_of_le_length (Nat.le_of_lt (List.mem_range.mp hk))]
  unfold reads
  rw [List.length_append, List.length_singleton, List.range_succ, List.map_append,
    List.map_congr_left hearlier, List.map_singleton, List.take_left]

/-- What is said about an answer to a read that brings no byte. -/
def barrenFailure (addr : UInt32) (response : Response) : Failure :=
  match response.completion with
  | some (_, .ok) => .unexpectedAt addr response
  | some (_, status) => .refused (.read addr) status
  | none => .unexpectedTo (.read addr) response

theorem readAnswer_data (addr token : UInt32) {chunk : Bytes} (h : chunk ≠ []) :
    readAnswer addr (.data token .ok chunk) = .ok ⟨chunk, h⟩ := by
  cases chunk with
  | nil => exact absurd rfl h
  | cons b rest => rfl

/-- Any other answer to a read is a failure. -/
theorem readAnswer_barren (addr : UInt32) {response : Response}
    (h : ∀ token chunk, response = .data token .ok chunk → chunk = []) :
    readAnswer addr response = .error (barrenFailure addr response) := by
  cases response with
  | ack token status => cases status <;> rfl
  | status upload fence rebooting => rfl
  | data token status chunk =>
    cases status with
    | ok =>
      cases h token chunk rfl
      rfl
    | _ => rfl

section
variable {m : Type → Type} [Monad m] [Host m]

/-- The rest of a read when these chunks of the range have come. -/
def readRest (addr : UInt32) (len : Nat) (chunks : List Bytes) : Talk m Bytes := do
  let rest ← readChunks (addr + UInt32.ofNat chunks.flatten.length) (len - chunks.flatten.length)
  return chunks.flatten ++ rest

variable [LawfulMonad m] {addr : UInt32} {len : Nat} {chunks : List Bytes}

/-- At first nothing has come. -/
theorem readRest_nil : readRest (m := m) addr len [] = readChunks addr len := by
  have hstart : addr + UInt32.ofNat ([] : List Bytes).flatten.length = addr := UInt32.add_zero addr
  unfold readRest
  rw [hstart]
  exact bind_pure _

/-- When the whole range has come, that is all. -/
theorem readRest_done (h : len ≤ chunks.flatten.length) :
    readRest (m := m) addr len chunks = pure chunks.flatten := by
  unfold readRest
  rw [Nat.sub_eq_zero_of_le h, readChunks, if_pos rfl, pure_bind, List.append_nil]

/-- Otherwise there is one more request, and the chunk that it brings is put behind the
    others. -/
theorem readRest_step (h : chunks.flatten.length < len) :
    readRest (m := m) addr len chunks = (do
      let response ← ask (nextRead addr len chunks)
      let chunk ← orFail (m := m)
        (readAnswer (addr + UInt32.ofNat chunks.flatten.length) response)
      readRest addr len (chunks ++ [chunk.val])) := by
  have hleft : ¬ len - chunks.flatten.length = 0 := Nat.sub_ne_zero_of_lt h
  unfold readRest
  rw [readChunks, if_neg hleft]
  -- Both sides ask the same. What is left of them is where the next request goes to.
  simp only [bind_assoc, pure_bind, List.flatten_concat, List.length_append, List.append_assoc,
    UInt32.ofNat_add, ← UInt32.add_assoc, ← Nat.sub_sub]
  rfl

end

end Tool

/-! ### What a talk leaves as it was -/

/-- Between two moments of a talk nothing happened at a desk but that these commands were sent:
    no file was touched, and nothing was printed. -/
structure OnlySent {π : Type} (d d' : Desk π) (commands : List Command) : Prop where
  files : d'.files = d.files
  printed : d'.printed = d.printed
  frames : d'.frames = (commands.map fun c => Frame.wrap (Encode.command c)).reverse ++ d.frames

namespace OnlySent

variable {π : Type} {d d' d'' : Desk π} {commands later : List Command}

theorem refl (d : Desk π) : OnlySent d d [] := ⟨rfl, rfl, rfl⟩

theorem trans (h : OnlySent d d' commands) (hlater : OnlySent d' d'' later) :
    OnlySent d d'' (commands ++ later) := by
  refine ⟨hlater.files.trans h.files, hlater.printed.trans h.printed, ?_⟩
  rw [hlater.frames, h.frames, List.map_append, List.reverse_append, List.append_assoc]

end OnlySent

namespace Desk

variable {π : Type} [FarEnd π] {d d₁ d₂ : Desk π} {c c₁ c₂ : TokenCounter}

/-- When an answer comes, whatever it is, its command was sent and nothing else was done. -/
theorem onlySent_of_hold_ask {command : Command} {response : Response}
    (hcommand : command.Fits .device)
    (h : d.hold c (ask command) = (.ok (response, c₁), d₁)) : OnlySent d d₁ [command] := by
  cases htake : FarEnd.take d.farEnd (Frame.wrap (Encode.command command)) with
  | mk delivery p =>
    rw [hold_ask_of_take hcommand htake] at h
    cases delivery with
    | notWritten reason => cases h
    | notFlushed reason => cases h
    | sent arrived =>
      obtain ⟨-, rfl⟩ := Prod.mk.inj h
      exact ⟨rfl, rfl, rfl⟩

/-! ### Chunks that have come -/

/-- From a desk on, these chunks of a range came one after the other, each of them one byte at
    least, and then the desk and the count are these. -/
inductive Collected (d : Desk π) (c : TokenCounter) (addr : UInt32) (len : Nat) :
    List Bytes → Desk π → TokenCounter → Prop where
  | nothing : Collected d c addr len [] d c
  | chunk {chunks : List Bytes} {d₁ d₂ : Desk π} {c₁ c₂ : TokenCounter} {token : UInt32}
      {chunk : Bytes} (earlier : Collected d c addr len chunks d₁ c₁)
      (left : chunks.flatten.length < len)
      (answer : d₁.hold c₁ (ask (Tool.nextRead addr len chunks))
        = (.ok (.data token .ok chunk, c₂), d₂))
      (some : chunk ≠ []) : Collected d c addr len (chunks ++ [chunk]) d₂ c₂

namespace Collected

variable {addr : UInt32} {len : Nat} {chunks : List Bytes}

/-- The tool has got these chunks and goes on behind them. -/
theorem hold_readChunks (h : Collected d c addr len chunks d₁ c₁) :
    d.hold c (Tool.readChunks addr len) = d₁.hold c₁ (Tool.readRest addr len chunks) := by
  induction h with
  | nothing => rw [Tool.readRest_nil]
  | @chunk chunks d₁ d₂ c₁ c₂ token chunk _ left answer hsome ih =>
    rw [ih, Tool.readRest_step left]
    refine (hold_bind answer _).trans ?_
    rw [Tool.readAnswer_data _ token hsome]
    exact hold_bind (hold_lift rfl) _

/-- The requests were sent, and nothing else was done. -/
theorem onlySent (h : Collected d c addr len chunks d₁ c₁) :
    OnlySent d d₁ (Tool.reads addr len chunks) := by
  induction h with
  | nothing => exact .refl d
  | chunk _ _ answer _ ih =>
    rw [Tool.reads_concat]
    exact ih.trans (onlySent_of_hold_ask trivial answer)

/-- When each request went out, something was left of the range. -/
theorem left_of_lt (h : Collected d c addr len chunks d₁ c₁) {k : Nat} (hk : k < chunks.length) :
    (chunks.take k).flatten.length < len := by
  induction h with
  | nothing => exact absurd hk (Nat.not_lt_zero k)
  | @chunk chunks _ _ _ _ _ chunk _ left _ _ ih =>
    have hle : k ≤ chunks.length := by
      rw [List.length_append, List.length_singleton] at hk
      exact Nat.le_of_lt_succ hk
    rw [List.take_append_of_le_length hle]
    rcases Nat.lt_or_eq_of_le hle with hlt | rfl
    · exact ih hlt
    · -- This is the request for the last chunk, before which all others had come.
      rw [List.take_length]
      exact left

/-- There are no more chunks than bytes. -/
theorem length_le (h : Collected d c addr len chunks d₁ c₁) :
    chunks.length ≤ chunks.flatten.length := by
  induction h with
  | nothing => exact Nat.le_refl 0
  | chunk _ _ _ hsome ih =>
    have hpos := List.length_pos_iff.mpr hsome
    rw [List.length_append, List.length_singleton, List.flatten_concat, List.length_append]
    omega

/-- When the whole range has come, it is what was read. -/
theorem hold_readChunks_of_whole (h : Collected d c addr len chunks d₁ c₁)
    (hwhole : chunks.flatten.length = len) :
    d.hold c (Tool.readChunks addr len) = (.ok (chunks.flatten, c₁), d₁) := by
  rw [h.hold_readChunks, Tool.readRest_done (Nat.le_of_eq hwhole.symm)]
  rfl

/-- An answer that brings no byte ends the read. -/
theorem hold_readChunks_of_barren (h : Collected d c addr len chunks d₁ c₁)
    (hleft : chunks.flatten.length < len) {response : Response}
    (hanswer : d₁.hold c₁ (ask (Tool.nextRead addr len chunks)) = (.ok (response, c₂), d₂))
    (hbarren : ∀ token chunk, response = .data token .ok chunk → chunk = []) :
    d.hold c (Tool.readChunks addr len) = (.error
      (Tool.barrenFailure (addr + UInt32.ofNat chunks.flatten.length) response), d₂) := by
  rw [h.hold_readChunks, Tool.readRest_step hleft]
  refine (hold_bind hanswer _).trans ?_
  rw [Tool.readAnswer_barren _ hbarren]
  exact hold_bind_error (hold_lift_error rfl) _

end Collected

/-! ### A device that serves reads -/

/-- Wherever a desk is ready, each read of up to a page is answered with some of the bytes that
    were asked for, one at least, as memory holds them, and then the desk is ready again. How
    many bytes come is up to the device each time. -/
structure Serves (memory : FlatMemory) (ready : Desk π → TokenCounter → Prop) : Prop where
  answers : ∀ {d c}, ready d c → ∀ (addr len : UInt32), 0 < len.toNat → len.toNat ≤ maxTransfer →
    ∃ token chunk d' c', d.hold c (ask (.read addr len)) = (.ok (.data token .ok chunk, c'), d')
      ∧ chunk ≠ [] ∧ chunk.length ≤ len.toNat ∧ memory.Has addr chunk ∧ ready d' c'

variable {memory : FlatMemory} {ready : Desk π → TokenCounter → Prop}

/-- Some of the range has come, and the rest of it will. -/
theorem Serves.collected_rest (hserves : Serves memory ready) {addr : UInt32} {len : Nat}
    {chunks : List Bytes} (h : Collected d c addr len chunks d₁ c₁) (hready : ready d₁ c₁)
    (hle : chunks.flatten.length ≤ len) (hhas : memory.Has addr chunks.flatten) :
    ∃ chunks d₂ c₂, Collected d c addr len chunks d₂ c₂ ∧ chunks.flatten.length = len
      ∧ memory.Has addr chunks.flatten := by
  -- By induction on what is left, which gets less with each answer, however short it is.
  induction hleft : len - chunks.flatten.length using Nat.strongRecOn
    generalizing chunks d₁ c₁ with
  | ind left ih =>
    rcases Nat.lt_or_eq_of_le hle with hlt | hwhole
    · let asked := min (len - chunks.flatten.length) maxTransfer
      have hmax : maxTransfer = 256 := rfl
      have hasked : (UInt32.ofNat asked).toNat = asked :=
        UInt32.toNat_ofNat_of_lt' (Nat.lt_of_le_of_lt (Nat.min_le_right _ _) (by decide))
      obtain ⟨token, chunk, d₂, c₂, hanswer, hsome, hshort, hchunk, hready⟩ :=
        hserves.answers hready (addr + UInt32.ofNat chunks.flatten.length) (UInt32.ofNat asked)
          (by omega) (by omega)
      have hpos := List.length_pos_iff.mpr hsome
      have hlength : (chunks ++ [chunk]).flatten.length = chunks.flatten.length + chunk.length := by
        rw [List.flatten_concat, List.length_append]
      have hmore : memory.Has addr (chunks ++ [chunk]).flatten := by
        rw [List.flatten_concat]
        exact hhas.append hchunk
      have hless : len - (chunks ++ [chunk]).flatten.length < left := by omega
      exact ih _ hless (h.chunk hlt hanswer hsome) hready (by omega) hmore rfl
    · exact ⟨chunks, d₁, c₁, h, hwhole, hhas⟩

/-- The whole range comes. -/
theorem Serves.collected (hserves : Serves memory ready) (hready : ready d c) (addr : UInt32)
    (len : Nat) :
    ∃ chunks d₁ c₁, Collected d c addr len chunks d₁ c₁ ∧ chunks.flatten.length = len
      ∧ memory.Has addr chunks.flatten :=
  hserves.collected_rest .nothing hready (Nat.zero_le len) FlatMemory.has_nil

/-! ### A far end that answers reads -/

/-- In each of these states, with this token for the next answer, a far end answers a read of up
    to a page with some of the bytes that were asked for, one at least, and is in one of these
    states again. -/
structure Supplies (memory : FlatMemory) (state : π → UInt32 → Prop) : Prop where
  answers : ∀ {p token}, state p token → ∀ (addr len : UInt32), 0 < len.toNat →
    len.toNat ≤ maxTransfer →
    ∃ chunk p', Answers p (.read addr len) (.data token .ok chunk) p'
      ∧ chunk ≠ [] ∧ chunk.length ≤ len.toNat ∧ memory.Has addr chunk ∧ state p' (token + 1)

/-- Nothing has arrived at a desk, and the far end goes on with the token that is due. -/
def Waiting (state : π → UInt32 → Prop) (d : Desk π) (c : TokenCounter) : Prop :=
  d.buffer = [] ∧ ∃ token, state d.farEnd token ∧ (c.next = none ∨ c.next = some token)

/-- What such a far end answers is what the tool gets. -/
theorem Supplies.serves {state : π → UInt32 → Prop} (h : Supplies memory state) :
    Serves memory (Waiting state) := by
  refine ⟨fun {d c} hwaiting addr len hpos hmax => ?_⟩
  obtain ⟨hbuffer, token, hstate, hcount⟩ := hwaiting
  obtain ⟨chunk, p', hanswers, hsome, hshort, hchunk, hstate⟩ := h.answers hstate addr len hpos hmax
  have hfits : Response.Fits .device (.data token .ok chunk) :=
    Limits.admits_page (Nat.le_trans hshort hmax)
  have haccept : c.check (.data token .ok chunk) = (⟨some (token + 1)⟩, .accept) :=
    TokenCounter.check_of_token hcount rfl
  exact ⟨token, chunk, _, _, hold_ask trivial hfits hbuffer hanswers haccept, hsome, hshort, hchunk,
    hbuffer, token + 1, hstate, .inr rfl⟩

/-! ### Whole runs -/

variable {port : String} {addr len : UInt32} {output : Option String}

/-- A read ends at the first answer that brings no byte. -/
theorem run_read_of_barren (hport : d.port = some port) {chunks : List Bytes}
    {response : Response} (h : Collected d .unknown addr len.toNat chunks d₁ c₁)
    (hleft : chunks.flatten.length < len.toNat)
    (hanswer : d₁.hold c₁ (ask (Tool.nextRead addr len.toNat chunks)) = (.ok (response, c₂), d₂))
    (hbarren : ∀ token chunk, response = .data token .ok chunk → chunk = []) :
    d.run ⟨some port, .read addr len output⟩ = (.error
      (Tool.barrenFailure (addr + UInt32.ofNat chunks.flatten.length) response), d₂) := by
  refine (run_withPort hport (Tool.read addr len output)).trans ?_
  unfold Tool.read
  rw [hold_bind_error (h.hold_readChunks_of_barren hleft hanswer hbarren)]
  rfl

/-- However short the answers of a device are, a read gets the whole range from it. It takes no
    more requests than there are bytes; each goes on behind the bytes that have come, asks for a
    byte at least and a page at most, and does not go beyond the range. What is reported in the
    end, or put into the file, are as many bytes as were asked for, each as the device has it at
    its address, and before that no file is touched.

    At the first answer that is none, whatever came before, the run fails and says what the
    answer was. No file is touched, and no more is asked. -/
theorem run_read_of_short_answers (hport : d.port = some port) (addr len : UInt32)
    (output : Option String) :
    (∀ (memory : FlatMemory) (ready : Desk π → TokenCounter → Prop),
      Serves memory ready → ready d .unknown →
      ∃ (chunks : List Bytes) (d' : Desk π),
        OnlySent d d' (Tool.reads addr len.toNat chunks)
          ∧ chunks.length ≤ len.toNat
          ∧ (∀ k < chunks.length, ∃ asked : Nat,
              Tool.nextRead addr len.toNat (chunks.take k)
                = .read (addr + UInt32.ofNat (chunks.take k).flatten.length) (UInt32.ofNat asked)
              ∧ 0 < asked ∧ asked ≤ maxTransfer
              ∧ (chunks.take k).flatten.length + asked ≤ len.toNat)
          ∧ chunks.flatten.length = len.toNat
          ∧ (∀ (i : Nat) (h : i < chunks.flatten.length),
              chunks.flatten[i] = memory (addr + UInt32.ofNat i))
          ∧ d.run ⟨some port, .read addr len output⟩ = d'.reported addr chunks.flatten output)
    ∧ (∀ (chunks : List Bytes) (response : Response) (d₁ d₂ : Desk π) (c₁ c₂ : TokenCounter),
      Collected d .unknown addr len.toNat chunks d₁ c₁ → chunks.flatten.length < len.toNat →
      d₁.hold c₁ (ask (Tool.nextRead addr len.toNat chunks)) = (.ok (response, c₂), d₂) →
      (∀ token chunk, response = .data token .ok chunk → chunk = []) →
        d.run ⟨some port, .read addr len output⟩ = (.error
            (Tool.barrenFailure (addr + UInt32.ofNat chunks.flatten.length) response), d₂)
          ∧ OnlySent d d₂
              (Tool.reads addr len.toNat chunks ++ [Tool.nextRead addr len.toNat chunks])) := by
  constructor
  · intro memory ready hserves hready
    obtain ⟨chunks, d', c', h, hwhole, hhas⟩ := hserves.collected hready addr len.toNat
    refine ⟨chunks, d', h.onlySent, hwhole ▸ h.length_le, ?_, hwhole, hhas, ?_⟩
    · intro k hk
      have hleft := h.left_of_lt hk
      have hmax : maxTransfer = 256 := rfl
      exact ⟨min (len.toNat - (chunks.take k).flatten.length) maxTransfer, rfl, by omega,
        Nat.min_le_right _ _, by omega⟩
    · exact run_read_of_hold output hport (h.hold_readChunks_of_whole hwhole)
  · intro chunks response d₁ d₂ c₁ c₂ h hleft hanswer hbarren
    exact ⟨run_read_of_barren hport h hleft hanswer hbarren,
      h.onlySent.trans (onlySent_of_hold_ask trivial hanswer)⟩

end Desk

/-! ### A sparing device -/

/-- A device that keeps back some of what it was asked for. -/
structure Sparing where
  memory : FlatMemory
  /-- How many bytes the answer with a token brings at most. -/
  most : UInt32 → Nat
  /-- The token of the next answer. -/
  token : UInt32

namespace Sparing

variable {p : Sparing} {addr len : UInt32}

/-- How many bytes come when so many were asked for. -/
def share (p : Sparing) (len : UInt32) : UInt32 :=
  UInt32.ofNat (min len.toNat (p.most p.token))

/-- The answer to a read. -/
def answer (p : Sparing) (addr len : UInt32) : Response :=
  .data p.token .ok (p.memory.load addr (p.share len))

instance : FarEnd Sparing where
  take p frame :=
    match Frame.decode (Decode.command .device) frame with
    | .ok (.read addr len) =>
      (.sent ((Frame.wrap (Encode.response (p.answer addr len))).map .byte),
        { p with token := p.token + 1 })
    | _ => (.sent [], p)

theorem answers (p : Sparing) (addr len : UInt32) :
    Answers p (.read addr len) (p.answer addr len) { p with token := p.token + 1 } := by
  have hdecode : Frame.decode (Decode.command .device)
      (Frame.wrap (Encode.command (.read addr len))) = .ok (.read addr len) :=
    Frame.decode_wrap (Reads.command trivial)
  unfold Answers FarEnd.take instFarEnd
  simp only [hdecode]

theorem toNat_share : (p.share len).toNat = min len.toNat (p.most p.token) :=
  UInt32.toNat_ofNat_of_lt' (Nat.lt_of_le_of_lt (Nat.min_le_left _ _) len.toNat_lt_size)

/-- As long as it never keeps everything back, it supplies its memory. -/
theorem supplies (memory : FlatMemory) {most : UInt32 → Nat} (hmost : ∀ token, 0 < most token) :
    Desk.Supplies memory fun (p : Sparing) token => p = ⟨memory, most, token⟩ := by
  refine ⟨fun {p token} hp addr len hpos hmax => ?_⟩
  subst hp
  have hlength : (memory.load addr (share ⟨memory, most, token⟩ len)).length
      = min len.toNat (most token) := by
    rw [FlatMemory.length_load, toNat_share]
  have hsome := hmost token
  refine ⟨_, _, answers _ addr len, ?_, ?_, FlatMemory.has_load _, rfl⟩
  · exact List.length_pos_iff.mp (by rw [hlength]; omega)
  · rw [hlength]
    exact Nat.min_le_left _ _

/-- A desk with such a device, whose memory has the last byte of each address there. -/
def desk (most : UInt32 → Nat) : Desk Sparing :=
  { Desk.bare [] ⟨fun addr => addr.toUInt8, most, 0⟩ with port := some "tty" }

/-- Five bytes that lie around the end of the address space are read two at a time and put into
    a file. When nothing comes the second time, the read fails there, and there is no file. -/
theorem run_read_of_sparing_answers :
    (∃ (chunks : List Bytes) (d' : Desk Sparing), OnlySent (desk fun _ => 2) d'
        (Tool.reads 0xFFFFFFFE 5 chunks)
      ∧ (desk fun _ => 2).run ⟨some "tty", .read 0xFFFFFFFE 5 (some "out")⟩
        = d'.reported 0xFFFFFFFE [0xFE, 0xFF, 0, 1, 2] (some "out"))
    ∧ ∃ d', (desk fun token => if token = 0 then 2 else 0).run
          ⟨some "tty", .read 0xFFFFFFFE 5 (some "out")⟩
        = (.error (.unexpectedAt 0 (.data 1 .ok [])), d')
      ∧ d'.files = [] := by
  constructor
  · have hready : Desk.Waiting
        (fun (p : Sparing) token => p = ⟨fun addr => addr.toUInt8, fun _ => 2, token⟩)
        (desk fun _ => 2) .unknown := ⟨rfl, 0, rfl, .inl rfl⟩
    obtain ⟨chunks, d', hsent, -, -, hlength, hbytes, hrun⟩ :=
      (Desk.run_read_of_short_answers (d := desk fun _ => 2) rfl 0xFFFFFFFE 5 (some "out")).1 _ _
        (supplies _ fun _ => Nat.zero_lt_two).serves hready
    have hload : chunks.flatten = [0xFE, 0xFF, 0, 1, 2] :=
      FlatMemory.Has.eq_load hbytes hlength
    rw [hload] at hrun
    exact ⟨chunks, d', hsent, hrun⟩
  · let d := desk fun token => if token = 0 then 2 else 0
    let d₁ := d.asked [Tool.nextRead 0xFFFFFFFE 5 []] { d.farEnd with token := 1 }
    let d₂ := d₁.asked [Tool.nextRead 0xFFFFFFFE 5 [[0xFE, 0xFF]]] { d.farEnd with token := 2 }
    have hfits : ∀ token chunk, chunk.length ≤ 2 → Response.Fits .device (.data token .ok chunk) :=
      fun _ _ h => Limits.admits_page (Nat.le_trans h (by decide))
    have hfirst : d.hold .unknown (ask (Tool.nextRead 0xFFFFFFFE 5 []))
        = (.ok (.data 0 .ok [0xFE, 0xFF], ⟨some 1⟩), d₁) :=
      Desk.hold_ask trivial (hfits 0 _ (by decide)) rfl (answers d.farEnd 0xFFFFFFFE 5) rfl
    have hsecond : d₁.hold ⟨some 1⟩ (ask (Tool.nextRead 0xFFFFFFFE 5 [[0xFE, 0xFF]]))
        = (.ok (.data 1 .ok [], ⟨some 2⟩), d₂) :=
      Desk.hold_ask trivial (hfits 1 _ (by decide)) rfl (answers d₁.farEnd 0 3) rfl
    obtain ⟨hrun, hsent⟩ :=
      (Desk.run_read_of_short_answers (d := d) rfl 0xFFFFFFFE 5 (some "out")).2 _ _ _ _ _ _
        (Desk.Collected.nothing.chunk (by decide) hfirst (by decide)) (by decide) hsecond
        (fun _ _ h => by cases h; rfl)
    exact ⟨d₂, hrun, hsent.files⟩

end Sparing

end Reflash
