import Reflash.Proofs.Conversation
import Reflash.Proofs.MemoryRequest
/-! # Memory in chunks

  The tool writes a file to memory and reads it back in chunks of a page, each in a command
  of its own. `MemoryRequest.each` is what it asks for, `chunkExchanges` what is said when
  all goes well. As long as the far end keeps to that, the tool gets through: it has written
  all chunks, or it has read all of them and shows them or puts them into a file.
-/

namespace Reflash

/-! ### Chunks -/

/-- No chunk is longer than a page. -/
theorem length_le_of_mem_pieces {α : Type} {n : Nat} (hn : 0 < n) {xs piece : List α}
    (h : piece ∈ pieces n xs) : piece.length ≤ n := by
  induction xs using pieces.induct n with
  | case1 => simp [pieces] at h
  | case2 a rest ih =>
    rw [pieces] at h
    rcases List.mem_cons.mp h with rfl | h
    · rw [List.length_cons, List.length_take]
      omega
    · exact ih h

namespace MemoryRequest

/-- Requests for chunks that lie one behind the other. -/
def each (request : UInt32 → Bytes → MemoryRequest) : UInt32 → List Bytes → List MemoryRequest
  | _, [] => []
  | addr, chunk :: rest =>
    request addr chunk :: each request (addr + UInt32.ofNat chunk.length) rest

/-- The request for a chunk that is there. -/
def readOf (addr : UInt32) (chunk : Bytes) : MemoryRequest :=
  .read addr (UInt32.ofNat chunk.length)

end MemoryRequest

/-- What is said about chunks that lie one behind the other, if the first command gets this
    token. -/
def chunkExchanges (request : UInt32 → Bytes → MemoryRequest) (answer : UInt32 → Bytes → Response) :
    UInt32 → UInt32 → List Bytes → List (Command × Response)
  | _, _, [] => []
  | token, addr, chunk :: rest =>
    ((request addr chunk).command, answer token chunk)
      :: chunkExchanges request answer (token + 1) (addr + UInt32.ofNat chunk.length) rest

/-- All chunks are written. -/
def writeExchanges : UInt32 → UInt32 → List Bytes → List (Command × Response) :=
  chunkExchanges .write fun token _ => .ack token .ok

/-- All chunks are read. -/
def readExchanges : UInt32 → UInt32 → List Bytes → List (Command × Response) :=
  chunkExchanges .readOf fun token chunk => .data token .ok chunk

section exchanges

variable {request : UInt32 → Bytes → MemoryRequest} {answer : UInt32 → Bytes → Response}

/-- The answers bear one token after the other. -/
theorem numbered_chunkExchanges (hanswer : ∀ token chunk, (answer token chunk).token? = some token)
    (token addr : UInt32) (chunks : List Bytes) :
    TokenCounter.Numbered token
      ((chunkExchanges request answer token addr chunks).map Prod.snd) := by
  induction chunks generalizing token addr with
  | nil => trivial
  | cons chunk rest ih => exact ⟨hanswer token chunk, ih _ _⟩

/-- Whoever does not know the count takes them all for those that are due. -/
theorem follow_chunkExchanges (hanswer : ∀ token chunk, (answer token chunk).token? = some token)
    (token addr : UInt32) (chunks : List Bytes) :
    ∃ c, TokenCounter.unknown.follow
      ((chunkExchanges request answer token addr chunks).map Prod.snd) = some c :=
  TokenCounter.follow_of_numbered (.inl rfl) (numbered_chunkExchanges hanswer token addr chunks)

/-- What the tool asks does not depend on the tokens. -/
theorem map_fst_chunkExchanges (token addr : UInt32) (chunks : List Bytes) :
    (chunkExchanges request answer token addr chunks).map Prod.fst
      = (MemoryRequest.each request addr chunks).map MemoryRequest.command := by
  induction chunks generalizing token addr with
  | nil => rfl
  | cons chunk rest ih =>
    rw [chunkExchanges, MemoryRequest.each, List.map_cons, List.map_cons, ih]

end exchanges

theorem map_fst_writeExchanges (token addr : UInt32) (chunks : List Bytes) :
    (writeExchanges token addr chunks).map Prod.fst
      = (MemoryRequest.each .write addr chunks).map MemoryRequest.command :=
  map_fst_chunkExchanges token addr chunks

theorem map_fst_readExchanges (token addr : UInt32) (chunks : List Bytes) :
    (readExchanges token addr chunks).map Prod.fst
      = (MemoryRequest.each .readOf addr chunks).map MemoryRequest.command :=
  map_fst_chunkExchanges token addr chunks

/-! ### The tool -/

namespace Desk

variable {π : Type} [FarEnd π] {d : Desk π} {counter counter' : TokenCounter} {p : π}
  {token addr : UInt32}

/-- All chunks are written, one after the other. -/
theorem hold_writeChunks {chunks : List Bytes}
    (hshort : ∀ chunk ∈ chunks, chunk.length ≤ maxTransfer) (hbuffer : d.buffer = [])
    (hconverses : Converses d.farEnd (writeExchanges token addr chunks) p)
    (hfollow : counter.follow ((writeExchanges token addr chunks).map Prod.snd) = some counter') :
    d.hold counter (Tool.writeChunks addr chunks)
      = (.ok ((), counter'), d.asked ((writeExchanges token addr chunks).map Prod.fst) p) := by
  induction chunks generalizing token addr counter d with
  | nil =>
    cases hconverses
    cases hfollow
    rfl
  | cons chunk rest ih =>
    obtain ⟨c, haccept, hfollow⟩ := TokenCounter.follow_cons_eq_some.mp hfollow
    cases hconverses with
    | cons hanswers hconverses =>
      have hchunk := hshort chunk List.mem_cons_self
      have hcommand : Command.write? addr chunk = some (.write addr chunk) := if_pos hchunk
      have hfits : Command.Fits .device (.write addr chunk) := Limits.admits_page hchunk
      unfold Tool.writeChunks
      rw [hcommand]
      refine (hold_bind (hold_demand (.write addr) hfits hbuffer hanswers haccept) _).trans ?_
      -- The far end has changed, and the frame has been sent: the rest starts from there.
      refine (ih (d := d.asked _ _) (fun c hc => hshort c (List.mem_cons_of_mem _ hc)) hbuffer
        hconverses hfollow).trans ?_
      rw [asked_asked]
      rfl

/-- All chunks are read, one after the other, and put together again. -/
theorem hold_readChunks {bytes : Bytes} (hbuffer : d.buffer = [])
    (hconverses : Converses d.farEnd (readExchanges token addr (pieces maxTransfer bytes)) p)
    (hfollow : counter.follow ((readExchanges token addr (pieces maxTransfer bytes)).map Prod.snd)
      = some counter') :
    d.hold counter (Tool.readChunks addr bytes.length) = (.ok (bytes, counter'),
      d.asked ((readExchanges token addr (pieces maxTransfer bytes)).map Prod.fst) p) := by
  induction bytes using pieces.induct maxTransfer generalizing token addr counter d with
  | case1 =>
    rw [pieces] at hconverses hfollow ⊢
    cases hconverses
    cases hfollow
    unfold Tool.readChunks
    rfl
  | case2 b rest ih =>
    -- The first chunk is a page, or all that is left. The tool asks for that many bytes, and
    -- it counts on from what has come, so that the lengths have to agree.
    let chunk := b :: rest.take (maxTransfer - 1)
    let later := rest.drop (maxTransfer - 1)
    have hchunk : chunk.length = min (rest.length + 1) maxTransfer := by
      show (rest.take (maxTransfer - 1)).length + 1 = _
      rw [List.length_take]
      have hmax : maxTransfer = 256 := rfl
      omega
    have hlater : later.length = rest.length + 1 - chunk.length := by
      rw [hchunk]
      show (rest.drop (maxTransfer - 1)).length = _
      rw [List.length_drop]
      have hmax : maxTransfer = 256 := rfl
      omega
    have hwhole : chunk ++ later = b :: rest :=
      congrArg (b :: ·) (List.take_append_drop (maxTransfer - 1) rest)
    have hlong : ¬ rest.length + 1 = 0 := Nat.succ_ne_zero _
    have hread : Response.Fits .device (.data token .ok chunk) :=
      Limits.admits_page (by rw [hchunk]; exact Nat.min_le_right _ _)
    rw [pieces] at hconverses hfollow ⊢
    obtain ⟨c, haccept, hfollow⟩ := TokenCounter.follow_cons_eq_some.mp hfollow
    cases hconverses with
    | @cons _ p' _ _ _ _ hanswers hconverses =>
      have hcommand : Command.Fits .device (.read addr (UInt32.ofNat chunk.length)) := trivial
      have hask := hold_ask hcommand hread hbuffer hanswers haccept
      let d' := d.asked [.read addr (UInt32.ofNat chunk.length)] p'
      have hrest := ih (d := d') hbuffer hconverses hfollow
      have hleft : (rest.drop (maxTransfer - 1)).length = rest.length + 1 - chunk.length := hlater
      rw [hleft] at hrest
      rw [List.length_cons, Tool.readChunks, if_neg hlong, ← hchunk]
      refine (hold_bind hask _).trans ?_
      refine (hold_bind (hold_lift rfl) _).trans ?_
      refine (hold_bind hrest _).trans ?_
      show (Except.ok (chunk ++ later, counter'), d'.asked _ p) = _
      rw [hwhole, asked_asked]
      rfl

/-! ### Whole runs -/

section files

omit [FarEnd π]

variable {d' : Desk π}

theorem walk_congr (h : d.files = d'.files) (slash : Bool) (way : String) (names : List String) :
    d.walk slash way names = d'.walk slash way names := by
  have hblocked : d.blocked = d'.blocked := by
    unfold blocked file?
    rw [h]
  induction names generalizing way with
  | nil => rfl
  | cons name rest ih =>
    unfold walk
    rw [hblocked]
    simp only [ih]

/-- What is at a path depends on the files alone. -/
theorem fetch_congr (h : d.files = d'.files) (path : String) : d.fetch path = d'.fetch path := by
  have hcontents : d.contents = d'.contents := by
    unfold contents file?
    rw [h]
  unfold fetch place
  simp only [walk_congr h, hcontents]

end files

/-- What is printed when a file is written. -/
def writeText (path : String) (addr : UInt32) (bytes : Bytes) : String :=
  "Writing " ++ path ++ " (" ++ Tool.count bytes.length "bytes" ++ ", " ++ Tool.checksumText bytes
    ++ ") to " ++ Tool.address addr ++ "\n"

/-- What is printed when flash was erased. -/
def eraseText (addr len : UInt32) : String :=
  ("Erasing " ++ Tool.address addr ++ ".." ++ Tool.address (addr + len) ++ "... ")
    ++ ("OK" ++ "\n")

/-- The desk when a file was written. -/
def written (d : Desk π) (path : String) (addr : UInt32) (bytes : Bytes) (p : π) : Desk π :=
  (d.asked ((MemoryRequest.each .write addr (pieces maxTransfer bytes)).map MemoryRequest.command)
    p).print (writeText path addr bytes)

/-- The desk when flash was erased. -/
def erased (d : Desk π) (addr len : UInt32) (p : π) : Desk π :=
  (d.asked [.flashErase addr len] p).print (eraseText addr len)

/-- The desk when these bytes have come, and before anything is made of them. -/
def received (d : Desk π) (addr : UInt32) (bytes : Bytes) (p : π) : Desk π :=
  d.asked ((MemoryRequest.each .readOf addr (pieces maxTransfer bytes)).map MemoryRequest.command) p

/-- What comes of a desk at which these bytes are shown, or put into a file. -/
def reported (d : Desk π) (addr : UInt32) (bytes : Bytes) :
    Option String → Except Failure Unit × Desk π
  | none =>
    let lines := (Tool.dumpLines addr bytes).map fun line => line ++ "\n"
    (.ok (), (d.print (String.join lines)).print (Tool.checksumText bytes ++ "\n"))
  | some path =>
    match d.save path bytes with
    | (.error cause, d) => (.error (.cannotWrite path cause), d)
    | (.ok (), d) =>
      let line := "Wrote " ++ Tool.count bytes.length "bytes" ++ " to " ++ path ++ "\n"
      (.ok (), (d.print line).print (Tool.checksumText bytes ++ "\n"))

/-- A file is written to memory. -/
theorem run_write {port path : String} {bytes : Bytes} (hport : d.port = some port)
    (hbuffer : d.buffer = []) (hfile : d.fetch path = .ok bytes)
    (hconverses : Converses d.farEnd (writeExchanges token addr (pieces maxTransfer bytes)) p) :
    d.run ⟨some port, .write addr path⟩ = (.ok (), d.written path addr bytes p) := by
  obtain ⟨c, hfollow⟩ : ∃ c, TokenCounter.unknown.follow
      ((writeExchanges token addr (pieces maxTransfer bytes)).map Prod.snd) = some c :=
    follow_chunkExchanges (fun _ _ => rfl) token addr _
  have hshort : ∀ chunk ∈ pieces maxTransfer bytes, chunk.length ≤ maxTransfer :=
    fun chunk hchunk => length_le_of_mem_pieces (by decide) hchunk
  have hheld : d.hold .unknown (Tool.write addr path)
      = (.ok ((), c), d.written path addr bytes p) := by
    unfold Tool.write written
    rw [← map_fst_writeExchanges token]
    refine (hold_bind (hold_lift (run_readAll hfile)) _).trans ?_
    refine (hold_bind rfl _).trans ?_
    exact hold_writeChunks (d := d.print _) hshort hbuffer hconverses hfollow
  refine (run_withPort hport (Tool.write addr path)).trans ?_
  rw [hheld]
  rfl

/-- Flash is erased. -/
theorem run_erase {port : String} {len : UInt32} (hport : d.port = some port)
    (hbuffer : d.buffer = [])
    (hanswers : Answers d.farEnd (.flashErase addr len) (.ack token .ok) p) :
    d.run ⟨some port, .erase addr len⟩ = (.ok (), d.erased addr len p) := by
  have hcommand : Command.Fits .device (.flashErase addr len) := trivial
  have hheld : d.hold .unknown (Tool.erase addr len)
      = (.ok ((), ⟨some (token + 1)⟩), d.erased addr len p) := by
    unfold Tool.erase
    refine (hold_bind rfl _).trans ?_
    have haccept : TokenCounter.unknown.check (.ack token .ok) = (⟨some (token + 1)⟩, .accept) :=
      rfl
    refine (hold_bind (hold_demand (d := d.print _) .erase hcommand hbuffer hanswers haccept)
      _).trans ?_
    rw [erased, eraseText, ← print_print _ ("OK" ++ "\n")]
    rfl
  refine (run_withPort hport (Tool.erase addr len)).trans ?_
  rw [hheld]
  rfl

/-- What was read is reported. -/
theorem run_read_of_hold {port : String} {len : UInt32} {bytes : Bytes} {d' : Desk π}
    (output : Option String) (hport : d.port = some port)
    (hread : d.hold .unknown (Tool.readChunks addr len.toNat) = (.ok (bytes, counter'), d')) :
    d.run ⟨some port, .read addr len output⟩ = d'.reported addr bytes output := by
  refine (run_withPort hport (Tool.read addr len output)).trans ?_
  unfold Tool.read
  rw [hold_bind hread]
  -- What was read is dealt with at the desk alone.
  show ((d'.hold counter' _).1.map Prod.fst, (d'.hold counter' _).2) = d'.reported addr bytes output
  cases output with
  | none => rfl
  | some path =>
    have hwrite := run_writeAll (d := d') path bytes
    cases hsave : d'.save path bytes with
    | mk result e' =>
      rw [hsave] at hwrite
      cases result with
      | error cause =>
        rw [hold_bind_error (hold_lift_error hwrite)]
        simp only [reported, hsave]
        rfl
      | ok _ =>
        rw [hold_bind (hold_lift hwrite)]
        simp only [reported, hsave]
        rfl

/-- Memory is read, and what was read is reported. -/
theorem run_read {port : String} {bytes : Bytes} (output : Option String)
    (hport : d.port = some port) (hbuffer : d.buffer = []) (hlength : bytes.length < UInt32.size)
    (hconverses : Converses d.farEnd (readExchanges token addr (pieces maxTransfer bytes)) p) :
    d.run ⟨some port, .read addr (UInt32.ofNat bytes.length) output⟩
      = (d.received addr bytes p).reported addr bytes output := by
  obtain ⟨c, hfollow⟩ : ∃ c, TokenCounter.unknown.follow
      ((readExchanges token addr (pieces maxTransfer bytes)).map Prod.snd) = some c :=
    follow_chunkExchanges (fun _ _ => rfl) token addr _
  have hlen : (UInt32.ofNat bytes.length).toNat = bytes.length := UInt32.toNat_ofNat_of_lt' hlength
  have hread := hold_readChunks hbuffer hconverses hfollow
  rw [← hlen, map_fst_readExchanges] at hread
  exact run_read_of_hold output hport hread

end Desk

end Reflash
