import Reflash.Bench.Desk
import Reflash.Proofs.FrameRoundTrip
import Reflash.Proofs.PackedImage
import Reflash.Proofs.Session
/-! # The tool in conversation

  The tool sits at a desk and sends an image file to whatever is at the far end of its
  port. As long as each command gets the answer that is due, `ask` gives that answer
  back, and `flash` goes through all sectors and on to the end. `Converses` says of a far
  end what it answers, and `TokenCounter.follow` that the tool takes these answers for
  those that are due.
-/

namespace Reflash

/-! ### Image files -/

namespace ImageFile

/-- A file is cut where its sectors were put together. -/
theorem pieces_toBytes (sectors : List Sector) :
    pieces 512 (toBytes sectors) = sectors.map Vector.toList
      ∧ (toBytes sectors).length = 512 * sectors.length := by
  unfold toBytes
  induction sectors with
  | nil => exact ⟨by simp [pieces], rfl⟩
  | cons s rest ih =>
    have hlength : s.toList.length = 512 := Vector.length_toList
    rw [List.flatMap_cons, pieces_append hlength (by decide), ih.1, List.length_append, hlength,
      ih.2, List.length_cons, Nat.mul_succ, Nat.add_comm]
    exact ⟨rfl, rfl⟩

/-- The sectors of a file are those that were put into it. -/
theorem sectors?_toBytes {sectors : List Sector} (h : sectors ≠ []) :
    sectors? (toBytes sectors) = some sectors := by
  obtain ⟨hpieces, hlength⟩ := pieces_toBytes sectors
  have hpos := List.length_pos_iff.mpr h
  have hempty : (toBytes sectors).isEmpty = false := by
    rw [List.isEmpty_eq_false_iff, ← List.length_pos_iff]
    omega
  have hwhole : (toBytes sectors).length % 512 = 0 := by
    rw [hlength, Nat.mul_mod_right]
  have hback : (fun s : Sector => Sector.ofBytes? s.toList) = some :=
    funext Sector.ofBytes?_toList
  unfold sectors?
  rw [hempty, hwhole, hpieces, List.filterMap_map]
  show some (sectors.filterMap fun s => Sector.ofBytes? s.toList) = some sectors
  rw [hback, List.filterMap_some]

/-- When all sectors are blocks for the family, they all match. The count is a word, and with
    fewer sectors than there are words it does not go round. -/
theorem matching_summarize {sectors : List Sector} {familyId : UInt32}
    (hfew : sectors.length < UInt32.size)
    (h : ∀ s ∈ sectors, ∃ block, Block.ofSectorFor? s familyId = .ok block) :
    (summarize sectors familyId).matching = sectors.length := by
  have hfold : ∀ start : Summary, (sectors.foldl (Summary.add familyId) start).matchingCount
      = start.matchingCount + UInt32.ofNat sectors.length := by
    clear hfew
    induction sectors with
    | nil => exact fun start => (UInt32.add_zero _).symm
    | cons s rest ih =>
      intro start
      obtain ⟨block, hblock⟩ := h s List.mem_cons_self
      have hadd : (Summary.add familyId start s).matchingCount = start.matchingCount + 1 := by
        simp only [Summary.add, hblock, Summary.addBlock]
      rw [List.foldl_cons, ih fun s' hs' => h s' (List.mem_cons_of_mem _ hs'), hadd,
        List.length_cons, Nat.add_comm, UInt32.ofNat_add, UInt32.add_assoc]
      rfl
  rw [Summary.matching, summarize, hfold]
  show (0 + UInt32.ofNat sectors.length).toNat = sectors.length
  rw [UInt32.zero_add, UInt32.toNat_ofNat_of_lt' hfew]

end ImageFile

/-! ### Answers that are due -/

namespace TokenCounter

/-- The count after some answers, if each of them was the one that was due. -/
def follow (c : TokenCounter) : List Response → Option TokenCounter
  | [] => some c
  | response :: rest =>
    match c.check response with
    | (c, .accept) => c.follow rest
    | _ => none

theorem follow_cons_eq_some {c c'' : TokenCounter} {response : Response} {rest : List Response} :
    c.follow (response :: rest) = some c''
      ↔ ∃ c', c.check response = (c', .accept) ∧ c'.follow rest = some c'' := by
  rw [follow]
  constructor
  · intro h
    split at h
    · exact ⟨_, ‹_›, h⟩
    · cases h
  · rintro ⟨c', hcheck, hrest⟩
    rw [hcheck]
    exact hrest

theorem follow_append_eq_some {c c'' : TokenCounter} {earlier later : List Response} :
    c.follow (earlier ++ later) = some c''
      ↔ ∃ c', c.follow earlier = some c' ∧ c'.follow later = some c'' := by
  induction earlier generalizing c with
  | nil => simp [follow]
  | cons response earlier ih =>
    simp only [List.cons_append, follow_cons_eq_some, ih]
    constructor
    · rintro ⟨c₁, hcheck, c', hearlier, hlater⟩
      exact ⟨c', ⟨c₁, hcheck, hearlier⟩, hlater⟩
    · rintro ⟨c', ⟨c₁, hcheck, hearlier⟩, hlater⟩
      exact ⟨c₁, hcheck, c', hearlier, hlater⟩

/-- Answers bear the tokens from one on. -/
def Numbered : UInt32 → List Response → Prop
  | _, [] => True
  | token, response :: rest => response.token? = some token ∧ Numbered (token + 1) rest

/-- An answer with the next token is the one that is due. When the count is not known, every
    answer is. -/
theorem check_of_token {c : TokenCounter} {response : Response} {token : UInt32}
    (hcount : c.next = none ∨ c.next = some token) (htoken : response.token? = some token) :
    c.check response = (⟨some (token + 1)⟩, .accept) := by
  obtain ⟨next⟩ := c
  obtain ⟨⟨told, status⟩, hcompletion, rfl⟩ := Option.map_eq_some_iff.mp htoken
  unfold check
  simp only [hcompletion]
  rcases hcount with rfl | rfl
  · rfl
  · exact if_pos rfl

/-- Answers whose tokens go on from the next one are those that are due. -/
theorem follow_of_numbered {c : TokenCounter} {token : UInt32} {responses : List Response}
    (hcount : c.next = none ∨ c.next = some token) (h : Numbered token responses) :
    ∃ c', c.follow responses = some c' := by
  induction responses generalizing c token with
  | nil => exact ⟨c, rfl⟩
  | cons response rest ih =>
    obtain ⟨htoken, hrest⟩ := h
    obtain ⟨c', hc'⟩ := ih (c := ⟨some (token + 1)⟩) (.inr rfl) hrest
    exact ⟨c', follow_cons_eq_some.mpr ⟨_, check_of_token hcount htoken, hc'⟩⟩

end TokenCounter

/-! ### What is said -/

/-- The sectors of a file, and the answers of a device that has counted `lba` commands so
    far. -/
def sectorExchanges (lba : Nat) (sectors : List Sector) : List (Command × Response) :=
  (sectors.zipIdx lba).map fun s =>
    (Command.forSector s.2 s.1, .ack (UInt32.ofNat (s.2 + 1)) .ok)

/-- All that is said when a file is sent: its sectors, and then the report of the device. -/
def flashExchanges (sectors : List Sector) (report : Response) : List (Command × Response) :=
  sectorExchanges 0 sectors ++ [(.getStatus, report)]

/-- The answers to sectors bear the tokens from the first of them on. -/
theorem numbered_sectorExchanges (lba : Nat) (sectors : List Sector) :
    TokenCounter.Numbered (UInt32.ofNat (lba + 1))
      ((sectorExchanges lba sectors).map Prod.snd) := by
  induction sectors generalizing lba with
  | nil => trivial
  | cons sector rest ih =>
    have hnext : UInt32.ofNat (lba + 1) + 1 = UInt32.ofNat (lba + 1 + 1) :=
      (UInt32.ofNat_add (lba + 1) 1).symm
    refine ⟨rfl, ?_⟩
    rw [hnext]
    exact ih (lba + 1)

/-- When a file is sent to a device that has just been started, all answers are those that
    are due. -/
theorem follow_flashExchanges (sectors : List Sector) {report : Response}
    (h : report.completion = none) :
    ∃ c, TokenCounter.unknown.follow ((flashExchanges sectors report).map Prod.snd) = some c := by
  obtain ⟨c, hsectors⟩ : ∃ c, TokenCounter.unknown.follow
      ((sectorExchanges 0 sectors).map Prod.snd) = some c :=
    TokenCounter.follow_of_numbered (.inl rfl) (numbered_sectorExchanges 0 sectors)
  have hreport : c.check report = (⟨c.next.map (· + 1)⟩, .accept) := by
    unfold TokenCounter.check
    rw [h]
  rw [flashExchanges, List.map_append]
  exact ⟨_, TokenCounter.follow_append_eq_some.mpr
    ⟨c, hsectors, TokenCounter.follow_cons_eq_some.mpr ⟨_, hreport, rfl⟩⟩⟩

/-! ### The far end -/

section
variable {π : Type} [FarEnd π]

/-- The far end answers a command. -/
def Answers (p : π) (command : Command) (response : Response) (p' : π) : Prop :=
  FarEnd.take p (Frame.wrap (Encode.command command))
    = (.sent ((Frame.wrap (Encode.response response)).map .byte), p')

/-- The far end answers commands one after the other. -/
inductive Converses : π → List (Command × Response) → π → Prop where
  | nil (p : π) : Converses p [] p
  | cons {p p' p'' : π} {command : Command} {response : Response}
      {exchanges : List (Command × Response)} (answers : Answers p command response p')
      (rest : Converses p' exchanges p'') : Converses p ((command, response) :: exchanges) p''

theorem converses_append {p p'' : π} {earlier later : List (Command × Response)} :
    Converses p (earlier ++ later) p'' ↔ ∃ p', Converses p earlier p' ∧ Converses p' later p'' := by
  constructor
  · intro h
    induction earlier generalizing p with
    | nil => exact ⟨p, .nil p, h⟩
    | cons exchange earlier ih =>
      cases h with
      | cons answers rest =>
        obtain ⟨p', hearlier, hlater⟩ := ih rest
        exact ⟨p', .cons answers hearlier, hlater⟩
  · rintro ⟨p', hearlier, hlater⟩
    induction hearlier with
    | nil => exact hlater
    | cons answers _ ih => exact .cons answers (ih hlater)

namespace Desk

variable {d d' : Desk π} {counter counter' : TokenCounter} {α β : Type}

/-- What comes of a talk that is held at a desk. -/
def hold (d : Desk π) (counter : TokenCounter) (talk : Talk (StateM (Desk π)) α) :
    Except Failure (α × TokenCounter) × Desk π :=
  ((talk.run counter).run).run d

/-- The desk when some commands were sent and the far end is another one. -/
def asked (d : Desk π) (commands : List Command) (p : π) : Desk π :=
  { d with
    farEnd := p
    frames := (commands.map fun c => Frame.wrap (Encode.command c)).reverse ++ d.frames }

omit [FarEnd π] in
theorem asked_asked (commands later : List Command) (p p' : π) :
    (d.asked commands p).asked later p' = d.asked (commands ++ later) p' := by
  simp [asked]

omit [FarEnd π] in
theorem asked_print (text : String) (commands : List Command) (p : π) :
    (d.print text).asked commands p = (d.asked commands p).print text := rfl

omit [FarEnd π] in
theorem asked_warn (text : String) (commands : List Command) (p : π) :
    (d.warn text).asked commands p = (d.asked commands p).warn text := rfl

omit [FarEnd π] in
theorem warn_nil : d.warn (staleText []) = d :=
  congrArg (fun warned => { d with warned }) String.append_empty

omit [FarEnd π] in
theorem print_print (text later : String) :
    (d.print text).print later = d.print (text ++ later) := by
  simp [print, String.append_assoc]

omit [FarEnd π] in
theorem run_bind_ok {action : ExceptT Failure (StateM (Desk π)) α} {a : α}
    (h : action.run.run d = (.ok a, d')) (next : α → ExceptT Failure (StateM (Desk π)) β) :
    (action >>= next).run.run d = (next a).run.run d' := by
  rw [ExceptT.run_bind, StateT.run_bind, h]
  rfl

omit [FarEnd π] in
theorem hold_bind {talk : Talk (StateM (Desk π)) α} {a : α}
    (h : d.hold counter talk = (.ok (a, counter'), d'))
    (next : α → Talk (StateM (Desk π)) β) :
    d.hold counter (talk >>= next) = d'.hold counter' (next a) := by
  unfold hold
  rw [StateT.run_bind]
  exact run_bind_ok h _

omit [FarEnd π] in
/-- A talk ends at the first failure. -/
theorem hold_bind_error {talk : Talk (StateM (Desk π)) α} {failure : Failure}
    (h : d.hold counter talk = (.error failure, d'))
    (next : α → Talk (StateM (Desk π)) β) :
    d.hold counter (talk >>= next) = (.error failure, d') := by
  unfold hold at h ⊢
  rw [StateT.run_bind, ExceptT.run_bind, StateT.run_bind, h]
  rfl

/-- The desk when what had arrived before was thrown away. -/
def cleared (d : Desk π) : Desk π := { d with buffer := discardBytes d.buffer }

/-- The command whose frame came to this, if the frame got out. -/
def gotOut (command : Command) : Delivery → List Command
  | .notWritten _ => []
  | _ => [command]

/-- What comes of a command whose frame came to this. The desk is the one before the answer is
    waited for. -/
def outcome (d : Desk π) (counter : TokenCounter) :
    Delivery → Except Failure (Response × TokenCounter) × Desk π
  | .notWritten reason => (.error (.portWrite reason), d)
  | .notFlushed reason => (.error (.portFlush reason), d)
  | .sent arrived =>
    let heard := listen quiet counter #[] (d.buffer ++ arrived)
    (heard.result.map fun response => (response, heard.counter),
      { d.warn (staleText heard.stale) with buffer := heard.rest })

theorem transmit_eq {command : Command} {delivery : Delivery} {p : π}
    (htake : FarEnd.take d.farEnd (Frame.wrap (Encode.command command)) = (delivery, p)) :
    d.transmit (Frame.wrap (Encode.command command))
      = (delivery, d.asked (gotOut command delivery) p) := by
  unfold transmit
  rw [htake]
  cases delivery <;> rfl

/-- What comes of a command, whatever the far end makes of its frame. -/
theorem hold_ask_of_take {command : Command} {delivery : Delivery} {p : π}
    (hcommand : command.Fits .device)
    (htake : FarEnd.take d.farEnd (Frame.wrap (Encode.command command)) = (delivery, p)) :
    d.hold counter (ask command)
      = (d.cleared.asked (gotOut command delivery) p).outcome counter delivery := by
  have htransmit := transmit_eq (d := d.cleared) htake
  have hclear : d.hold counter (liftM (Host.keep (m := StateM (Desk π)) (discardBytes d.buffer)))
      = (.ok ((), counter), d.cleared) := rfl
  unfold ask
  rw [Frame.wrap?_command hcommand]
  -- What had arrived is looked at, thrown away and looked at again.
  refine (hold_bind rfl _).trans ?_
  refine (hold_bind hclear _).trans ?_
  refine (hold_bind rfl _).trans ?_
  refine (hold_bind rfl _).trans ?_
  refine (hold_bind rfl _).trans ?_
  refine (hold_bind (congrArg (fun x => (Except.ok (x.1, counter), x.2)) htransmit) _).trans ?_
  cases delivery with
  | notWritten reason => rfl
  | notFlushed reason => rfl
  | sent arrived =>
    unfold outcome
    dsimp only [asked]
    cases (listen quiet counter #[] (d.cleared.buffer ++ arrived)).result with
    | ok response => rfl
    | error failure => rfl

/-- A command was sent, and what came back settles the matter. The tool warns of the answers
    that it skipped, and what it has not looked at is left for later. -/
theorem hold_ask_of_heard {command : Command} {result : Except Failure Response} {p : π}
    {arrived rest : List Arrival} {stale : List UInt32} (hcommand : command.Fits .device)
    (hbuffer : d.buffer = [])
    (htake : FarEnd.take d.farEnd (Frame.wrap (Encode.command command)) = (.sent arrived, p))
    (hheard : ∀ quiet, listen quiet counter #[] arrived = ⟨result, counter', stale, rest⟩) :
    d.hold counter (ask command) = (result.map fun response => (response, counter'),
      { (d.asked [command] p).warn (staleText stale) with buffer := rest }) := by
  -- There is nothing to throw away, and nothing was heard yet.
  have hempty : (d.cleared.asked (gotOut command (.sent arrived)) p).buffer = [] :=
    congrArg discardBytes hbuffer
  rw [hold_ask_of_take hcommand htake]
  simp only [outcome, hempty, List.nil_append, hheard]
  rfl

/-- The tool gets the answer to its command. -/
theorem hold_ask {command : Command} {response : Response} {p : π}
    (hcommand : command.Fits .device) (hresponse : response.Fits .device)
    (hbuffer : d.buffer = []) (hanswers : Answers d.farEnd command response p)
    (haccept : counter.check response = (counter', .accept)) :
    d.hold counter (ask command) = (.ok (response, counter'), d.asked [command] p) := by
  have hheard : ∀ quiet,
      listen quiet counter #[] ((Frame.wrap (Encode.response response)).map .byte)
        = ⟨.ok response, counter', [], []⟩ := by
    intro quiet
    rw [← List.append_nil (List.map _ _)]
    exact listen_wrap hresponse haccept []
  rw [hold_ask_of_heard hcommand hbuffer hanswers hheard]
  rw [warn_nil]
  exact congrArg (fun buffer => (Except.ok (response, counter'),
    { d.asked [command] p with buffer })) hbuffer.symm

omit [FarEnd π] in
theorem hold_lift {action : ExceptT Failure (StateM (Desk π)) α} {a : α}
    (h : action.run.run d = (.ok a, d')) :
    d.hold counter (liftM action) = (.ok (a, counter), d') := by
  unfold hold
  exact run_bind_ok h fun a => pure (a, counter)

omit [FarEnd π] in
theorem hold_lift_error {action : ExceptT Failure (StateM (Desk π)) α} {failure : Failure}
    (h : action.run.run d = (.error failure, d')) :
    d.hold counter (liftM action) = (.error failure, d') := by
  show (action >>= fun a => pure (a, counter)).run.run d = _
  rw [ExceptT.run_bind, StateT.run_bind, h]
  rfl

/-- A request is met when its command is acknowledged. -/
theorem hold_demand (request : Request) {command : Command} {token : UInt32} {p : π}
    (hcommand : command.Fits .device) (hbuffer : d.buffer = [])
    (hanswers : Answers d.farEnd command (.ack token .ok) p)
    (haccept : counter.check (.ack token .ok) = (counter', .accept)) :
    d.hold counter (Tool.demand request command) = (.ok ((), counter'), d.asked [command] p) := by
  unfold Tool.demand
  have hfits : Response.Fits .device (.ack token .ok) := trivial
  refine (hold_bind (hold_ask hcommand hfits hbuffer hanswers haccept) _).trans ?_
  exact hold_lift rfl

/-- All sectors are sent, one after the other. -/
theorem hold_sendSectors {lba : Nat} {sectors : List Sector} {p : π} (hbuffer : d.buffer = [])
    (hconverses : Converses d.farEnd (sectorExchanges lba sectors) p)
    (hfollow : counter.follow ((sectorExchanges lba sectors).map Prod.snd) = some counter') :
    d.hold counter (Tool.sendSectors lba sectors)
      = (.ok ((), counter'), d.asked ((sectorExchanges lba sectors).map Prod.fst) p) := by
  induction sectors generalizing lba counter d with
  | nil =>
    cases hconverses
    cases hfollow
    rfl
  | cons sector rest ih =>
    obtain ⟨c, haccept, hfollow⟩ := TokenCounter.follow_cons_eq_some.mp hfollow
    cases hconverses with
    | cons hanswers hconverses =>
      have hcommand : Command.writeSector? (UInt32.ofNat lba) sector.toList
          = some (.forSector lba sector) := if_pos (Nat.le_of_eq Vector.length_toList)
      unfold Tool.sendSectors
      rw [hcommand]
      refine (hold_bind (hold_demand (.sector lba) (Command.fits_forSector _ _) hbuffer hanswers
        haccept) _).trans ?_
      refine (ih (d := d.asked _ _) hbuffer hconverses hfollow).trans ?_
      rw [asked_asked]
      rfl

/-- What is printed when a file is sent. -/
def flashText (path : String) (sectors : Nat) : String :=
  String.join (["UF2:    " ++ path ++ " (" ++ Tool.count sectors "sectors" ++ ", "
      ++ Tool.count sectors "RP2040 blocks" ++ ")", "", "",
    "Image complete, device is rebooting."].map fun line => line ++ "\n")

theorem run_writeAll (path : String) (bytes : Bytes) :
    (Tool.writeAll (m := StateM (Desk π)) path bytes).run.run d
      = ((d.save path bytes).1.mapError (.cannotWrite path), (d.save path bytes).2) := by
  unfold Tool.writeAll
  refine (run_bind_ok (congrArg (fun saved => (Except.ok saved.1, saved.2))
    (show (Host.save path bytes : StateM (Desk π) _).run d = d.save path bytes from rfl))
    _).trans ?_
  cases (d.save path bytes).1 <;> rfl

theorem run_readAll {path : String} {bytes : Bytes} (hfile : d.fetch path = .ok bytes) :
    (Tool.readAll (m := StateM (Desk π)) path).run.run d = (.ok bytes, d) := by
  unfold Tool.readAll
  exact run_bind_ok (congrArg (fun got => (Except.ok got, d)) hfile) _

/-- The sectors are read from the file. -/
theorem run_readSectors {path : String} {sectors : List Sector}
    (hfile : d.fetch path = .ok (ImageFile.toBytes sectors)) (hne : sectors ≠ []) :
    (Tool.readSectors (m := StateM (Desk π)) path).run.run d = (.ok sectors, d) := by
  unfold Tool.readSectors
  refine (run_bind_ok (run_readAll hfile) _).trans ?_
  rw [ImageFile.sectors?_toBytes hne]
  rfl

/-- A whole file is sent, and the device reports that it has got the image. -/
theorem hold_flash {path : String} {sectors : List Sector} {report : Response} {p : π}
    (hfile : d.fetch path = .ok (ImageFile.toBytes sectors)) (hne : sectors ≠ [])
    (hfew : sectors.length < UInt32.size)
    (hblocks : ∀ s ∈ sectors, ∃ block, Block.ofSectorFor? s Header.rp2040Family = .ok block)
    (hbuffer : d.buffer = []) (hconverses : Converses d.farEnd (flashExchanges sectors report) p)
    (hfollow : counter.follow ((flashExchanges sectors report).map Prod.snd) = some counter')
    (hreport : report.Fits .device) (hcomplete : Tool.checkComplete report = .ok ()) :
    d.hold counter (Tool.flash path) = (.ok ((), counter'),
      (d.asked ((flashExchanges sectors report).map Prod.fst) p).print
        (flashText path sectors.length)) := by
  obtain ⟨p', hsectors, hstatus⟩ := converses_append.mp hconverses
  rw [flashExchanges, List.map_append] at hfollow
  obtain ⟨c, hfollow, haccept⟩ := TokenCounter.follow_append_eq_some.mp hfollow
  obtain ⟨c', haccept, hlast⟩ := TokenCounter.follow_cons_eq_some.mp haccept
  cases hlast
  have hmatching := ImageFile.matching_summarize hfew hblocks
  have hsome : sectors.length ≠ 0 := Nat.ne_of_gt (List.length_pos_iff.mpr hne)
  have hanswers : Answers p' .getStatus report p := by
    cases hstatus with
    | cons answers rest =>
      cases rest
      exact answers
  have hstatusFits : Command.Fits .device .getStatus := trivial
  unfold Tool.flash
  refine (hold_bind (hold_lift (run_readSectors hfile hne)) _).trans ?_
  simp only [hmatching, if_neg hsome]
  refine (hold_bind rfl _).trans ?_
  refine (hold_bind rfl _).trans ?_
  refine (hold_bind (hold_sendSectors (d := (d.print _).print _) hbuffer hsectors hfollow)
    _).trans ?_
  refine (hold_bind rfl _).trans ?_
  refine (hold_bind (hold_ask (d := (((d.print _).print _).asked _ _).print _) hstatusFits hreport
    hbuffer hanswers haccept) _).trans ?_
  have hcheck : (orFail (m := StateM (Desk π)) (Tool.checkComplete report)).run.run
      = fun d => (.ok (), d) := by
    rw [hcomplete]
    rfl
  refine (hold_bind (hold_lift (congrFun hcheck _)) _).trans ?_
  refine congrArg (Except.ok ((), counter'), ·) ?_
  have hprinted : flashText path sectors.length
      = ("UF2:    " ++ path ++ " (" ++ Tool.count sectors.length "sectors" ++ ", "
          ++ Tool.count sectors.length "RP2040 blocks" ++ ")" ++ "\n")
        ++ ("" ++ "\n") ++ ("" ++ "\n") ++ ("Image complete, device is rebooting." ++ "\n") := by
    unfold flashText
    simp [String.join]
  rw [hprinted, flashExchanges, List.map_append, ← asked_asked _ _ p' p]
  simp only [asked_print, ← print_print]
  rfl

/-- A run of the tool on a port holds one talk, with no count to begin with. -/
theorem run_withPort {port : String} (hport : d.port = some port)
    (talk : Talk (StateM (Desk π)) Unit) :
    (Tool.withPort (some port) talk).run.run d
      = ((d.hold .unknown talk).1.map Prod.fst, (d.hold .unknown talk).2) := by
  have hconnect : d.connect port = .ok () := if_pos hport
  unfold Tool.withPort
  refine (run_bind_ok (congrArg (fun opened => (Except.ok opened, d)) hconnect) _).trans ?_
  show (talk.run' .unknown).run.run d = _
  unfold StateT.run'
  rw [ExceptT.run_map, StateT.run_map]
  rfl

theorem run_eq_of_hold {port path : String} (hport : d.port = some port)
    (h : d.hold .unknown (Tool.flash path) = (.ok ((), counter), d')) :
    d.run ⟨some port, .flash path⟩ = (.ok (), d') := by
  refine (run_withPort hport (Tool.flash path)).trans ?_
  rw [h]
  rfl

end Desk

end

namespace Loader

/-! ### Over a line -/

namespace Line

variable {σ : Type} [Hardware σ] {l l' : Line σ} {t : Service σ} {command : Command}
  {response : Response}

/-- The line answers a command as the service at its end does. -/
theorem answers_of_carry
    (hcarry : l.service.carry (Frame.wrap (Encode.command command)) (l.schedule.headD []) = .ok t)
    (hsent : t.endpoint.sent = Frame.wrap (Encode.response response)) :
    Answers l command response ⟨t.collected, l.schedule.tail,
      Frame.wrap (Encode.response response) :: l.answers⟩ := by
  show l.take _ = _
  rw [← hsent]
  unfold take
  rw [hcarry]

theorem answers_of_answers (h : Answers l command response l') :
    l'.answers = Frame.wrap (Encode.response response) :: l.answers := by
  change l.take _ = _ at h
  unfold take at h
  split at h
  · cases h
  · -- What arrives at the tool is what the line puts down.
    obtain ⟨hdelivery, rfl⟩ := Prod.mk.inj h
    have hbytes := List.map_injective_iff.mpr (fun _ _ hb => Arrival.byte.inj hb)
      (Delivery.sent.inj hdelivery)
    rw [hbytes]

/-- What was sent back over the line are the answers. -/
theorem answers_of_converses {exchanges : List (Command × Response)}
    (h : Converses l exchanges l') :
    l'.answers
      = (exchanges.map fun e => Frame.wrap (Encode.response e.2)).reverse ++ l.answers := by
  induction h with
  | nil => rfl
  | cons answers rest ih =>
    rw [ih, answers_of_answers answers, List.map_cons, List.reverse_cons, List.append_assoc]
    rfl

end Line

end Loader

end Reflash
