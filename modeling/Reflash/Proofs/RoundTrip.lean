import Mathlib.Algebra.Group.Nat.Defs
import Mathlib.Data.List.TakeWhile
import Reflash.Wire.Codec
/-! # Messages and back

  What one party writes the other one reads: numbers, stuffed bodies, messages and
  frames, each with the bytes behind it left alone.

  `Reads` says that a reader takes exactly some bytes for a value. Readers are put
  together as the values are written, so a message is read because its parts are.
-/

namespace Reflash

/-! ### Numbers -/

namespace Varint

/-- A number is read back, if it fits the groups that a reader takes. -/
theorem decodeGroups_encode {lastGroup groups n : Nat} (hlast : lastGroup < 128)
    (hn : n < 128 ^ groups * (lastGroup + 1)) (rest : Bytes) :
    decodeGroups lastGroup (groups + 1) (encode n ++ rest) = .ok (n, rest) := by
  induction groups generalizing n with
  | zero =>
    have hsmall : n < 128 := by omega
    have hbyte : (UInt8.ofNat n).toNat = n := UInt8.toNat_ofNat_of_lt' (show _ < 256 by omega)
    have hfits : ¬ lastGroup < n := by omega
    rw [encode, if_pos hsmall]
    simp [decodeGroups, hbyte, hsmall, hfits]
  | succ groups ih =>
    rw [encode]
    by_cases hsmall : n < 128
    · have hbyte : (UInt8.ofNat n).toNat = n := UInt8.toNat_ofNat_of_lt' (show _ < 256 by omega)
      rw [if_pos hsmall]
      simp [decodeGroups, hbyte, hsmall]
    · have hbyte : (UInt8.ofNat (n % 128 + 128)).toNat = n % 128 + 128 :=
        UInt8.toNat_ofNat_of_lt' (show _ < 256 by omega)
      have hmore : ¬ n % 128 + 128 < 128 := by omega
      have hrest : n / 128 < 128 ^ groups * (lastGroup + 1) := by
        rw [Nat.div_lt_iff_lt_mul (by decide), Nat.mul_right_comm]
        exact hn
      have hvalue : n % 128 + 128 - 128 + 128 * (n / 128) = n := by omega
      rw [if_neg hsmall, List.cons_append, decodeGroups, hbyte, if_neg hmore, ih hrest]
      show Except.ok (n % 128 + 128 - 128 + 128 * (n / 128), rest) = _
      rw [hvalue]

theorem decode_word {n : Nat} (h : n < UInt32.size) (rest : Bytes) :
    decode word (encode n ++ rest) = .ok (n, rest) := decodeGroups_encode (by decide) h rest

theorem decode_length {n : Nat} (h : n < 2 ^ 64) (rest : Bytes) :
    decode length (encode n ++ rest) = .ok (n, rest) := decodeGroups_encode (by decide) h rest

/-- A number has as many bytes as it has groups. -/
theorem length_encode_le {groups n : Nat} (hn : n < 128 ^ (groups + 1)) :
    (encode n).length ≤ groups + 1 := by
  induction groups generalizing n with
  | zero =>
    rw [encode, if_pos (by omega)]
    exact Nat.le_refl 1
  | succ groups ih =>
    rw [encode]
    by_cases hsmall : n < 128
    · rw [if_pos hsmall]
      exact Nat.succ_le_succ (Nat.zero_le _)
    · have hrest : n / 128 < 128 ^ (groups + 1) := by
        rw [Nat.div_lt_iff_lt_mul (by decide)]
        exact hn
      rw [if_neg hsmall, List.length_cons]
      exact Nat.succ_le_succ (ih hrest)

end Varint

/-! ### Stuffed bodies -/

namespace Stuffing

theorem firstRun_eq_take (room : Nat) (body : Bytes) :
    firstRun room body = body.take (firstRun room body).length := by
  fun_induction firstRun room body with
  | case1 => rfl
  | case2 => rfl
  | case3 => rfl
  | case4 room b rest _ ih =>
    rw [List.length_cons, List.take_succ_cons, ← ih]

theorem length_firstRun_le_room (room : Nat) (body : Bytes) :
    (firstRun room body).length ≤ room := by
  fun_induction firstRun room body with
  | case1 => exact Nat.le_refl 0
  | case2 => exact Nat.zero_le _
  | case3 => exact Nat.zero_le _
  | case4 room b rest _ ih => exact Nat.succ_le_succ ih

theorem zero_not_mem_firstRun (room : Nat) (body : Bytes) : 0 ∉ firstRun room body := by
  fun_induction firstRun room body with
  | case1 => exact List.not_mem_nil
  | case2 => exact List.not_mem_nil
  | case3 => exact List.not_mem_nil
  | case4 room b rest hb ih =>
    rw [List.mem_cons, not_or]
    exact ⟨fun h => hb h.symm, ih⟩

/-- A run that is not as long as can be ends at a zero, or where the body does. -/
theorem head_drop_firstRun {room : Nat} {body rest : Bytes} {b : UInt8}
    (hroom : (firstRun room body).length < room)
    (h : body.drop (firstRun room body).length = b :: rest) : b = 0 := by
  fun_induction firstRun room body with
  | case1 => exact absurd hroom (Nat.lt_irrefl 0)
  | case2 => cases h
  | case3 room rest' => exact (List.cons.inj h).1.symm
  | case4 room c rest' _ ih => exact ih (Nat.lt_of_succ_lt_succ hroom) h

/-- A piece is taken off the front of what was stuffed. -/
theorem unstuff_piece {run : Bytes} (hrun : run.length ≤ longest) (behind : Bytes) :
    unstuff (piece run ++ behind) =
      ⟨run ++ (if run.length ≠ longest ∧ behind ≠ [] then [0] else []) ++ (unstuff behind).bytes,
        (unstuff behind).wellFormed⟩ := by
  have hlong : longest = 254 := rfl
  have hcode : (UInt8.ofNat (run.length + 1)).toNat = run.length + 1 :=
    UInt8.toNat_ofNat_of_lt' (show _ < 256 by omega)
  have hgap : (UInt8.ofNat (run.length + 1) != 255 && !behind.isEmpty) = true ↔
      run.length ≠ longest ∧ behind ≠ [] := by
    rw [Bool.and_eq_true, bne_iff_ne, Bool.not_eq_true', ← Bool.not_eq_true, List.isEmpty_iff,
      Ne, ← UInt8.toNat_inj, hcode]
    show ¬ run.length + 1 = 255 ∧ _ ↔ _
    rw [hlong]
    refine and_congr_left fun _ => ?_
    omega
  rw [piece, List.cons_append, unstuff]
  simp only [hcode, Nat.add_sub_cancel, List.take_left, List.drop_left, Nat.lt_irrefl, if_false,
    hgap]

theorem stuff_ne_nil (body : Bytes) : stuff body ≠ [] := by
  rw [stuff]
  split
  · exact List.cons_ne_nil _ _
  · split
    · exact List.cons_ne_nil _ _
    · exact List.cons_ne_nil _ _

/-- Stuffing a body and undoing it gives the body. -/
theorem unstuff_stuff (body : Bytes) : unstuff (stuff body) = ⟨body, true⟩ := by
  induction body using stuff.induct with
  | case1 body run hfull ih =>
    have hrun : run = body.take longest := by
      rw [← hfull]
      exact firstRun_eq_take longest body
    rw [stuff, dif_pos hfull, unstuff_piece (Nat.le_of_eq hfull), ih,
      if_neg fun h => h.1 hfull, List.append_nil]
    show Unstuffed.mk (run ++ body.drop longest) true = _
    rw [hrun, List.take_append_drop]
  | case2 body run hfull hnil =>
    have hrun : run = body := by
      rw [← List.take_append_drop run.length body, hnil, List.append_nil]
      exact firstRun_eq_take longest body
    have hpiece := unstuff_piece (length_firstRun_le_room longest body) []
    rw [List.append_nil] at hpiece
    rw [stuff, dif_neg hfull]
    split
    · rw [hpiece, unstuff, if_neg fun h => h.2 rfl, List.append_nil, List.append_nil]
      exact congrArg (Unstuffed.mk · true) hrun
    · rename_i heq
      rw [hnil] at heq
      cases heq
  | case3 body run hfull b rest hcons ih =>
    have hle := length_firstRun_le_room longest body
    have hb : b = 0 := head_drop_firstRun (Nat.lt_of_le_of_ne hle hfull) hcons
    have hbody : run ++ ([0] ++ rest) = body := by
      rw [← hb, List.singleton_append, ← hcons]
      exact (congrArg (· ++ _) (firstRun_eq_take longest body)).trans (List.take_append_drop _ _)
    rw [stuff, dif_neg hfull]
    split
    · rename_i heq
      rw [hcons] at heq
      cases heq
    · rename_i heq
      rw [hcons] at heq
      cases heq
      rw [unstuff_piece hle, if_pos ⟨hfull, stuff_ne_nil rest⟩, ih, List.append_assoc]
      exact congrArg (Unstuffed.mk · true) hbody

theorem zero_not_mem_piece {run : Bytes} (hlength : run.length ≤ longest) (h : 0 ∉ run) :
    0 ∉ piece run := by
  have hlong : longest = 254 := rfl
  rw [piece, List.mem_cons, not_or]
  refine ⟨fun hcode => ?_, h⟩
  have hnat := congrArg UInt8.toNat hcode
  rw [UInt8.toNat_ofNat_of_lt' (show _ < 256 by omega)] at hnat
  exact absurd hnat (Nat.zero_ne_add_one _)

/-- No zero is left in what was stuffed. -/
theorem zero_not_mem_stuff (body : Bytes) : 0 ∉ stuff body := by
  have hpiece : ∀ body, 0 ∉ piece (firstRun longest body) := fun body =>
    zero_not_mem_piece (length_firstRun_le_room _ _) (zero_not_mem_firstRun _ _)
  induction body using stuff.induct with
  | case1 body run hfull ih =>
    rw [stuff, dif_pos hfull, List.mem_append, not_or]
    exact ⟨hpiece body, ih⟩
  | case2 body run hfull hnil =>
    rw [stuff, dif_neg hfull]
    split
    · exact hpiece body
    · rename_i heq
      rw [hnil] at heq
      cases heq
  | case3 body run hfull b rest hcons ih =>
    rw [stuff, dif_neg hfull]
    split
    · exact hpiece body
    · rename_i heq
      rw [hcons] at heq
      cases heq
      rw [List.mem_append, not_or]
      exact ⟨hpiece body, ih⟩

/-- Stuffing costs one byte, and one more for each longest piece. -/
theorem length_stuff_le (body : Bytes) :
    (stuff body).length ≤ body.length + body.length / longest + 1 := by
  have hlong : longest = 254 := rfl
  have hpiece : ∀ run, (piece run).length = run.length + 1 := fun run => List.length_cons
  rw [hlong]
  induction body using stuff.induct with
  | case1 body run hfull ih =>
    have hfits : run.length ≤ body.length := length_firstRun_le longest body
    rw [stuff, dif_pos hfull, List.length_append, hpiece, hfull]
    rw [List.length_drop] at ih
    omega
  | case2 body run hfull hnil =>
    have hfits : run.length ≤ body.length := length_firstRun_le longest body
    rw [stuff, dif_neg hfull]
    split
    · rw [hpiece]
      show run.length + 1 ≤ _
      omega
    · rename_i heq
      rw [hnil] at heq
      cases heq
  | case3 body run hfull b rest hcons ih =>
    have hbody := congrArg List.length hcons
    rw [List.length_drop, List.length_cons] at hbody
    have hmono : rest.length / 254 ≤ body.length / 254 := Nat.div_le_div_right (by omega)
    rw [stuff, dif_neg hfull]
    split
    · rename_i heq
      rw [hcons] at heq
      cases heq
    · rename_i heq
      rw [hcons] at heq
      cases heq
      rw [List.length_append, hpiece]
      show run.length + 1 + _ ≤ _
      omega

end Stuffing

/-! ### Values -/

/-- A reader takes exactly these bytes for a value, whatever stands behind them. -/
def Reads {α : Type} (d : Decoder α) (bytes : Bytes) (a : α) : Prop :=
  ∀ rest, d (bytes ++ rest) = .ok (a, rest)

namespace Reads

variable {α β : Type} {d : Decoder α} {f : α → Decoder β} {front back : Bytes} {a : α} {b : β}

theorem pure (a : α) : Reads (Pure.pure a) [] a := fun _ => rfl

/-- Two readers one after the other take what each of them takes. -/
theorem bind (h : Reads d front a) (h' : Reads (f a) back b) :
    Reads (d >>= f) (front ++ back) b := by
  intro rest
  show (d (front ++ back ++ rest) >>= fun p => f p.1 p.2) = _
  rw [List.append_assoc, h]
  exact h' rest

/-- What follows takes no more bytes. -/
theorem bind_nil (h : Reads d front a) (h' : Reads (f a) [] b) : Reads (d >>= f) front b := by
  have hread := h.bind h'
  rwa [List.append_nil] at hread

theorem bind_pure {g : α → β} (h : Reads d front a) :
    Reads (d >>= fun a => Pure.pure (g a)) front (g a) := h.bind_nil (pure (g a))

theorem run (h : Reads d front a) : d.run front = .ok a := by
  have hread := h []
  rw [List.append_nil] at hread
  show (d front).map Prod.fst = _
  rw [hread]
  rfl

theorem byte (b : UInt8) : Reads Decode.byte [b] b := fun _ => rfl

theorem choice {n : Nat} (h : n < UInt32.size) : Reads Decode.choice (Encode.choice n) n :=
  fun rest => Varint.decode_word h rest

theorem word (w : UInt32) : Reads Decode.word (Encode.word w) w := by
  have hread : Reads Decode.word (Encode.word w) (UInt32.ofNat w.toNat) :=
    bind_pure (d := Decode.number Varint.word) fun rest => Varint.decode_word w.toNat_lt_size rest
  rwa [UInt32.ofNat_toNat] at hread

theorem take {limit : Option Nat} {bytes : Bytes} (h : ∀ room ∈ limit, bytes.length ≤ room) :
    Reads (Decode.take limit bytes.length) bytes bytes := by
  intro rest
  unfold Decode.take
  cases limit with
  | none => simp
  | some room =>
    have hroom : bytes.length ≤ room := h room rfl
    have hmin : min bytes.length (room + 1) = bytes.length := by omega
    simp [hmin, Nat.not_lt.mpr hroom]

theorem blob {limit : Option Nat} {bytes : Bytes} (h : ∀ room ∈ limit, bytes.length ≤ room)
    (hlength : bytes.length < 2 ^ 64) : Reads (Decode.blob limit) (Encode.blob bytes) bytes :=
  bind (d := Decode.number Varint.length) (fun rest => Varint.decode_length hlength rest) (take h)

theorem bool (b : Bool) : Reads Decode.bool (Encode.bool b) b := by
  cases b <;> exact fun _ => rfl

theorem status (s : Status) : Reads Decode.status (Encode.status s) s := by
  cases s <;> exact fun _ => rfl

theorem mode (m : AccessMode) : Reads Decode.mode (Encode.mode m) m := by
  have hpresent : Reads (Decode.present (AccessMode.ofNat? m.toNat)) [] m := by
    rw [AccessMode.ofNat?_toNat]
    exact pure m
  have hsmall : m.toNat < UInt32.size := by cases m <;> decide
  exact bind_nil (f := fun n => Decode.present (AccessMode.ofNat? n)) (choice hsmall) hpresent

theorem option {value : Decoder α} {encode : α → Bytes} (h : ∀ a, Reads value (encode a) a)
    (o : Option α) : Reads (Decode.option value) (Encode.option encode o) o := by
  cases o with
  | none => exact bind (byte 0) (pure none)
  | some a => exact bind (byte 1) (bind_pure (h a))

theorem progress (p : Progress) : Reads Decode.progress (Encode.progress p) p := by
  cases p with
  | idle => exact bind_nil (choice (n := 0) (by decide)) (pure _)
  | active => exact bind_nil (choice (n := 1) (by decide)) (pure _)
  | complete => exact bind_nil (choice (n := 2) (by decide)) (pure _)

theorem uploadStatus (s : UploadStatus) :
    Reads Decode.uploadStatus (Encode.uploadStatus s) s := by
  have hread : Reads Decode.uploadStatus (Encode.progress s.progress ++ (Encode.word s.validCount
      ++ (Encode.word s.numBlocks ++ Encode.bool s.inRam))) s :=
    bind (progress _) (bind (word _) (bind (word _) (bind_pure (bool _))))
  rwa [← List.append_assoc, ← List.append_assoc] at hread

end Reads

/-- A payload that a party has room for. -/
def Limits.Admits (room : Option Nat) (payload : Bytes) : Prop :=
  (∀ most ∈ room, payload.length ≤ most) ∧ payload.length < 2 ^ 64

/-- A command whose payload, if it has one, a party has room for. -/
def Command.Fits (limits : Limits) : Command → Prop
  | .write _ data => Limits.Admits limits.memory data
  | .writeSector _ data => Limits.Admits limits.sector data
  | _ => True

/-- An answer whose payload, if it has one, a party has room for. -/
def Response.Fits (limits : Limits) : Response → Prop
  | .data _ _ bytes => Limits.Admits limits.memory bytes
  | _ => True

/-- The device has room for a page. -/
theorem Limits.admits_page {payload : Bytes} (h : payload.length ≤ maxTransfer) :
    Admits Limits.device.memory payload := by
  refine ⟨fun most hmost => ?_, Nat.lt_of_le_of_lt h (by decide)⟩
  cases hmost
  exact h

theorem Reads.command {limits : Limits} {c : Command} (h : c.Fits limits) :
    Reads (Decode.command limits) (Encode.command c) c := by
  have hchoice : ∀ n, n < 8 → Reads Decode.choice (Encode.choice n) n := fun n hn =>
    Reads.choice (Nat.lt_trans hn (by decide))
  cases c with
  | getStatus => exact bind_nil (hchoice 0 (by decide)) (pure _)
  | exclusiveAccess m => exact bind (hchoice 1 (by decide)) (bind_pure (mode m))
  | read addr len =>
    rw [Encode.command, List.append_assoc]
    exact bind (hchoice 2 (by decide)) (bind (word addr) (bind_pure (word len)))
  | write addr data =>
    rw [Encode.command, List.append_assoc]
    exact bind (hchoice 3 (by decide)) (bind (word addr) (bind_pure (blob h.1 h.2)))
  | flashErase addr len =>
    rw [Encode.command, List.append_assoc]
    exact bind (hchoice 4 (by decide)) (bind (word addr) (bind_pure (word len)))
  | exec addr => exact bind (hchoice 5 (by decide)) (bind_pure (word addr))
  | reboot r =>
    rw [Encode.command, List.append_assoc, List.append_assoc]
    exact bind (hchoice 6 (by decide)) (bind (word _) (bind (word _) (bind_pure (word _))))
  | writeSector lba data =>
    rw [Encode.command, List.append_assoc]
    exact bind (hchoice 7 (by decide)) (bind (word lba) (bind_pure (blob h.1 h.2)))

theorem Reads.response {limits : Limits} {r : Response} (h : r.Fits limits) :
    Reads (Decode.response limits) (Encode.response r) r := by
  have hchoice : ∀ n, n < 3 → Reads Decode.choice (Encode.choice n) n := fun n hn =>
    Reads.choice (Nat.lt_trans hn (by decide))
  cases r with
  | ack token s =>
    rw [Encode.response, List.append_assoc]
    exact bind (hchoice 0 (by decide)) (bind (word token) (bind_pure (status s)))
  | data token s bytes =>
    rw [Encode.response, List.append_assoc, List.append_assoc]
    exact bind (hchoice 1 (by decide))
      (bind (word token) (bind (status s) (bind_pure (blob h.1 h.2))))
  | status upload fence rebooting =>
    rw [Encode.response, List.append_assoc, List.append_assoc]
    exact bind (hchoice 2 (by decide))
      (bind (uploadStatus upload) (bind (option mode fence) (bind_pure (bool rebooting))))

/-! ### Frames -/

namespace Frame

theorem takeWhile_stuff (message : Bytes) (rest : Bytes) :
    (Stuffing.stuff message ++ 0 :: rest).takeWhile (· != 0) = Stuffing.stuff message := by
  have hall : ∀ b ∈ Stuffing.stuff message, (b != 0) = true := by
    intro b hb
    rw [bne_iff_ne]
    rintro rfl
    exact Stuffing.zero_not_mem_stuff message hb
  rw [List.takeWhile_append_of_pos hall, List.takeWhile_cons_of_neg (by decide), List.append_nil]

/-- The message in a frame, with or without the zero that ends it, is the one that was
    put there. -/
theorem body_stuff (message : Bytes) : body (Stuffing.stuff message) = .ok message := by
  have hwhole : (Stuffing.stuff message).takeWhile (· != 0) = Stuffing.stuff message := by
    rw [List.takeWhile_eq_self_iff]
    intro b hb
    rw [bne_iff_ne]
    rintro rfl
    exact Stuffing.zero_not_mem_stuff message hb
  unfold body Stuffing.unstuff?
  rw [if_neg (by simp [Stuffing.stuff_ne_nil]), hwhole, Stuffing.unstuff_stuff]
  rfl

theorem body_wrap (message : Bytes) : body (wrap message) = .ok message := by
  unfold body Stuffing.unstuff? wrap
  rw [if_neg (by simp), takeWhile_stuff, Stuffing.unstuff_stuff]
  rfl

variable {α : Type} {d : Decoder α} {message : Bytes} {a : α}

/-- A value is read from the frame around its message. -/
theorem decode_stuff (h : Reads d message a) : decode d (Stuffing.stuff message) = .ok a := by
  unfold decode
  rw [body_stuff]
  exact h.run

theorem decode_wrap (h : Reads d message a) : decode d (wrap message) = .ok a := by
  unfold decode
  rw [body_wrap]
  exact h.run

end Frame

/-! ### Lengths -/

namespace Encode

theorem length_word_le (w : UInt32) : (word w).length ≤ 5 := by
  have hsize : w.toNat < UInt32.size := w.toNat_lt_size
  exact Varint.length_encode_le (Nat.lt_trans hsize (by decide))

theorem length_choice_le {n : Nat} (h : n < 128) : (choice n).length ≤ 1 :=
  Varint.length_encode_le h

theorem length_blob_le {bytes : Bytes} (h : bytes.length ≤ sectorSize) :
    (blob bytes).length ≤ 2 + sectorSize := by
  have hnumber : (Varint.encode bytes.length).length ≤ 2 :=
    Varint.length_encode_le (Nat.lt_of_le_of_lt h (by decide))
  rw [blob, List.length_append]
  exact Nat.add_le_add hnumber h

theorem length_mode_le (m : AccessMode) : (mode m).length ≤ 1 :=
  length_choice_le (by cases m <;> decide)

/-- A choice, three words, and a sector behind its length: no message is longer. -/
def longestMessage : Nat := 1 + 3 * 5 + (2 + sectorSize)

theorem length_command_le {c : Command} (h : c.Fits .device) :
    (command c).length ≤ longestMessage := by
  have hlongest : longestMessage = 530 := rfl
  have hsector : sectorSize = 512 := rfl
  have hpage : maxTransfer = 256 := rfl
  have hchoice : ∀ n, n < 8 → (choice n).length ≤ 1 := fun n hn =>
    length_choice_le (Nat.lt_trans hn (by decide))
  cases c with
  | getStatus => exact (hchoice 0 (by decide)).trans (by decide)
  | exclusiveAccess m =>
    have hmode := length_mode_le m
    have hfront := hchoice 1 (by decide)
    rw [command, List.length_append]
    omega
  | read addr len =>
    have haddr := length_word_le addr
    have hlen := length_word_le len
    have hfront := hchoice 2 (by decide)
    rw [command, List.length_append, List.length_append]
    omega
  | write addr data =>
    have haddr := length_word_le addr
    have hdata := length_blob_le ((h.1 _ rfl).trans (by decide))
    have hfront := hchoice 3 (by decide)
    rw [command, List.length_append, List.length_append]
    omega
  | flashErase addr len =>
    have haddr := length_word_le addr
    have hlen := length_word_le len
    have hfront := hchoice 4 (by decide)
    rw [command, List.length_append, List.length_append]
    omega
  | exec addr =>
    have haddr := length_word_le addr
    have hfront := hchoice 5 (by decide)
    rw [command, List.length_append]
    omega
  | reboot r =>
    have hentry := length_word_le r.entry
    have hstack := length_word_le r.stack
    have hdelay := length_word_le r.delayMs
    have hfront := hchoice 6 (by decide)
    rw [command, List.length_append, List.length_append, List.length_append]
    omega
  | writeSector lba data =>
    have hlba := length_word_le lba
    have hdata := length_blob_le (h.1 _ rfl)
    have hfront := hchoice 7 (by decide)
    rw [command, List.length_append, List.length_append]
    omega

theorem length_response_le {r : Response} (h : r.Fits .device) :
    (response r).length ≤ longestMessage := by
  have hlongest : longestMessage = 530 := rfl
  have hsector : sectorSize = 512 := rfl
  have hchoice : ∀ n, n < 3 → (choice n).length ≤ 1 := fun n hn =>
    length_choice_le (Nat.lt_trans hn (by decide))
  have hbool : ∀ b, (bool b).length = 1 := fun b => rfl
  cases r with
  | ack token s =>
    have htoken := length_word_le token
    have hfront := hchoice 0 (by decide)
    have hstatus : (status s).length = 1 := rfl
    rw [response, List.length_append, List.length_append]
    omega
  | data token s bytes =>
    have htoken := length_word_le token
    have hbytes := length_blob_le ((h.1 _ rfl).trans (by decide))
    have hfront := hchoice 1 (by decide)
    have hstatus : (status s).length = 1 := rfl
    rw [response, List.length_append, List.length_append, List.length_append]
    omega
  | status upload fence rebooting =>
    have hfront := hchoice 2 (by decide)
    have hprogress : (progress upload.progress).length ≤ 1 := by
      cases upload.progress <;> exact length_choice_le (by decide)
    have hcount := length_word_le upload.validCount
    have htotal := length_word_le upload.numBlocks
    have hfence : (option mode fence).length ≤ 2 := by
      cases fence with
      | none => exact Nat.le_succ 1
      | some m => exact Nat.succ_le_succ (length_mode_le m)
    rw [response, uploadStatus]
    simp only [List.length_append, hbool]
    omega

end Encode

namespace Frame

/-- A frame has room for every message that is no longer than the longest. -/
theorem wrap?_of_length_le {message : Bytes} (h : message.length ≤ Encode.longestMessage) :
    wrap? maxFrame message = some (wrap message) := by
  have hlongest : Encode.longestMessage = 530 := rfl
  have hpiece : Stuffing.longest = 254 := rfl
  have hmax : maxFrame = 1024 := rfl
  have hstuffed := Stuffing.length_stuff_le message
  unfold wrap?
  rw [if_pos]
  rw [wrap, List.length_append, List.length_singleton]
  rw [hpiece] at hstuffed
  omega

/-- Each side has room for the frame around what it sends. -/
theorem wrap?_command {c : Command} (h : c.Fits .device) :
    wrap? maxFrame (Encode.command c) = some (wrap (Encode.command c)) :=
  wrap?_of_length_le (Encode.length_command_le h)

theorem wrap?_response {r : Response} (h : r.Fits .device) :
    wrap? maxFrame (Encode.response r) = some (wrap (Encode.response r)) :=
  wrap?_of_length_le (Encode.length_response_le h)

/-- What comes before the end of a frame is shorter than the longest frame. -/
theorem length_stuff_lt {message frame : Bytes} (h : wrap? maxFrame message = some frame) :
    (Stuffing.stuff message).length < maxFrame := by
  unfold wrap? at h
  split at h
  · rename_i hle
    simp only [wrap, List.length_append, List.length_singleton] at hle
    exact hle
  · cases h

end Frame

namespace Command

/-- The command for a sector, numbered by its place in a file. -/
def forSector (lba : Nat) (sector : Sector) : Command :=
  .writeSector (UInt32.ofNat lba) sector.toList

theorem fits_forSector (lba : Nat) (sector : Sector) : (forSector lba sector).Fits .device := by
  have hlength : sector.toList.length = 512 := Vector.length_toList
  refine ⟨fun room hroom => ?_, ?_⟩
  · cases hroom
    exact Nat.le_of_eq hlength
  · rw [hlength]
    decide

end Command

/-- The host has room for what the device has room for. -/
theorem Response.Fits.host {r : Response} (h : r.Fits .device) : r.Fits .host := by
  cases r with
  | ack token s => trivial
  | data token s bytes => exact ⟨fun most hmost => (nomatch hmost), h.2⟩
  | status upload fence rebooting => trivial

/-- Every answer about a finished job fits. -/
theorem Job.response_fits (j : Job) : j.response.Fits .device := by
  unfold Job.response Response.readBack
  dsimp only
  split
  · have hlength := List.length_take_le maxTransfer j.payload
    refine ⟨fun most hmost => ?_, Nat.lt_of_le_of_lt hlength (by decide)⟩
    cases hmost
    exact hlength
  · trivial

end Reflash
