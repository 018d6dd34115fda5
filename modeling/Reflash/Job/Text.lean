import Reflash.Message
/-! # Jobs and responses in words

  A job is shown in one line, with the parts that matter in a log: its effects
  and what they act on. The bytes it carries are left out, which the two dots at
  the end say.

  Where a response is not the one that was due, it is shown in full: the kind,
  and each field behind its name.
-/

namespace Reflash

/-! ### Values -/

/-- An optional value: `None`, or the value's text in `Some(…)`. -/
def optionText {α : Type} (text : α → String) : Option α → String
  | none => "None"
  | some a => "Some(" ++ text a ++ ")"

/-- A truth value in words. -/
def boolText (b : Bool) : String := if b then "true" else "false"

/-- Bytes as decimal numbers in brackets. -/
def byteListText (bytes : Bytes) : String :=
  "[" ++ String.intercalate ", " (bytes.map fun b => toString b.toNat) ++ "]"

/-! ### Jobs -/

namespace Job

/-- The present effects, separated by bars; `0x0` if there are none. -/
def effectsText (j : Job) : String :=
  match j.presentEffects with
  | [] => "Effects(0x0)"
  | es => "Effects(" ++ String.intercalate " | " (es.map Prod.fst) ++ ")"

/-- The text of a range to be erased. -/
def eraseText (r : EraseRange) : String :=
  "EraseRange \x7b addr: " ++ toString r.addr.toNat ++ ", len: " ++ toString r.len.toNat ++ " \x7d"

/-- The line for a job. -/
def text (j : Job) : String :=
  "Task \x7b effects: " ++ j.effectsText
    ++ ", transfer_addr: " ++ toString j.addr.toNat
    ++ ", data_length: " ++ toString j.length.toNat
    ++ ", erase: " ++ optionText eraseText j.erase
    ++ ", source: " ++ j.source.name
    ++ ", token: " ++ toString j.token.toNat
    ++ ", result: " ++ optionText Status.name j.result
    ++ ", .. \x7d"

end Job

/-! ### Responses -/

/-- What is told about an upload, in words. -/
def UploadStatus.text (s : UploadStatus) : String :=
  "TransferStatus \x7b state: " ++ s.progress.name
    ++ ", valid_block_count: " ++ toString s.validCount.toNat
    ++ ", num_blocks: " ++ toString s.numBlocks.toNat
    ++ ", is_ram: " ++ boolText s.inRam ++ " \x7d"

/-- A response in words. -/
def Response.text : Response → String
  | .ack token result =>
    "Ack \x7b token: " ++ toString token.toNat ++ ", status: " ++ result.name ++ " \x7d"
  | .data token result bytes =>
    "Data \x7b token: " ++ toString token.toNat ++ ", status: " ++ result.name
      ++ ", data: " ++ byteListText bytes ++ " \x7d"
  | .status upload fence rebooting =>
    "Status \x7b transfer: " ++ upload.text
      ++ ", exclusive: " ++ optionText AccessMode.name fence
      ++ ", rebooting: " ++ boolText rebooting ++ " \x7d"

end Reflash
