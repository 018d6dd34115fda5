import Reflash.Message
/-! # Following the device's count

  The device numbers the commands it receives one by one and puts the number, the
  token, on its answers. The tool counts along. Its first answer tells it where
  the count stands; from then on an answer with the next token is the one that is
  due, one with an earlier token is left over from a command given up, and any
  other means that the count is lost.
-/

namespace Reflash

/-- The token that the device will give the next command, if that is known. -/
structure TokenCounter where
  next : Option UInt32
deriving DecidableEq, Inhabited

namespace TokenCounter

/-- What an answer is to the command sent last. -/
inductive Verdict where
  /-- It is the answer that is due. -/
  | accept
  /-- It is left over from an earlier command. -/
  | stale (token : UInt32)
  /-- It belongs to no command that was sent. -/
  | lost (got want : UInt32)
deriving DecidableEq, Inhabited

/-- The count is not known. -/
def unknown : TokenCounter := ⟨none⟩

/-- Whether a token comes before another: going round from it to the other is
    less than half the way. -/
def isBefore (token want : UInt32) : Bool := 0x80000000 ≤ (token - want).toNat

/-- Judge an answer, and count on. An answer without a token is always the one
    that is due; it used one up all the same. -/
def check (c : TokenCounter) (response : Response) : TokenCounter × Verdict :=
  match response.completion, c.next with
  | none, next => (⟨next.map (· + 1)⟩, .accept)
  | some (token, _), none => (⟨some (token + 1)⟩, .accept)
  | some (token, _), some want =>
    if token = want then (⟨some (token + 1)⟩, .accept)
    else if isBefore token want then (c, .stale token)
    else (unknown, .lost token want)

end TokenCounter

/-- How long the device may take over a command, in milliseconds. Erasing all of
    flash takes long. -/
def Command.patienceMs : Command → Nat
  | .flashErase .. => 120000
  | _ => 5000

end Reflash
