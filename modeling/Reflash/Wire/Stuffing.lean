import Reflash.Word
/-! # Byte stuffing

  A frame ends with a zero byte, so its body must not hold one. Stuffing cuts
  the body at its zeros and writes each piece behind a byte that says how far
  the next piece is: a piece of `n` bytes gets the code `n + 1`. A piece of 254
  bytes is as long as a piece can be; its code is 255 and no zero follows it.
  The last piece is written even if it is empty.

  * `Stuffing.stuff` writes a body without zeros.
  * `Stuffing.unstuff?` reads it back, and refuses a body whose last code
    reaches beyond its end.
-/

namespace Reflash

namespace Stuffing

/-- The longest piece. -/
def longest : Nat := 254

/-- A piece behind its code. -/
def piece (bytes : Bytes) : Bytes := UInt8.ofNat (bytes.length + 1) :: bytes

/-- The bytes in front of the first zero, but no more than `room`. -/
def firstRun : Nat → Bytes → Bytes
  | 0, _ => []
  | _, [] => []
  | room + 1, b :: rest => if b = 0 then [] else b :: firstRun room rest

theorem length_firstRun_le (room : Nat) (body : Bytes) :
    (firstRun room body).length ≤ body.length := by
  fun_induction firstRun room body with
  | case1 => exact Nat.zero_le _
  | case2 => exact Nat.le_refl _
  | case3 => exact Nat.zero_le _
  | case4 room b rest _ ih => exact Nat.succ_le_succ ih

/-- Stuff a body. The zero behind a piece is not written; behind a piece as long as
    can be, none is expected. -/
def stuff (body : Bytes) : Bytes :=
  let run := firstRun longest body
  if _h : run.length = longest then piece run ++ stuff (body.drop longest)
  else
    match _h : body.drop run.length with
    | [] => piece run
    | _ :: rest => piece run ++ stuff rest
termination_by body.length
decreasing_by
  · have full : (firstRun longest body).length = 254 := _h
    have fits := length_firstRun_le longest body
    simp only [List.length_drop, longest] at *
    omega
  · have behind : (body.drop run.length).length = rest.length + 1 := by rw [_h]; rfl
    rw [List.length_drop] at behind
    omega

/-- The outcome of unstuffing: the bytes up to the first wrong code, and whether
    there was none. -/
structure Unstuffed where
  bytes : Bytes
  wellFormed : Bool
deriving DecidableEq, Inhabited

/-- Undo the stuffing, up to the first code that reaches beyond the end. -/
def unstuff : Bytes → Unstuffed
  | [] => ⟨[], true⟩
  | code :: rest =>
    let n := code.toNat - 1
    let run := rest.take n
    let behind := rest.drop n
    if run.length < n then ⟨[], false⟩
    else
      let after := unstuff behind
      let gap := if code != 255 && !behind.isEmpty then [0] else []
      ⟨run ++ gap ++ after.bytes, after.wellFormed⟩
termination_by s => s.length
decreasing_by simp only [List.length_drop, List.length_cons]; omega

/-- Undo the stuffing of a well-formed body. -/
def unstuff? (stuffed : Bytes) : Option Bytes :=
  let u := unstuff stuffed
  if u.wellFormed then some u.bytes else none

/-- What is left of a buffer after its body was unstuffed in place: the bytes
    regained, and behind them what was there before. -/
def residue (buffer : Bytes) : Bytes :=
  let regained := (unstuff (buffer.takeWhile (· != 0))).bytes
  regained ++ buffer.drop regained.length

end Stuffing

end Reflash
