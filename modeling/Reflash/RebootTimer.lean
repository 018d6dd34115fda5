import Reflash.Upload
/-! # The reboot timer

  The chip's watchdog resets it after a while, and eight scratch words survive
  the reset. The boot ROM looks at four of them: if the first holds a magic word
  and the second its check value, the chip starts at the address in the fourth
  with the stack in the third, and otherwise from flash. The first scratch word
  of all is a note from the application that asks for update mode.

  A reset is armed by a list of register updates, in an order that keeps the
  timer off while the rest is written.
-/

namespace Reflash

/-! ### Registers -/

/-- The registers that a reset is armed with. -/
inductive TimerRegister where
  | control
  /-- What the timer counts down from. -/
  | load
  | scratch (i : Fin 8)
  /-- Which parts of the chip are reset. -/
  | resetSelect
deriving DecidableEq, Inhabited

/-- What the registers hold. -/
structure RebootTimer where
  control : UInt32
  load : UInt32
  scratch : Vector UInt32 8
  resetSelect : UInt32
deriving DecidableEq, Inhabited

namespace RebootTimer

/-- All registers are zero. -/
def zero : RebootTimer := ⟨0, 0, Vector.replicate 8 0, 0⟩

/-- What a register holds. -/
def get (t : RebootTimer) : TimerRegister → UInt32
  | .control => t.control
  | .load => t.load
  | .scratch i => t.scratch[i]
  | .resetSelect => t.resetSelect

/-- Write a register. -/
def set (t : RebootTimer) (r : TimerRegister) (w : UInt32) : RebootTimer :=
  match r with
  | .control => { t with control := w }
  | .load => { t with load := w }
  | .scratch i => { t with scratch := t.scratch.set i w }
  | .resetSelect => { t with resetSelect := w }

/-! ### Arming a reset -/

/-- The bit that lets the timer run. -/
def enable : UInt32 := 0x40000000

/-- The largest value to count down from. -/
def maxLoad : UInt32 := 0x00FFFFFF

/-- All parts of the chip but the two oscillators. -/
def allButOscillators : UInt32 := 0x0001FFFF &&& ~~~(1 ||| 2)

/-- The word that tells the boot ROM to start somewhere else. -/
def bootMagic : UInt32 := 0xB007C0D3

/-- What the timer counts down from for a delay: two steps a microsecond, as far
    as it can. -/
def loadFor (delayMs : UInt32) : UInt32 :=
  min (Word.timesCapped (Word.timesCapped delayMs 1000) 2) maxLoad

/-- A new value for a register, from the old one. -/
structure Update where
  register : TimerRegister
  value : UInt32 → UInt32

/-- Write a value, whatever there was. -/
def put (r : TimerRegister) (w : UInt32) : Update := ⟨r, fun _ => w⟩

/-- What the boot ROM is told: where to start, or to start from flash. -/
def startUpdates (r : RebootRequest) : List Update :=
  if r.entry = 0 then [put (.scratch 4) 0]
  else
    let entry := r.entry ||| 1
    [put (.scratch 4) bootMagic, put (.scratch 5) (entry ^^^ (0 - bootMagic)),
      put (.scratch 6) r.stack, put (.scratch 7) entry]

/-- The updates that arm a reset, in order. -/
def updates (r : RebootRequest) : List Update :=
  [⟨.control, fun w => w &&& ~~~enable⟩] ++ startUpdates r
    ++ [put .resetSelect allButOscillators, put .load (loadFor r.delayMs),
      ⟨.control, fun w => w ||| enable⟩]

/-- Make an update. -/
def update (t : RebootTimer) (u : Update) : RebootTimer :=
  t.set u.register (u.value (t.get u.register))

/-- Arm a reset. -/
def arm (t : RebootTimer) (r : RebootRequest) : RebootTimer := (updates r).foldl update t

/-! ### After a reset -/

/-- Where the boot ROM starts: an entry point and its stack, or flash. -/
def bootTarget (t : RebootTimer) : Option (UInt32 × UInt32) :=
  if t.get (.scratch 4) = bootMagic
      && t.get (.scratch 5) = t.get (.scratch 7) ^^^ (0 - bootMagic) then
    some (t.get (.scratch 7), t.get (.scratch 6))
  else none

/-- The register in which an application leaves a note. -/
def noteRegister : TimerRegister := .scratch 0

/-- The note by which an application asks for update mode. -/
def updateMagic : UInt32 := 0x0FDA7E00

/-- Take the application's note away, and say whether it asked for update
    mode. -/
def takeUpdateRequest (t : RebootTimer) : RebootTimer × Bool :=
  (t.set noteRegister 0, t.get noteRegister = updateMagic)

end RebootTimer

end Reflash
