import Reflash.Memory
import Reflash.RebootTimer
import Reflash.Loader.Service
import Reflash.Text
/-! # A chip on the bench

  An RP2040 with all its memory, as the loader sees it: ROM, flash, RAM and the
  registers that matter, each at its address. Beside the memory it keeps a log of
  what the loader made it do.

  Flash is changed by routines in ROM, between leaving and entering
  execute-in-place mode and with interrupts off.
-/

namespace Reflash

namespace Rp2040

/-! ### The log -/

/-- What the chip was made to do. -/
inductive Event where
  | log (text : String)
  | warn (text : String)
  | clocks (hertz : UInt32)
  | led (on : Bool)
  | delayMs (n : UInt32)
  | usb (forceVbus : Bool)
  | usbId (vendor product : UInt32)
  | usbStrings (text : String)
  | usbClass (n : UInt32)
  /-- A routine in ROM was looked up by its code. -/
  | lookup (table code : UInt32)
  | connectFlash
  | exitXip
  | eraseFlash (offset len block command : UInt32)
  | programFlash (offset : UInt32) (bytes : Bytes)
  | flushCache
  | enterXip
  | interruptsOff
  | interruptsOn
  | dataBarrier
  | instructionBarrier
  | exec (addr : UInt32)
deriving DecidableEq, Inhabited

/-- Memory and a log, its latest entry first. -/
structure Chip where
  memory : Memory
  log : List Event
deriving Inhabited

/-! ### Addresses of registers -/

/-- Where the registers of the reboot timer begin. -/
def timerBase : UInt32 := 0x40058000

/-- The bytes from there to the end of its scratch registers. -/
def timerSize : Nat := 0x2C

/-- Selects the parts of the chip that a reset reaches. -/
def resetSelectAddr : UInt32 := 0x40010008

/-- Clears bits of the cache's control register. -/
def cacheControlClear : UInt32 := 0x14003000

/-- The bit that has the cache on. -/
def cacheEnable : UInt32 := 1

/-- Holds the address of the table of interrupt vectors. -/
def vectorTableAddr : UInt32 := 0xE000ED08

/-- Disables interrupts. -/
def interruptClearEnable : UInt32 := 0xE000E180

/-- Forgets interrupts that are pending. -/
def interruptClearPending : UInt32 := 0xE000E280

/-- The address of a register of the reboot timer. -/
def timerAddr : TimerRegister → UInt32
  | .control => timerBase
  | .load => timerBase + 4
  | .scratch i => timerBase + 0xC + 4 * UInt32.ofNat i.val
  | .resetSelect => resetSelectAddr

/-- The registers of the reboot timer that memory holds. -/
def timerOf (m : Memory) : RebootTimer :=
  let block := m.within timerBase timerSize
  { control := block.word (timerAddr .control), load := block.word (timerAddr .load)
    scratch := Vector.ofFn fun i => block.word (timerAddr (.scratch i))
    resetSelect := m.word (timerAddr .resetSelect) }

/-- Memory with a register of the reboot timer updated. -/
def updateTimer (m : Memory) (u : RebootTimer.Update) : Memory :=
  m.setWord (timerAddr u.register) (u.value (m.word (timerAddr u.register)))

/-! ### What the chip does -/

namespace Chip

/-- Put something in the log. -/
def record (c : Chip) (e : Event) : Chip := { c with log := e :: c.log }

/-- Do something to the memory. -/
def onMemory (c : Chip) (f : Memory → Memory) : Chip := { c with memory := f c.memory }

/-- The log in order, and a chip whose log is empty. -/
def flushLog (c : Chip) : List Event × Chip := (c.log.reverse, { c with log := [] })

/-- The line about a reset to come. -/
def rebootText (r : RebootRequest) : String :=
  "Reboot in " ++ toString r.delayMs.toNat ++ "ms (pc=0x" ++ Hex.word r.entry ++ ", sp=0x"
    ++ Hex.word r.stack ++ ")"

/-- Arm a reset. -/
def armReset (c : Chip) (r : RebootRequest) : Chip :=
  (c.record (.log (rebootText r))).onMemory fun m =>
    (RebootTimer.updates r).foldl updateTimer m

/-- The command that erases one sector of a flash part. -/
def sectorErase : UInt32 := 0x20

/-- Erase a run of flash, if it is not empty. -/
def eraseFlash (c : Chip) (offset len : UInt32) : Chip :=
  if len = 0 then c
  else (c.record (.eraseFlash offset len eraseSize sectorErase)).onMemory
    (Memory.erase · (flashBase + offset) len)

/-- Program a run of flash, if it is not empty. -/
def programFlash (c : Chip) (offset : UInt32) (bytes : Bytes) : Chip :=
  if bytes.isEmpty then c
  else (c.record (.programFlash offset bytes)).onMemory
    (Memory.program · (flashBase + offset) bytes)

/-- How far into flash an address lies. -/
def flashOffset (addr : UInt32) : UInt32 := addr - flashBase

/-- Keep the cache off, so that its memory can be used as such. -/
def disableCache (c : Chip) : Chip := c.onMemory (Memory.setWord · cacheControlClear cacheEnable)

/-- Change flash, with interrupts off and execute-in-place mode left. Flushing
    the cache turns it on, so it is turned off again. -/
def updateFlash (c : Chip) (u : FlashUpdate) : Chip :=
  let c := ((c.record .interruptsOff).record .connectFlash).record .exitXip
  let c := match u.erase with
    | some range => c.eraseFlash (flashOffset range.addr) range.len
    | none => c
  let c := match u.program with
    | some (addr, bytes) => c.programFlash (flashOffset addr) bytes
    | none => c
  let c := (c.record .flushCache).onMemory (Memory.setWord · cacheControlClear 0)
  (c.record .enterXip).disableCache.record .interruptsOn

instance : Hardware Chip where
  perform c call :=
    match call with
    | .read .. => c
    | .writeRam addr bytes => c.onMemory (Memory.store · addr bytes)
    | .updateFlash u => c.updateFlash u
    | .exec entry =>
      (c.record (.log ("Calling 0x" ++ Hex.word entry))).record (.exec entry)
    | .eject => c.record (.log "Eject requested")
    | .reboot r => c.armReset r
    | .complete _ => c
  load c addr len := c.memory.load addr len.toNat
  length_load := by simp
  warn c note := c.record (.warn note.text)
  armReset := armReset

/-! ### Power -/

/-- What a byte of ROM reads as, but for the two half words at the addresses 0x14
    and 0x18, which say where the table of routines and the look-up routine
    are. -/
def romByte (a : UInt32) : UInt8 :=
  if a = 0x14 ∨ a = 0x18 then 0
  else if a = 0x15 then 1
  else if a = 0x19 then 2
  else a.toUInt8

/-- A chip that was never used: flash is erased, and RAM is zero. -/
def unused : Chip :=
  { memory :=
      { initial := fun a =>
          if romRegion.contains a then romByte a
          else if flashRegion.contains a then 0xFF
          else 0
        changes := [] }
    log := [] }

/-- Power comes on: the registers that are not kept are zero. -/
def powerOn (c : Chip) : Chip :=
  { memory := [interruptClearEnable, interruptClearPending, vectorTableAddr,
      cacheControlClear].foldl (fun m addr => m.setWord addr 0) c.memory
    log := [] }

end Chip

end Rp2040

end Reflash
