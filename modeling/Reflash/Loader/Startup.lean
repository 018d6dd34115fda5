import Reflash.Rp2040.Chip
/-! # Starting up

  When power comes on, the loader starts the application, unless the update pin
  is low, the application has asked for update mode, or there is no application:
  the first two words of application flash must be a stack pointer into RAM and
  an entry point into application flash, with the mark of thumb code.

  The application's note is taken away in any case, so that it holds for one
  start only.

  In update mode the sets of an upload to flash lie in the memory of the flash
  cache. `UpdateMode.memory` is memory with these sets in their place, and
  `UpdateMode.poke` changes both.
-/

namespace Reflash

namespace Loader

open Rp2040 (Chip Event timerAddr cacheBase)

/-! ### The decision -/

/-- The level of the update pin. -/
inductive PinLevel where
  | high
  | low
  /-- The pin cannot be read, which counts as high. -/
  | unreadable
deriving DecidableEq, Inhabited

/-- The first two words of an application. -/
structure VectorTable where
  stack : UInt32
  reset : UInt32
deriving DecidableEq, Inhabited

namespace VectorTable

/-- The vector table at an address. -/
def inMemory (m : Memory) (addr : UInt32) : VectorTable := ⟨m.word addr, m.word (addr + 4)⟩

/-- Whether an application can be started. Erased flash never passes. -/
def isBootable (v : VectorTable) : Bool :=
  isRam v.stack && v.stack % 4 = 0 && isAppFlash v.reset && v.reset &&& 1 = 1

end VectorTable

/-- What the loader does. -/
inductive Decision where
  /-- Start the application. -/
  | start (v : VectorTable)
  /-- Go into update mode, as asked. -/
  | update
  /-- Go into update mode, since there is no application. -/
  | noApplication (v : VectorTable)
deriving DecidableEq, Inhabited

/-- The loader's decision, from the pin, the application's note and the vector
    table. -/
def Decision.of (pin : PinLevel) (requested : Bool) (v : VectorTable) : Decision :=
  if pin = .low || requested then .update
  else if v.isBootable then .start v
  else .noApplication v

/-! ### Before the decision -/

/-- Switch the light on and off. -/
def blink (c : Chip) : (count : Nat) → (periodMs : UInt32) → Chip
  | 0, _ => c
  | n + 1, periodMs =>
    blink ((((c.record (.led true)).record (.delayMs periodMs)).record (.led false)).record
      (.delayMs periodMs)) n periodMs

/-- The codes of the routines in ROM that flash is changed with: the letters of
    their two-letter names, one in each byte. -/
def romCodes : List UInt32 :=
  [('I', 'F'), ('E', 'X'), ('R', 'E'), ('R', 'P'), ('F', 'C'), ('C', 'X')].map fun (a, b) =>
    a.val ||| (b.val <<< 8)

/-- Look up the routines in ROM. -/
def lookUpRoutines (c : Chip) : Chip :=
  romCodes.foldl (fun c code => c.record (.lookup (c.memory.half 0x14) code)) c

/-- What is done before anything is decided. -/
def prepare (c : Chip) : Chip :=
  let c := (c.record (.log "Bootloader init")).record (.clocks 12000000)
  lookUpRoutines (blink c 3 200)

/-- Take the application's note away, and say whether it asked for update
    mode. -/
def takeUpdateRequest (c : Chip) : Chip × Bool :=
  let note := timerAddr RebootTimer.noteRegister
  (c.onMemory (Memory.setWord · note 0), c.memory.word note = RebootTimer.updateMagic)

/-! ### After the decision -/

/-- The line about an application that cannot be started. -/
def noApplicationText (v : VectorTable) : String :=
  "No valid application at 0x" ++ Hex.word appBase ++ " (sp=0x" ++ Hex.word v.stack
    ++ ", reset=0x" ++ Hex.word v.reset ++ ")"

/-- Hand the chip over to the application: no interrupt is enabled or pending,
    and vectors are taken from the application's table. -/
def handOver (c : Chip) (v : VectorTable) : Chip :=
  let c := (c.record (.log ("Jumping to application at 0x" ++ Hex.word v.reset))).record
    .interruptsOff
  let c := c.onMemory fun m =>
    ((m.setWord Rp2040.interruptClearPending 0xFFFFFFFF).setWord
      Rp2040.interruptClearEnable 0xFFFFFFFF).setWord Rp2040.vectorTableAddr appBase
  (c.record .dataBarrier).record .instructionBarrier

/-- Bring up what update mode needs. -/
def enterUpdateMode (c : Chip) : Chip :=
  let c := blink (c.record (.log "Update mode requested")) 10 50
  let c := (c.disableCache.record (.usb true)).record (.usbId 0x2E8A 0x000A)
  let c := (c.record (.usbStrings "ADNT/UF2 Bootloader/0001")).record (.usbClass 2)
  (c.record (.log "USB CDC initialized, entering worker loop")).record (.led true)

/-- How a start ends: in the application, or in update mode. -/
inductive Started where
  | application (c : Chip) (v : VectorTable)
  | updateMode (c : Chip)
deriving Inhabited

/-- Carry out the decision. -/
def follow (c : Chip) : Decision → Started
  | .start v => .application (handOver c v) v
  | .update => .updateMode (enterUpdateMode c)
  | .noApplication v =>
    .updateMode (enterUpdateMode
      ((c.record (.log (noApplicationText v))).record (.log "Falling back to update mode")))

/-- The start of the loader on a chip whose power has come on. -/
def startUp (c : Chip) (pin : PinLevel) : Started :=
  let (c, requested) := takeUpdateRequest (prepare c)
  follow c (Decision.of pin requested (VectorTable.inMemory c.memory appBase))

/-! ### The sets of an upload in memory -/

namespace UpdateMode

/-- The words of a set that lies in memory. -/
def setAt (m : Memory) (addr : UInt32) (words : Nat) : IndexSet :=
  let m := m.within addr (4 * words)
  ⟨Array.ofFn (n := words) fun i => m.word (addr + 4 * UInt32.ofNat i.val)⟩

/-- Where the set of erased sectors lies. -/
def erasedBase : UInt32 := cacheBase + 4 * UInt32.ofNat Rp2040.flashBlockWords

/-- An upload with its sets for flash as they lie in memory. -/
def readSets (u : Upload) (m : Memory) : Upload :=
  { u with
    flashBlocks := setAt m cacheBase Rp2040.flashBlockWords
    erasedSectors := setAt m erasedBase Rp2040.erasedSectorWords }

/-- The bytes of a set. -/
def setBytes (s : IndexSet) : Bytes := s.words.toList.flatMap fun w => (Word.bytes w).toList

/-- Memory with the sets of an upload in their place. -/
def writeSets (u : Upload) (m : Memory) : Memory :=
  (m.store cacheBase (setBytes u.flashBlocks)).store erasedBase (setBytes u.erasedSectors)

/-- The service on a chip that has entered update mode. -/
def service (c : Chip) : Service Chip :=
  Service.fresh c (readSets Rp2040.freshUpload c.memory)

/-- All of memory. -/
def memory (s : Service Chip) : Memory := writeSets s.device.core.upload s.chip.memory

/-- Store bytes in memory behind the loader's back. -/
def poke (s : Service Chip) (addr : UInt32) (bytes : Bytes) : Service Chip :=
  let m := (memory s).store addr bytes
  (s.onChip (Chip.onMemory · (Memory.store · addr bytes))).onCore fun c =>
    { c with upload := readSets c.upload m }

end UpdateMode

end Loader

end Reflash
