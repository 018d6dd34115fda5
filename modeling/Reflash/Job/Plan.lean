import Reflash.Machine
/-! # What a job does

  A job is looked at as a whole before anything moves. Its plan says how it ends,
  which calls are made and in which order, and what is remembered of it:

  1. once a reboot is due, nothing happens;
  2. the access mode changes;
  3. code is called;
  4. a guarded mutation is refused if the other party was the last to mutate;
  5. every address is checked, and only then flash is updated and memory is
     written or read.

  A plan that fails in the fifth step moves no byte.
-/

namespace Reflash

namespace Job

/-! ### Checking addresses -/

/-- The erasing that a job asks for, if its range is fit for it: within flash,
    not empty, and whole sectors. -/
def checkErase (map : AddressMap) (exitXip : Bool) (range : EraseRange) :
    Except Status EraseRange :=
  if !exitXip || (map.findOf? .flash range.addr range.len).isNone then .error .invalidAddress
  else if range.len = 0 || range.addr % eraseSize != 0 || range.len % eraseSize != 0 then
    .error .badAlignment
  else .ok range

/-- Where the bytes of a job go. -/
inductive Target where
  | nowhere
  | ram
  | flash
  | page
deriving DecidableEq, Inhabited

/-- Where the bytes of a job go, if its range is fit for it. RAM takes any
    range, flash takes whole pages and only with execute-in-place suspended;
    any memory can be read. -/
def target (j : Job) (map : AddressMap) : Except Status Target :=
  match j.transfer with
  | none => .ok .nowhere
  | some direction =>
    if 256 < j.length then .error .invalidTransferLength
    else match direction with
      | .write =>
        if (map.findOf? .ram j.addr j.length).isSome then .ok .ram
        else if j.exitXip && (map.findOf? .flash j.addr j.length).isSome then
          if j.addr % pageSize != 0 || j.length % pageSize != 0 then .error .badAlignment
          else .ok .flash
        else .error .invalidAddress
      | .read =>
        if (map.find? j.addr j.length).isSome then .ok .page else .error .invalidAddress

/-- The calls that move the bytes of a job. -/
def moves (j : Job) (erase : Option EraseRange) (target : Target) : List Call :=
  let program := if target = .flash then some (j.addr, j.payload) else none
  (if erase.isSome || program.isSome then [.updateFlash ⟨erase, program⟩] else [])
    ++ (match target with
        | .ram => [.writeRam j.addr j.payload]
        | .page => [.read j.addr j.length]
        | .nowhere | .flash => [])

/-- The calls that move the bytes of a job, if all its ranges are fit. -/
def checkedMoves (j : Job) (map : AddressMap) : Except Status (List Call) := do
  let erase ← j.erase.mapM (checkErase map j.exitXip)
  let target ← j.target map
  return j.moves erase target

/-! ### The plan -/

/-- What comes of a job. -/
structure Plan where
  /-- How the job ends. -/
  status : Status
  /-- The calls that are made, in order. -/
  calls : List Call
  /-- The access mode that the disk is put in. -/
  access : Option AccessMode
  /-- The party that mutated memory last. -/
  lastWriter : Option Channel
deriving DecidableEq, Inhabited

/-- The calls that come before any check of addresses. -/
def openingCalls (j : Job) : List Call :=
  (if j.access = some .exclusiveAndEject then [.eject] else [])
    ++ (if j.execute then [.exec (j.addr ||| 1)] else [])

/-- Whether a guarded mutation is refused after the last one. -/
def isRefused (j : Job) (lastWriter : Option Channel) : Bool :=
  j.isMutation && j.guarded && lastWriter.any fun writer => writer != j.source

/-- The plan of a job. -/
def plan (j : Job) (map : AddressMap) (rebooting : Bool) (lastWriter : Option Channel) : Plan :=
  if rebooting then { status := .rebooting, calls := [], access := none, lastWriter }
  else if j.isRefused lastWriter then
    { status := .interleavedWrite, calls := j.openingCalls, access := j.access, lastWriter }
  else
    let lastWriter := if j.isMutation then some j.source else lastWriter
    match j.checkedMoves map with
    | .error status => { status, calls := j.openingCalls, access := j.access, lastWriter }
    | .ok moves =>
      { status := .ok, calls := j.openingCalls ++ moves, access := j.access, lastWriter }

/-- Whether a plan reads memory into the job. -/
def Plan.reads (p : Plan) (j : Job) : Bool := p.status = .ok && j.transfer = some .read

/-- The job as it is after its plan was carried out on a machine, which is given
    in the state after the calls. -/
def carriedOut {σ : Type} [Machine σ] (j : Job) (p : Plan) (after : σ) : Job :=
  if p.reads j then { j with data := overlay j.data (Machine.load after j.addr j.length) } else j

end Job

end Reflash
