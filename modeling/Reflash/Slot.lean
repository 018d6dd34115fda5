import Reflash.Job
/-! # Slots

  A slot hands jobs from one party to the worker. It holds one job at most: a
  second one replaces the first, and the job that was there is given back. A
  slot can be fenced off, and then jobs still go through it but are not carried
  out.
-/

namespace Reflash

/-- A place for one waiting job. -/
structure Slot where
  job : Option Job
  /-- The mode that fences the slot off. It is never the shared one. -/
  fence : Option AccessMode
deriving DecidableEq, Inhabited

namespace Slot

/-- An open slot without a job. -/
def empty : Slot := ⟨none, none⟩

/-- Put a job in, and give back the one that it displaces. The job must not
    have run. -/
def put (s : Slot) (job : Job) : Except Fault (Slot × Option Job) :=
  if job.result.isSome then .error .resultAlreadySet
  else .ok ({ s with job := some job }, s.job)

/-- Take the job out. -/
def take (s : Slot) : Slot × Option Job := ({ s with job := none }, s.job)

/-- Whether a job is waiting. -/
def isFull (s : Slot) : Bool := s.job.isSome

/-- Fence the slot off, or open it in the shared mode. -/
def setMode (s : Slot) (mode : AccessMode) : Slot :=
  { s with fence := if mode.isExclusive then some mode else none }

/-- Open the slot. -/
def openUp (s : Slot) : Slot := s.setMode .shared

/-- Whether the slot is fenced off. -/
def isFenced (s : Slot) : Bool := s.fence.isSome

end Slot

end Reflash
