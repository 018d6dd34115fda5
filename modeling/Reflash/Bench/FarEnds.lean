import Reflash.Bench.Desk
import Reflash.Bench.Panel
/-! # What can be at the far end

  Three things to put at the far end of a port: nothing, a script that answers
  each frame with what it has written down next, and the loader in update mode.
-/

namespace Reflash

/-! ### Nothing -/

instance : FarEnd Unit where
  take _ _ := (.sent [], ())

/-! ### A script -/

/-- What a script does with each frame in turn. Beyond its end, nothing
    arrives. -/
structure Script where
  lines : List Delivery
deriving DecidableEq, Inhabited

instance : FarEnd Script where
  take s _ :=
    match s.lines with
    | [] => (.sent [], s)
    | line :: rest => (line, ⟨rest⟩)

/-! ### The loader -/

/-- The loader in update mode, and the calls that it made for each frame, the
    latest first. -/
structure LoaderEnd where
  service : Loader.Service Panel
  calls : List (List Call)
deriving Inhabited

namespace LoaderEnd

/-- The size of the packets in which the loader gets its bytes. -/
def packetSize : Nat := 64

/-- The loader as it starts. -/
def fresh : LoaderEnd := ⟨Panel.service, []⟩

/-- The loader takes a frame. All its answers arrive at once. -/
def take (l : LoaderEnd) (frame : Bytes) : Delivery × LoaderEnd :=
  match l.service.deliver (pieces packetSize frame) with
  | .error fault => (.notWritten fault.message, l)
  | .ok s =>
    let (calls, panel) := s.chip.flush
    let service := { s.onChip fun _ => panel with endpoint := { s.endpoint with sent := [] } }
    (.sent (s.endpoint.sent.map Arrival.byte), ⟨service, calls :: l.calls⟩)

end LoaderEnd

instance : FarEnd LoaderEnd where
  take := LoaderEnd.take

end Reflash
