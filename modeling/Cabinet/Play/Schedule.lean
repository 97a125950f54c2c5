/-!
# Input schedules

A schedule is a list of changes of the buttons, each for a frame, in the order of their frames; of
changes for one frame the one given last comes last. Asking for what is due at a frame takes all
changes up to that frame out of the schedule and gives the last of them.
-/

namespace Cabinet

/-- A change of the buttons before a frame. -/
structure InputEvent where
  /-- The number of frames run before the frame. -/
  frame : UInt64
  /-- The bits of the buttons. -/
  bits : UInt8
deriving DecidableEq, Inhabited

/-- The changes that are still to come, in the order of their frames. -/
structure Schedule where
  /-- The changes. -/
  pending : List InputEvent
deriving DecidableEq, Inhabited

namespace Schedule

/-- The schedule of the given changes. -/
def ofEvents (events : List InputEvent) : Schedule :=
  { pending := events.mergeSort fun x y => x.frame ≤ y.frame }

/-- Takes out the changes up to a frame; gives the bits of the last one. -/
def due (s : Schedule) (frame : UInt64) : Option UInt8 × Schedule :=
  let isDue := fun (e : InputEvent) => e.frame ≤ frame
  ((s.pending.takeWhile isDue).getLast?.map (·.bits), { pending := s.pending.dropWhile isDue })

end Schedule

end Cabinet
