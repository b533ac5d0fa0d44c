/-!
# Requests for cancellation

Handles request cancellation, tokens observe it. A request is never taken back, and it reaches
every token, also those made later. When the last handle is gone without a request, none can
come any more.

## Main definitions

* `Cancellation`: the handles, and whether one has requested cancellation.
* `Cancellation.isRequested`, `Cancellation.wakes`.
-/

namespace Upkeep

/-- Handles to request cancellation by, and whether that was done. -/
structure Cancellation where
  /-- The handles in the order of their making, and whether each is still there. -/
  handles : List Bool
  /-- Whether cancellation has been requested. -/
  requested : Bool
  deriving DecidableEq, Repr

namespace Cancellation

/-- One handle, and no request. -/
def start : Cancellation := ⟨[true], false⟩

/-- No handle, and so never a request. -/
def never : Cancellation := ⟨[], false⟩

/-- Whether a handle is still there. -/
def hasHandle (c : Cancellation) (index : Nat) : Bool := (c.handles[index]?).getD false

/-- Requests cancellation by a handle that is still there. -/
def request (c : Cancellation) (index : Nat) : Cancellation :=
  if c.hasHandle index then { c with requested := true } else c

/-- One more handle like a given one. -/
def cloneHandle (c : Cancellation) (index : Nat) : Cancellation :=
  if c.hasHandle index then { c with handles := c.handles ++ [true] } else c

/-- A handle less. -/
def dropHandle (c : Cancellation) (index : Nat) : Cancellation :=
  { c with handles := c.handles.set index false }

/-- What every token observes. -/
def isRequested (c : Cancellation) : Bool := c.requested

/-- Whether someone who waits for cancellation goes on: a request was made. Without one he waits
for it while there are handles, and forever after. -/
def wakes (c : Cancellation) : Bool := c.requested

end Cancellation

end Upkeep
