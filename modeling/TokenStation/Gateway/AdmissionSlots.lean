import TokenStation.Gateway.Admission
import TokenStation.Gateway.Bookkeeping
import TokenStation.Gateway.FaithfulRelays

/-!
# Who occupies a provider's slot

The gate itself counts exactly what is held, whatever the threads do. A dispatch takes a provider's
permit before an attempt and gives it back at the end of the loop's body. An attempt that fails with
a `Retry-After` sleeps before that: its provider's slot stays occupied by a request that does not
use it.
-/

namespace TokenStation

open Library

namespace Event

end Event

section Runs

variable {requestId : String} {Post : AttemptResult → List (Reply × Bool) → Prop} {started : ℕ}
  {targets : List UpstreamModel} {records : List AttemptRecord} {events : List Event}
  {result : DispatchResult}

end Runs

/-! ## A sleep -/

/-- No permit is ever refused, and nothing is kept. -/
def idleLedgers : Ledgers Unit where
  enterProvider _ world := (true, world)
  leaveProvider _ world := world
  grantLease upstream _ world := (⟨upstream.name, 0⟩, world)
  releaseLease _ world := world
  recordSettled _ _ _ _ world := world
  observe _ _ world := world
  remember _ _ world := world
  updateImageObservations _ world := world
  waitRetryDelay _ world := world

end TokenStation
