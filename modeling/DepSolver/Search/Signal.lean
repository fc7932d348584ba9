/-!
Signals that ask a search to stop.
-/

namespace DepSolver

/-- Whoever may cancel searches. Once cancelled, it stays so. -/
structure CancelHandle where
  cancelled : Bool
deriving DecidableEq, Inhabited

namespace CancelHandle

def fresh : CancelHandle := ⟨false⟩

def cancel (_ : CancelHandle) : CancelHandle := ⟨true⟩

end CancelHandle

/-- What a search observes: the handle of whoever may cancel it, or nothing. -/
inductive CancelSignal
  | ofHandle
  | never
deriving DecidableEq, Inhabited

/-- Whether a search is asked to stop, given the handle. -/
def CancelSignal.isCancelled : CancelSignal → CancelHandle → Bool
  | ofHandle, h => h.cancelled
  | never, _ => false

end DepSolver
