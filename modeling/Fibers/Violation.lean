import Fibers.Error
import Fibers.Fiber.State

/-! Broken invariants.

A violation ends the process at once. Each constructor is one rule of the fibers
and names the fiber that broke it. -/
namespace Fibers

inductive Violation
  /-- A fiber cannot be made without a stack. -/
  | noStack (error : Error)
  | resumedWhile (fiber : Nat) (state : State)
  | anchorsItself (fiber : Nat)
  | noContext (fiber : Nat)
  | yieldedWhile (fiber : Nat) (state : State)
  | rootYielded (fiber : Nat)
  | yieldedWithoutRoot (fiber : Nat)
  | rootReset (fiber : Nat)
  | resetWhile (fiber : Nat) (state : State)
  | startedWithoutCallback (fiber : Nat)
  | destroyedWhile (fiber : Nat) (state : State)
  | rootHoldsCallback (fiber : Nat)
  | rootDestroyedWhile (fiber : Nat) (state : State)
  deriving DecidableEq, Repr

def Violation.message : Violation → String
  | .noStack error => error.message
  | .resumedWhile f s => s!"fiber {f} resumed while {s.name}"
  | .anchorsItself f => s!"fiber {f} cannot anchor its own resume"
  | .noContext f => s!"fiber {f} has no saved context"
  | .yieldedWhile f s => s!"fiber {f} yielded while {s.name}"
  | .rootYielded f => s!"root fiber {f} cannot yield"
  | .yieldedWithoutRoot f => s!"fiber {f} yielded on a thread without a root"
  | .rootReset f => s!"root fiber {f} cannot be reset"
  | .resetWhile f s => s!"fiber {f} reset while {s.name}"
  | .startedWithoutCallback f => s!"fiber {f} started without a callback"
  | .destroyedWhile f s => s!"fiber {f} destroyed while {s.name}"
  | .rootHoldsCallback f => s!"root fiber {f} holds a callback"
  | .rootDestroyedWhile f s => s!"root fiber {f} destroyed while {s.name}"

end Fibers
