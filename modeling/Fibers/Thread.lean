import Fibers.Fiber
import Fibers.Table

/-! Threads.

A thread owns its fibers and everything its scripts name: slots, counters, tallies
and stacks. It knows the fiber that is current, its root once there is one, and the
hub, which is a name only and keeps nothing alive. What it executes is one context;
the others rest in its fibers, one at most in each. A context that is overwritten,
or whose fiber goes, is never continued, and neither are the handles it keeps ever
dropped: such contexts are recorded as lost. -/
namespace Fibers

structure Thread where
  /-- The fibers that are alive. -/
  fibers : Table Nat Fiber := .empty
  current : Option Nat := none
  /-- The root. The thread keeps a handle of it. -/
  root : Option Nat := none
  hub : Option Nat := none
  /-- Handles by name. -/
  slots : Table String Nat := .empty
  counters : Table String Int := .empty
  /-- All tallies made, by serial number. -/
  tallies : List Memory.Tally := []
  /-- The tallies that have a name now. -/
  tallyNames : Table String Nat := .empty
  /-- Stacks that belong to no fiber. -/
  kept : Table String Memory.Stack := .empty
  /-- The code that executes, in the context it was last continued from. -/
  running : Context
  lost : List Context := []

namespace Thread

/-- A thread about to run a program, in a context with this serial number. -/
def start (serial : Nat) (program : List Op) : Thread where
  running := ⟨serial, .opening program⟩

/-- Whether a fiber is alive. -/
def Alive (t : Thread) (f : Nat) : Prop := (t.fibers.get? f).isSome

instance (t : Thread) (f : Nat) : Decidable (t.Alive f) :=
  inferInstanceAs (Decidable (_ = true))

/-- The hub, as long as it is alive. -/
def livingHub (t : Thread) : Option Nat :=
  t.hub.filter fun h => t.Alive h

/-- The thread with other code to execute in the same context. -/
def become (t : Thread) (code : Code) : Thread :=
  {t with running := {t.running with code}}

/-- The thread with more to do first. -/
def defer (t : Thread) (tasks : List Task) : Thread :=
  t.become (t.running.code.before tasks)

/-- The tally that a name stands for now. -/
def tally? (t : Thread) (name : String) : Option Memory.Tally := do
  t.tallies[← t.tallyNames.get? name]?

end Thread
end Fibers
