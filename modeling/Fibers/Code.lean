import Fibers.Script

/-! Code: what a thread executes and what a context saves.

Code is either a script in progress, with the handles its thread of execution
keeps, or one of the steps around it: the start of a fiber, the way out of a
callback, and the terminal switch that is never returned to. A context is code at
rest, or the code that executes now; each time code is suspended or a start is
made, the context gets a serial number of its own, so that two contexts with the
same code can be told apart. -/
namespace Fibers

/-- Whose script a piece of code runs: the program of the thread, or the callback of a
fiber. -/
inductive Origin
  | program
  | callback (fiber : Nat)
  deriving DecidableEq, Repr

/-- How a script came to its end. -/
inductive Outcome
  | finished
  | panicked (payload : Payload)
  deriving DecidableEq, Repr

/-- One thing that is left to do. -/
inductive Task
  | perform (op : Op)
  /-- A body to go through so many times more. -/
  | again (count : Nat) (body : List Op)
  /-- A body to go through, at most so many times more, while the fiber in the slot has not
  terminated. -/
  | untilTerm (rounds : Nat) (slot : String) (body : List Op)
  /-- A `resume` to return from. It keeps a handle of the fiber it resumed. -/
  | resumed (label : Label) (fiber : Nat)
  /-- A yield to return from. One that named its fiber keeps a handle of it. -/
  | yielded (label : Label) (fiber : Option Nat)

/-- A script in progress. The code of a callback keeps, besides the handles it holds for
the script, one of its own fiber. -/
structure Frame where
  origin : Origin
  /-- Handles held until the script ends, in the order they were taken. -/
  held : List Nat := []
  todo : List Task

inductive Code
  /-- The program of a thread before its first operation. -/
  | opening (program : List Op)
  /-- The start of a fiber. -/
  | entry (fiber : Nat)
  | active (frame : Frame)
  /-- The script is over; the handles it held have yet to go. -/
  | leaving (origin : Origin) (held : List Nat) (outcome : Outcome)
  /-- Those handles are gone. A callback's code still keeps its own fiber. -/
  | returned (origin : Origin) (outcome : Outcome)
  /-- The end of a fiber's code, after its terminal yield. -/
  | spent (fiber : Nat)

structure Context where
  serial : Nat
  code : Code

/-- The operations of a script as things to do. -/
def Task.ofOps (ops : List Op) : List Task := ops.map .perform

namespace Code

/-- The code with more to do first. -/
def before (tasks : List Task) : Code → Code
  | active frame => active {frame with todo := tasks ++ frame.todo}
  | code => code

/-- The code with another handle held. -/
def hold (fiber : Nat) : Code → Code
  | active frame => active {frame with held := frame.held ++ [fiber]}
  | code => code

/-- The code on its way out. -/
def leave (outcome : Outcome) : Code → Code
  | active frame => leaving frame.origin frame.held outcome
  | code => code

end Code

/-- The handles a task keeps. -/
def Task.handles : Task → List Nat
  | .resumed _ fiber => [fiber]
  | .yielded _ fiber => fiber.toList
  | _ => []

/-- The handle that the code of a callback keeps of its own fiber. -/
def Origin.handles : Origin → List Nat
  | .program => []
  | .callback fiber => [fiber]

/-- All the handles a piece of code keeps. -/
def Code.handles : Code → List Nat
  | .active frame => frame.origin.handles ++ frame.held ++ frame.todo.flatMap Task.handles
  | .leaving origin held _ => origin.handles ++ held
  | .returned origin _ => origin.handles
  | _ => []

end Fibers
