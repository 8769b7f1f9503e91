import Fibers.Code

/-! Fibers.

A fiber has a state, a place for the context it is to be continued from, and,
until it begins, its callback. A task fiber owns the stack it runs on; the root
fiber of a thread stands for the thread's own execution and has none. A fiber
lives as long as there are handles of it. -/
namespace Fibers

structure Fiber where
  state : State
  /-- The stack of a task fiber; none for a root. -/
  stack : Option Memory.Stack
  /-- The saved context, while there is one. -/
  context : Option Context
  /-- The callback that has not begun. -/
  callback : Option (List Op)
  /-- Whether it takes part in a scheduler, whose hub then anchors it. -/
  scheduled : Bool
  /-- How many handles of it there are. -/
  handles : Nat

namespace Fiber

def isRoot (f : Fiber) : Bool := f.stack.isNone

/-- A task fiber ready to begin, with one handle. -/
def task (stack : Memory.Stack) (start : Context) (callback : List Op) (scheduled : Bool) :
    Fiber where
  state := .ready
  stack := some stack
  context := some start
  callback := some callback
  scheduled
  handles := 1

/-- The fiber of a thread that executes on its own stack, with one handle. -/
def root : Fiber where
  state := .running
  stack := none
  context := none
  callback := none
  scheduled := false
  handles := 1

/-- What can be seen of a fiber. -/
structure View where
  id : Nat
  state : State
  stack : Option Memory.Stack
  scheduled : Bool
  deriving DecidableEq, Repr

def view (f : Fiber) (id : Nat) : View := ⟨id, f.state, f.stack, f.scheduled⟩

/-- A fiber as it is shown for inspection. -/
def View.inspect (v : View) : String :=
  let stack := match v.stack with
    | some s => s!"Some({s.inspect})"
    | none => "None"
  s!"Fiber \x7b id: {v.id}, state: {v.state.name}, stack: {stack}, " ++
    s!"run_in_scheduler: {v.scheduled} \x7d"

end Fiber
end Fibers
