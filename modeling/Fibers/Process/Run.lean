import Fibers.Process.Perform

/-! Running a process.

A step does one thing: an operation up to the point where it answers or switches, the
return from a switch, or one stage of the way into or out of a script. Threads run
one inside the other: the end of a thread's program continues the thread that waits
for it, and the end of the first one is the end of the process. -/
namespace Fibers
namespace Act

/-- Takes the root of the ending thread from it and gives its handle back. -/
def releaseRoot : Act Unit := do
  let t ← thread
  if let some root := t.root then
    modifyThread fun t => {t with
      root := none
      current := if t.current = some root then none else t.current}
    release root

/-- The end of a thread's program. A thread that another one waits for gives up its root;
what is left in its slots stays behind. -/
def endThread (outcome : Outcome) : Act Unit := do
  match (← get).joining with
  | [] =>
    match outcome with
    | .finished => throw (.ended (← status))
    | .panicked _ => throw .panicked
  | joiner :: rest =>
    releaseRoot
    modify fun p => {p with
      thread := joiner.thread
      joining := rest
      ended := p.thread :: p.ended}
    answer joiner.label (.joined outcome)

/-- One step of the executing code. -/
def step : Act Unit := do
  match (← thread).running.code with
  | .opening program =>
    modifyThread (·.become (.active ⟨.program, [], Task.ofOps program⟩))
    emit (.began (← status))
  | .entry _ => enter
  | .active frame =>
    match frame.todo with
    | [] => modifyThread (·.become (.leaving frame.origin frame.held .finished))
    | task :: rest =>
      modifyThread (·.become (.active {frame with todo := rest}))
      carryOut task
  | .leaving origin held outcome => leave origin held outcome
  | .returned (.callback f) _ => finish f
  | .returned .program outcome => endThread outcome
  | .spent f => throw (.fault (.spent f))

end Act

namespace Process

/-- Runs a process for at most so many steps. Answers why it halted, if it did, and the
process as it is then. -/
def run : Nat → Process → Option Halt × Process
  | 0, p => (none, p)
  | n + 1, p =>
    match Act.step p with
    | .ok _ p => run n p
    | .error halt p => (some halt, p)

end Process
end Fibers
