import Fibers.Process.Basic

/-! Stack memory in a process.

A stack is allocated through a source or through a tally of the thread, and goes
back the same way. The default size is resolved from the environment when it is
first needed, unless one was installed before; from then on it stays what it is
until another is installed. -/
namespace Fibers.Act
open Memory

/-- The allocator a script asks for, if there is one. -/
def allocator? : Supply → Act (Option Allocator)
  | .source source => return some (.source source)
  | .tally name => return (← thread).tallyNames.get? name |>.map .tally

def modifyTally (serial : Nat) (f : Tally → Tally) : Act Unit :=
  modifyThread fun t => {t with tallies := t.tallies.modify serial f}

/-- A stack of `size` bytes from a source; it will belong to `allocator`. -/
def allocateFrom (source : Source) (size : Nat) (allocator : Allocator) :
    Act (Except Error Stack) := do
  match (← get).memory.allocate source size with
  | .ok (block, memory) =>
    modify fun p => {p with memory}
    return .ok ⟨block, size, allocator⟩
  | .error cause => return .error (.stackAllocation size cause)

/-- A stack of `size` bytes from an allocator. -/
def allocateStack (allocator : Allocator) (size : Nat) : Act (Except Error Stack) := do
  match allocator with
  | .source source => allocateFrom source size allocator
  | .tally serial =>
    match (← thread).tallies[serial]? with
    | none => return .error (.stackAllocation size .outOfMemory)
    | some tally =>
      if tally.exhausted then return .error (.stackAllocation size .outOfMemory)
      let result ← allocateFrom tally.source size allocator
      if result.isOk then modifyTally serial (·.recordAllocated size)
      return result

/-- Gives the block of a stack back. -/
def releaseStack (stack : Stack) : Act Unit := do
  let source? ← match stack.allocator with
    | .source source => pure (some source)
    | .tally serial =>
      modifyTally serial (·.recordReleased stack.size)
      pure ((← thread).tallies[serial]?.map (·.source))
  if let some source := source? then
    modify fun p => {p with memory := p.memory.deallocate source stack.block stack.size}
  log (.releasedStack stack.size stack.block)

/-- The default stack size, resolved now if need be. -/
def defaultStackSize : Act Nat := do
  match (← get).stackSize with
  | some n => return n
  | none =>
    let n ← match Config.ofEnvironment (← get).environment with
      | .ok config => pure config.stackSize
      | .error error => do
        log (.fallback error Config.default.stackSize)
        pure Config.default.stackSize
    modify fun p => {p with stackSize := some n}
    return n

/-- Makes a configuration the process's own. -/
def install (config : Config) : Act Answer := do
  match config.refused? with
  | some error => return .failed error
  | none =>
    modify fun p => {p with stackSize := some config.stackSize}
    log (.installed config.stackSize)
    return .installed

end Fibers.Act
