import Fibers.Process.Slot
import Fibers.Process.Workspace

/-! Performing operations.

Most operations answer at once. Those that switch first leave behind what they will
do when control comes back, so that an operation which never gets control back
never answers. Control operations only change what is to be done next. -/
namespace Fibers.Act

/-- How often `untilTerm` goes through its body at most. -/
def maxRounds : Nat := 1000

/-- Puts tasks before what the executing code has yet to do. -/
def defer (tasks : List Task) : Act Unit :=
  modifyThread (·.defer tasks)

/-- The operations of a body, none if its name is not known. -/
def bodyOf (script : Script) : Act (List Op) :=
  return (← resolve script).getD []

/-- Lets the executing thread wait for a new one that runs a program. -/
def launch (label : Label) (program : List Op) : Act Unit := do
  let serial ← freshSerial
  modify fun p => {p with
    thread := .start serial program
    joining := ⟨p.thread, label⟩ :: p.joining}

/-- The state of the fiber in a slot. -/
def slotState? (s : String) : Act (Option State) := do
  match ← slot? s with
  | some f => return some (← fiber f).state
  | none => return none

/-- Performs an operation of the executing code. -/
def perform (op : Op) : Act Unit := do
  let label := op.label
  match op.action with
  | .nothing => answer label .absent
  | .create s callback size scheduled supply =>
    answer label (← create s callback size scheduled supply)
  | .reset s callback =>
    answer label (← reset s callback fun _ x => .state x.state)
  | .resetInPlace s callback =>
    answer label (← reset s callback fun x y =>
      .truth (x.stack.map (·.block) = y.stack.map (·.block)))
  | .resume s =>
    match ← slot? s with
    | none => answer label .absent
    | some f =>
      retain f
      defer [.resumed label f]
      resume f
  | .yield =>
    defer [.yielded label none]
    let f ← currentFiber
    release f
    yieldFiber f
  | .yieldOf s =>
    match ← slot? s with
    | none => answer label .absent
    | some f =>
      retain f
      defer [.yielded label (some f)]
      yieldFiber f
  | .current s => answer label (← findCurrent s)
  | .clone s target => answer label (← clone s target)
  | .drop s => answer label (← drop s)
  | .hold s => answer label (← hold s)
  | .state s => answer label (← onSlot s fun f => return .state (← fiber f).state)
  | .view s => answer label (← onSlot s fun f => return .view ((← fiber f).view f))
  | .inspect s => answer label (← onSlot s fun f => return .inspection ((← fiber f).view f))
  | .same s other =>
    answer label (← onSlot s fun f => onSlot other fun g => return .truth (f = g))
  | .setHub s => answer label (← onSlot s fun f => setHub (some f))
  | .clearHub => answer label (← setHub none)
  | .hub s => answer label (← findHub s)
  | .currentId => answer label (.id (← status).current)
  | .panic payload => modifyThread fun t => t.become (t.running.code.leave (.panicked payload))
  | .note => answer label .nothing
  | .add counter amount => answer label (← add counter amount)
  | .install config => answer label (← install config)
  | .readEnvironment =>
    match Config.ofEnvironment (← get).environment with
    | .ok config => answer label (.config config)
    | .error error => answer label (.failed error)
  | .stackSize => answer label (.size (← defaultStackSize))
  | .setEnvironment environment =>
    modify fun p => {p with environment}
    answer label .nothing
  | .makeTally name source limit => answer label (← makeTally name source limit)
  | .readTally name => answer label (← readTally name)
  | .makeStack name size supply => answer label (← makeStack name size supply)
  | .freeStack name => answer label (← freeStack name)
  | .runThread program =>
    match ← resolve program with
    | none => answer label .absent
    | some ops => launch label ops
  | .times count body => defer [.again count (← bodyOf body)]
  | .untilTerm s body => defer [.untilTerm maxRounds s (← bodyOf body)]
  | .whenState s state body otherwise =>
    let found ← slotState? s
    defer (Task.ofOps (← bodyOf (if found.isSome && found = state then body else otherwise)))

/-- Does the next thing that the executing code has to do. -/
def carryOut : Task → Act Unit
  | .perform op => perform op
  | .again 0 _ => return
  | .again (n + 1) body => defer (Task.ofOps body ++ [.again n body])
  | .untilTerm 0 _ _ => return
  | .untilTerm (n + 1) s body => do
    match ← slotState? s with
    | none | some .term => return
    | some _ => defer (Task.ofOps body ++ [.untilTerm n s body])
  | .resumed label f => do
    let x ← fiber f
    release f
    answer label (.state x.state)
  | .yielded label none => answer label .nothing
  | .yielded label (some f) => do
    let x ← fiber f
    release f
    answer label (.state x.state)

end Fibers.Act
