import Fibers.Event
import Fibers.Thread

/-! Processes.

A process runs one thread at a time: the one that executes, under those that wait
for the thread they started to end. Threads share the count of ids, the count of
live fibers, the memory, the environment and the default stack size, and nothing
else.

An action changes the process and may bring it to a halt, which keeps the process as
it was then. Besides the ends that a run can report there are faults: an action
that would touch a destroyed fiber, or go on after the end of a fiber's code, stops
in a fault instead of inventing an answer. -/
namespace Fibers

/-- A thread that waits for the one it started. The label is that of the operation which
started it. -/
structure Joiner where
  thread : Thread
  label : Label

structure Process where
  /-- How detailed the records are that go into the trace. -/
  level : Level
  /-- The scripts that have names. -/
  scripts : List (String × List Op)
  environment : Config.Environment
  /-- The default stack size, once it was installed or resolved. -/
  stackSize : Option Nat := none
  /-- The id of the next fiber. It is counted without a bound, so it stands for a counter of
  64 bits as long as no more than 2^64 fibers were made. -/
  nextId : Nat := 0
  /-- How many fibers are alive; under the same bound it fits 64 bits, for it never exceeds
  `nextId`. -/
  live : Nat := 0
  /-- The serial number of the next context. -/
  nextSerial : Nat
  memory : Memory.System := {}
  /-- The thread that executes. -/
  thread : Thread
  /-- The threads that wait, innermost first. -/
  joining : List Joiner := []
  /-- The threads that ended, with what they left behind. -/
  ended : List Thread := []
  /-- What happened so far, latest first. -/
  trace : List Event := []

/-- What no rule of the fibers provides for. -/
inductive Fault
  /-- A fiber was touched after it was destroyed. -/
  | destroyed (fiber : Nat)
  /-- Code was continued after its end. -/
  | spent (fiber : Nat)
  deriving DecidableEq, Repr

/-- Why a process does not go on. -/
inductive Halt
  /-- The program of the first thread ended. -/
  | ended (status : Status)
  /-- The program of the first thread panicked. -/
  | panicked
  | aborted (violation : Violation)
  | fault (fault : Fault)
  deriving DecidableEq, Repr

abbrev Act := EStateM Halt Process

namespace Act

/-- The thread that executes. -/
def thread : Act Thread := return (← get).thread

def modifyThread (f : Thread → Thread) : Act Unit :=
  modify fun p => {p with thread := f p.thread}

def emit (event : Event) : Act Unit :=
  modify fun p => {p with trace := event :: p.trace}

/-- Logs a record, which the level of the process may leave out. -/
def log (record : Record) : Act Unit := do
  if record.level ≤ (← get).level then emit (.logged record)

/-- Aborts the process over a broken invariant. -/
def violate {α : Type} (violation : Violation) : Act α := do
  log (.violated violation)
  throw (.aborted violation)

/-- Aborts the process unless a rule of the fibers is kept. -/
def ensure (rule : Prop) [Decidable rule] (violation : Violation) : Act Unit :=
  if rule then pure () else violate violation

/-- A serial number that no context has. -/
def freshSerial : Act Nat := do
  let serial := (← get).nextSerial
  modify fun p => {p with nextSerial := p.nextSerial + 1}
  return serial

/-- A fiber of the executing thread, which must be alive. -/
def fiber (f : Nat) : Act Fiber := do
  match (← thread).fibers.get? f with
  | some x => return x
  | none => throw (.fault (.destroyed f))

def setFiber (f : Nat) (x : Fiber) : Act Unit :=
  modifyThread fun t => {t with fibers := t.fibers.set f x}

def modifyFiber (f : Nat) (g : Fiber → Fiber) : Act Unit := do
  setFiber f (g (← fiber f))

def setCurrent (f : Option Nat) : Act Unit :=
  modifyThread fun t => {t with current := f}

/-- Adds a context that is never continued. -/
def lose (context : Option Context) : Act Unit :=
  modifyThread fun t => {t with lost := context.toList ++ t.lost}

/-- The id of the current fiber, zero while there is none, and the live count. -/
def status : Act Status := do
  let current ← match (← thread).current with
    | some f => do let _ ← fiber f; pure f
    | none => pure 0
  return ⟨current, (← get).live⟩

/-- Records that an operation returned. -/
def answer (label : Label) (a : Answer) : Act Unit := do
  emit (.done label (← status) a)

/-- The operations of a script, if it is known. -/
def resolve : Script → Act (Option (List Op))
  | .inline ops => return some ops
  | .named name => return (← get).scripts.lookup name

end Act
end Fibers
