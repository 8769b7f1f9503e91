import Fibers.Process.Memory

/-! Counters, tallies and stacks of a thread.

Besides fibers a script can keep counters, tallies and stacks of its own, each under
a name. A tally that loses its name is still the allocator of the stacks it handed
out. A stack that is replaced under its name is released after the new one is
there. -/
namespace Fibers.Act

/-- Adds to a counter, which starts at zero. -/
def add (counter : String) (amount : Int) : Act Answer := do
  let n := ((← thread).counters.get? counter).getD 0 + amount
  modifyThread fun t => {t with counters := t.counters.set counter n}
  return .count n

/-- Makes a tally with nothing recorded, under a name. -/
def makeTally (name : String) (source : Memory.Source) (limit : Option Nat) : Act Answer := do
  modifyThread fun t => {t with
    tallies := t.tallies ++ [{source, limit}]
    tallyNames := t.tallyNames.set name t.tallies.length}
  return .nothing

/-- What a tally has recorded. -/
def readTally (name : String) : Act Answer := do
  match (← thread).tally? name with
  | some tally => return .tally tally.allocated tally.released
  | none => return .absent

/-- Makes a stack and keeps it under a name. -/
def makeStack (name : String) (size : Nat) (supply : Supply) : Act Answer := do
  let some allocator ← allocator? supply | return .absent
  match ← allocateStack allocator size with
  | .error error => return .failed error
  | .ok stack =>
    let replaced := (← thread).kept.get? name
    modifyThread fun t => {t with kept := t.kept.set name stack}
    if let some other := replaced then releaseStack other
    return .stack stack

/-- Releases the stack kept under a name. -/
def freeStack (name : String) : Act Answer := do
  match (← thread).kept.get? name with
  | none => return .absent
  | some stack =>
    modifyThread fun t => {t with kept := t.kept.erase name}
    releaseStack stack
    return .nothing

end Fibers.Act
