import Fibers.Process.Run

/-! Scenarios.

A scenario is what a fresh process is given: the level of its records, its
environment, where the system places memory, the scripts that have names, and the
program of its first thread. Its report is the trace and the end it came to. -/
namespace Fibers

structure Scenario where
  level : Level := .error
  environment : Config.Environment := none
  placement : Memory.Placement := .rising
  /-- The scripts that have names. -/
  scripts : List (String × List Op) := []
  program : List Op

/-- What became of a scenario. -/
structure Report where
  /-- What happened, in order. -/
  events : List Event
  /-- Why it ended, if it did within the steps it was given. -/
  halt : Option Halt

namespace Scenario

/-- The fresh process of a scenario. -/
def process (s : Scenario) : Process where
  level := s.level
  scripts := s.scripts
  environment := s.environment
  memory := {placement := s.placement}
  thread := .start 0 s.program
  nextSerial := 1

/-- Plays a scenario for at most so many steps. -/
def play (s : Scenario) (steps : Nat) : Report :=
  let (halt, p) := s.process.run steps
  ⟨p.trace.reverse, halt⟩

end Scenario
end Fibers
