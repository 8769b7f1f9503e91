/-! The states of a fiber.

A fiber that has not begun and one that is suspended are both ready. Any end of its
callback, by return or by panic, terminates it. -/
namespace Fibers

inductive State
  | ready
  | running
  | term
  deriving DecidableEq, Repr

namespace State

def name : State → String
  | ready => "Ready"
  | running => "Running"
  | term => "Term"

def ofName? (name : String) : Option State :=
  [ready, running, term].find? fun s => s.name = name

end State
end Fibers
