/-! Levels of detail.

Every record has a level. A process that runs at a level keeps the records of that
level and of the graver ones. -/
namespace Fibers

/-- From the gravest to the most detailed. -/
inductive Level
  | error
  | warn
  | info
  | debug
  | trace
  deriving DecidableEq, Repr

namespace Level

/-- How far a level goes into detail. -/
def detail : Level → Nat
  | error => 0
  | warn => 1
  | info => 2
  | debug => 3
  | trace => 4

instance : LE Level := ⟨fun a b => a.detail ≤ b.detail⟩

instance (a b : Level) : Decidable (a ≤ b) := inferInstanceAs (Decidable (a.detail ≤ b.detail))

def name : Level → String
  | error => "ERROR"
  | warn => "WARN"
  | info => "INFO"
  | debug => "DEBUG"
  | trace => "TRACE"

end Level
end Fibers
