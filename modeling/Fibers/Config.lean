import Fibers.Error
import Fibers.Text.Numeral

/-! The configuration of fibers.

There is one tunable, the stack size of a fiber that is created without one. A
configuration is read from named texts through a lookup, which may have effects of
its own: the process reads its environment, a caller can bring a table. A name the
lookup does not know keeps its default; a text that is no size is an error. -/
namespace Fibers

structure Config where
  /-- Bytes of stack for a fiber created with a size of zero. -/
  stackSize : Nat := 128 * 1024
  deriving DecidableEq, Repr

namespace Config

/-- The name of the default stack size. -/
def stackSizeKey : String := "fiber.stack_size"

def default : Config := {}

/-- The size that a named text gives, or the error that reports it. -/
def parseSize (key value : String) : Except Error Nat :=
  match Text.size? value with
  | some n => .ok n
  | none => .error (.invalidConfig key value)

/-- The configuration that a lookup resolves. -/
def ofLookup {m : Type → Type} [Monad m] (lookup : String → m (Option String)) :
    m (Except Error Config) := do
  match ← lookup stackSizeKey with
  | none => return .ok default
  | some value => return (parseSize stackSizeKey value).map ({stackSize := ·})

/-- The error of a configuration that cannot be installed: a default of zero bytes. -/
def refused? (config : Config) : Option Error :=
  if config.stackSize = 0 then some (.invalidConfig stackSizeKey (toString config.stackSize))
  else none

/-- A lookup in a table that also notes, in order, what it was asked for. -/
def noted (values : List (String × String)) (name : String) :
    StateM (List String) (Option String) := do
  modify (· ++ [name])
  return values.lookup name

/-- The configuration that a table of values gives, and the names that were asked for. -/
def ofValues (values : List (String × String)) : Except Error Config × List String :=
  (ofLookup (noted values)).run []

end Config
end Fibers
