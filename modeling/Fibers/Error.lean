import Fibers.Memory.Source
import Fibers.Text.Quoted

/-! Failures that a caller can handle.

A broken invariant is not among them: that ends the process. -/
namespace Fibers

inductive Error
  /-- There was no memory for a stack of this size. -/
  | stackAllocation (size : Nat) (cause : Memory.Refusal)
  /-- A tunable was given a value that it cannot have. -/
  | invalidConfig (key value : String)
  deriving DecidableEq, Repr

/-- The text of an error. A rejected value is quoted as it was given. -/
def Error.message : Error → String
  | .stackAllocation size _ => s!"failed to allocate a {size} byte fiber stack"
  | .invalidConfig key value => "invalid value " ++ Text.quote value ++ " for `" ++ key ++ "`"

end Fibers
