import Fibers.Config
import Fibers.Fiber.State
import Fibers.Word

/-! Configurations and states as data.

Data is exchanged as values of the usual kinds. A configuration is an object, of
which it takes the fields it has and ignores the others, or a list of its fields in
order; what is left out has its default. A state is its name, alone or as the one
field of an object with nothing in it. -/
namespace Fibers.Interchange

inductive Value
  | null
  | bool (value : Bool)
  /-- A number written as an integer. -/
  | integer (value : Int)
  /-- Any other number. -/
  | fraction
  | text (value : String)
  | list (values : List Value)
  /-- Fields by name, each name once. -/
  | object (fields : List (String × Value))

/-- The value of a field. -/
def Value.field? (name : String) : Value → Option Value
  | .object fields => fields.lookup name
  | _ => none

/-- A number that a word holds. -/
def Value.word? : Value → Option Nat
  | .integer n => if 0 ≤ n then Word.check n.toNat else none
  | _ => none

end Fibers.Interchange

namespace Fibers
open Interchange

/-- The configuration that a value describes. -/
def Config.ofValue? : Value → Option Config
  | .object fields =>
    match fields.lookup "stack_size" with
    | some size => size.word?.map ({stackSize := ·})
    | none => some .default
  | .list [] => some .default
  | .list [size] => size.word?.map ({stackSize := ·})
  | _ => none

/-- The state that a value describes. -/
def State.ofValue? : Value → Option State
  | .text name => ofName? name
  | .object [(name, .null)] => ofName? name
  | _ => none

end Fibers
