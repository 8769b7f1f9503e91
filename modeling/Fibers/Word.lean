/-! Word arithmetic that notices overflow.

Sizes, lengths and addresses are 64-bit words. Every operation here computes the
exact number and answers only when a word holds it, so nothing wraps around. -/
namespace Fibers.Word

/-- Words are below this bound. -/
def bound : Nat := Nat.pow 2 64

/-- A number, if a word holds it. -/
def check (n : Nat) : Option Nat :=
  if n < bound then some n else none

def add? (a b : Nat) : Option Nat := check (a + b)

def mul? (a b : Nat) : Option Nat := check (a * b)

/-- The least multiple of `unit` that is not below `n`. -/
def nextMultiple? (n unit : Nat) : Option Nat :=
  if n % unit = 0 then some n else add? n (unit - n % unit)

/-- A number in lower-case hexadecimal, the way addresses are written. -/
def hex (n : Nat) : String := "0x" ++ String.ofList (Nat.toDigits 16 n)

end Fibers.Word
