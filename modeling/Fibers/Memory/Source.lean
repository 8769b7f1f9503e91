import Fibers.Word

/-! Sources of stack memory.

A source turns a requested size into a demand on the system: how many bytes, at
what alignment, and how many of the lowest ones to protect. The heap asks for the
size itself. A guarded source asks for whole pages, with its guard pages below the
usable ones, and computes the length in words: a demand whose length no word holds
is refused before the system is asked. -/
namespace Fibers.Memory

/-- Why there is no memory: the request makes no sense, or the system has none. -/
inductive Refusal
  | invalidInput
  | outOfMemory
  deriving DecidableEq, Repr

def Refusal.name : Refusal → String
  | .invalidInput => "InvalidInput"
  | .outOfMemory => "OutOfMemory"

/-- Where stack memory comes from. -/
inductive Source
  /-- The heap. -/
  | heap
  /-- Mappings of their own, with that many protected pages below the stack. -/
  | guarded (pages : Nat)
  deriving DecidableEq, Repr

/-- Bytes in a page. -/
def pageSize : Nat := 4096

/-- Stacks start at multiples of this. -/
def stackAlignment : Nat := 16

/-- The largest size the heap takes: rounded up to the alignment it still fits half the
words. -/
def heapLimit : Nat := Nat.pow 2 63 - stackAlignment

/-- What is asked of the system: `length` bytes at a multiple of `alignment`, of which
the lowest `guard` are made inaccessible. -/
structure Demand where
  length : Nat
  alignment : Nat
  guard : Nat
  deriving DecidableEq, Repr

/-- The guard length and the whole length of a mapping for `size` bytes above `pages`
guard pages, if words hold them. -/
def mappingLengths? (pages size : Nat) : Option (Nat × Nat) := do
  let guard ← Word.mul? pages pageSize
  let usable ← Word.nextMultiple? size pageSize
  let length ← Word.add? guard usable
  return (guard, length)

/-- What a source asks of the system for a block of `size` bytes. -/
def Source.demand (source : Source) (size : Nat) : Except Refusal Demand :=
  if size = 0 then .error .invalidInput
  else match source with
    | .heap =>
      if size ≤ heapLimit then .ok ⟨size, stackAlignment, 0⟩ else .error .invalidInput
    | .guarded pages =>
      match mappingLengths? pages size with
      | some (guard, length) => .ok ⟨length, pageSize, guard⟩
      | none => .error .invalidInput

end Fibers.Memory
