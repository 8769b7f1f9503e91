import Fibers.Memory.System

/-! Stacks and the allocators they belong to.

A stack owns one block of memory and remembers which allocator it came from, so
that the block goes back there with the size it was asked for. Besides a plain
source there are tallies: allocators that pass every request on to a source, keep
a record of what was handed out and what came back, and stop at a limit. -/
namespace Fibers.Memory

/-- The least size of a fiber's stack: entering and leaving a fiber needs that much. -/
def minStackSize : Nat := 16 * 1024

/-- The size a fiber's stack gets for a request. -/
def stackSizeFor (requested : Nat) : Nat := max requested minStackSize

/-- Which allocator a stack belongs to. -/
inductive Allocator
  | source (source : Source)
  /-- The tally with this serial number on its thread. -/
  | tally (serial : Nat)
  deriving DecidableEq, Repr

/-- A uniquely owned block of memory. -/
structure Stack where
  /-- The lowest address. -/
  block : Nat
  size : Nat
  allocator : Allocator
  deriving DecidableEq, Repr

/-- A stack as it is shown for inspection. -/
def Stack.inspect (s : Stack) : String :=
  s!"FiberStack \x7b block: {Word.hex s.block}, size: {s.size} \x7d"

/-- A recording allocator. -/
structure Tally where
  source : Source
  /-- How many blocks it hands out; without a limit, any number. -/
  limit : Option Nat := none
  /-- The sizes handed out, in order. -/
  allocated : List Nat := []
  /-- The sizes that came back, in order. -/
  released : List Nat := []
  deriving Repr

namespace Tally

/-- Whether no more blocks are handed out. -/
def exhausted (t : Tally) : Bool :=
  match t.limit with
  | some n => n ≤ t.allocated.length
  | none => false

def recordAllocated (t : Tally) (size : Nat) : Tally :=
  {t with allocated := t.allocated ++ [size]}

def recordReleased (t : Tally) (size : Nat) : Tally :=
  {t with released := t.released ++ [size]}

end Tally

/-- What a trial allocation finds out about a block. -/
structure Trial where
  size : Nat
  /-- Whether the block starts at a multiple of the stack alignment. -/
  aligned : Bool
  /-- Whether its first and its last byte can be written. -/
  writable : Bool
  deriving DecidableEq, Repr

/-- Allocates a block of `size` bytes on a fresh system and looks at it. -/
def trial (source : Source) (size : Nat) : Except Refusal Trial := do
  let demand ← source.demand size
  let (region, _) ← System.grant {} demand
  return {
    size
    aligned := region.block % stackAlignment = 0
    writable := region.Writable region.block ∧ region.Writable (region.block + size - 1) }

end Fibers.Memory
