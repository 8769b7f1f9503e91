import Fibers.Memory.Source

/-! The system that grants memory.

It refuses a length beyond the address space and grants everything else. *Where* it
puts what is demanded is a `Placement`: any that gives as much as was demanded, at a
multiple as demanded, and apart from all that is reserved. Nothing else is known of
an address; in particular it may be given out again after it came back.

The system remembers the calls that it answered. What it has granted stays reserved
until the same region is given back. -/
namespace Fibers.Memory

/-- A stretch of memory that the system has reserved. -/
structure Region where
  base : Nat
  length : Nat
  guard : Nat
  deriving DecidableEq, Repr

namespace Region

/-- The lowest address above the guard: where the block of a stack begins. -/
def block (r : Region) : Nat := r.base + r.guard

/-- The address lies in the region, guarded or not. -/
def Spans (r : Region) (address : Nat) : Prop := r.base ≤ address ∧ address < r.base + r.length

/-- Whether the byte at an address can be written. -/
def Writable (r : Region) (address : Nat) : Prop :=
  r.block ≤ address ∧ address < r.base + r.length

instance (r : Region) (address : Nat) : Decidable (r.Writable address) :=
  inferInstanceAs (Decidable (_ ∧ _))

/-- No address lies in both. -/
def Apart (r r' : Region) : Prop := ∀ address, r.Spans address → ¬r'.Spans address

/-- The region is what was demanded: as long, at such a multiple, and guarded so far. -/
structure Honours (r : Region) (d : Demand) : Prop where
  alignment : d.alignment ∣ r.base
  length : r.length = d.length
  guard : r.guard = d.guard

end Region

/-- The bytes that can be addressed. -/
def addressSpace : Nat := Nat.pow 2 47

/-- What the system was called for. -/
inductive Call
  | granted (region : Region)
  | gaveBack (region : Region)
  deriving DecidableEq, Repr

/-- All regions that were granted, the latest first. -/
def granted (calls : List Call) : List Region :=
  calls.filterMap fun
    | .granted r => some r
    | .gaveBack _ => none

/-- All regions that were given back, the latest first. -/
def givenBack (calls : List Call) : List Region :=
  calls.filterMap fun
    | .granted _ => none
    | .gaveBack r => some r

/-- The regions that are reserved after some calls, of which the latest comes first. -/
def reserved : List Call → List Region
  | [] => []
  | .granted r :: calls => r :: reserved calls
  | .gaveBack r :: calls => (reserved calls).erase r

theorem reserved_subset (calls : List Call) : reserved calls ⊆ granted calls := by
  induction calls with
  | nil => exact List.Subset.refl _
  | cons call calls ih =>
    cases call with
    | granted r => exact List.cons_subset_cons r ih
    | gaveBack r => exact List.Subset.trans List.erase_subset ih

/-! ### Placement -/

/-- Where the system puts what is demanded, after the calls that it answered. -/
structure Placement where
  region : List Call → Demand → Region
  honours : ∀ calls d, 0 < d.alignment → (region calls d).Honours d
  apart : ∀ calls d, 0 < d.alignment → ∀ r ∈ reserved calls, (region calls d).Apart r

/-- What was granted once is never touched again, even after it came back. -/
def Placement.Fresh (placement : Placement) : Prop :=
  ∀ calls d, 0 < d.alignment → ∀ r ∈ granted calls, (placement.region calls d).Apart r

/-- The lowest address that any placement here uses. -/
def bottom : Nat := 0x10000

/-- The lowest address above all of some regions. -/
def top : List Region → Nat
  | [] => bottom
  | r :: rest => max (r.base + r.length) (top rest)

theorem le_top {regions : List Region} {r : Region} (h : r ∈ regions) :
    r.base + r.length ≤ top regions := by
  induction regions with
  | nil => cases h
  | cons r' rest ih =>
    rw [top]
    rcases List.mem_cons.mp h with rfl | h
    · exact Nat.le_max_left ..
    · exact Nat.le_trans (ih h) (Nat.le_max_right ..)

/-- The least multiple of a number at or above an address. -/
def alignUp (address alignment : Nat) : Nat :=
  (address + (alignment - 1)) / alignment * alignment

theorem le_alignUp (address : Nat) {alignment : Nat} (h : 0 < alignment) :
    address ≤ alignUp address alignment := by
  have hdiv := Nat.div_add_mod (address + (alignment - 1)) alignment
  have hmod := Nat.mod_lt (address + (alignment - 1)) h
  rw [Nat.mul_comm] at hdiv
  unfold alignUp
  omega

/-- A region for a demand, right above some others. -/
def Region.above (regions : List Region) (d : Demand) : Region :=
  ⟨alignUp (top regions) d.alignment, d.length, d.guard⟩

theorem Region.above_honours (regions : List Region) (d : Demand) :
    (above regions d).Honours d :=
  ⟨Nat.dvd_mul_left .., rfl, rfl⟩

theorem Region.above_apart {regions : List Region} {d : Demand} (h : 0 < d.alignment)
    {r : Region} (hr : r ∈ regions) : (above regions d).Apart r := by
  intro address hlow hhigh
  have htop := le_top hr
  have halign := le_alignUp (top regions) h
  have hbase : alignUp (top regions) d.alignment ≤ address := hlow.1
  have hend := hhigh.2
  omega

namespace Placement

/-- Everything lies above all that was ever granted. -/
def rising : Placement where
  region calls d := .above (granted calls) d
  honours calls d _ := Region.above_honours (granted calls) d
  apart calls _ hd _ hr := Region.above_apart hd (reserved_subset calls hr)

theorem rising_fresh : rising.Fresh := fun _ _ hd _ hr => Region.above_apart hd hr

/-- Everything lies above what is reserved, so that what comes back is used again. -/
def stacked : Placement where
  region calls d := .above (reserved calls) d
  honours calls d _ := Region.above_honours (reserved calls) d
  apart _ _ hd _ hr := Region.above_apart hd hr

end Placement

/-! ### The system -/

/-- The memory of a process. -/
structure System where
  placement : Placement := .rising
  /-- The calls that were answered, latest first. -/
  calls : List Call := []

namespace System

/-- What is reserved. -/
def reserved (s : System) : List Region := Memory.reserved s.calls

/-- Reserves what is demanded. -/
def grant (s : System) (d : Demand) : Except Refusal (Region × System) :=
  if d.length < addressSpace then
    let region := s.placement.region s.calls d
    .ok (region, {s with calls := .granted region :: s.calls})
  else .error .outOfMemory

/-- Takes a reserved region back. -/
def giveBack (s : System) (r : Region) : System := {s with calls := .gaveBack r :: s.calls}

end System

/-- The region that holds a block of `size` bytes from this source, found again from the
block and the size alone. -/
def Source.region? (source : Source) (block size : Nat) : Option Region :=
  match source.demand size with
  | .ok d => some ⟨block - d.guard, d.length, d.guard⟩
  | .error _ => none

namespace System

/-- Gets a block of `size` bytes from a source: its lowest address. -/
def allocate (s : System) (source : Source) (size : Nat) : Except Refusal (Nat × System) := do
  let demand ← source.demand size
  let (region, s) ← s.grant demand
  return (region.block, s)

/-- Gives a block back through the source it came from. -/
def deallocate (s : System) (source : Source) (block size : Nat) : System :=
  match source.region? block size with
  | some r => s.giveBack r
  | none => s

end System
end Fibers.Memory
