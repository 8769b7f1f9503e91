import Fibers.Proofs.Books
import Fibers.Proofs.Mirror

/-! Lengths of stack memory.

What a guarded source demands is computed in words, and each of the three steps notices when no word
holds its result. Together they refuse exactly the sizes whose whole length, computed exactly, no
word holds (`mappingLengths?_eq_some`). Wherever the system then puts what is demanded, the block of
a stack lies in it as it should, and its address and its size name that region again
(`Region.Honours.serves`). -/
namespace Fibers

theorem Word.check_eq_some_iff {n m : Nat} : check n = some m ↔ n = m ∧ n < 2 ^ 64 := by
  rw [check]
  split
  · next h => exact Option.some_inj.trans (and_iff_left h).symm
  · next h => exact ⟨nofun, fun hn => (h hn.2).elim⟩

namespace Memory

/-! ### Steps in words -/

/-- Rounding up to pages is exact. What is a multiple already needs no room. -/
theorem nextMultiple?_page {size usable : Nat} : Word.nextMultiple? size pageSize = some usable ↔
    4096 * (size ⌈/⌉ 4096) = usable ∧ (size = usable ∨ usable < 2 ^ 64) := by
  rw [Word.nextMultiple?, Nat.ceilDiv_eq_add_pred_div, pageSize]
  split
  · rw [Option.some_inj]
    omega
  · rw [Word.add?, Word.check_eq_some_iff]
    omega

/-- The lengths are exact, and no word overflows on the way unless none holds the whole. -/
theorem mappingLengths?_eq_some {pages size guard length : Nat} :
    mappingLengths? pages size = some (guard, length) ↔
      guard = pages * 4096 ∧ length = guard + 4096 * (size ⌈/⌉ 4096) ∧ length < 2 ^ 64 := by
  simp only [mappingLengths?, Option.bind_eq_bind, Option.bind_eq_some_iff, Option.pure_def,
    Option.some.injEq, Prod.mk.injEq, Word.mul?, Word.add?,
    Word.check_eq_some_iff, nextMultiple?_page]
  constructor
  · rintro ⟨guard', ⟨hguard, -⟩, usable, ⟨rfl, -⟩, length', ⟨hlength, hfits⟩, rfl, rfl⟩
    exact ⟨hguard.symm, hlength.symm, hlength ▸ hfits⟩
  · rintro ⟨hguard, hlength, hfits⟩
    have hparts : guard < 2 ^ 64 ∧ 4096 * (size ⌈/⌉ 4096) < 2 ^ 64 := by omega
    exact ⟨guard, ⟨hguard.symm, hguard ▸ hparts.1⟩, _, ⟨rfl, .inr hparts.2⟩, length,
      ⟨hlength.symm, hlength ▸ hfits⟩, rfl, rfl⟩

/-! ### Demands -/

/-- A mapping for `size` bytes above `pages` guard pages. -/
structure Demand.Maps (d : Demand) (pages size : Nat) : Prop where
  guard : d.guard = pages * 4096
  length : d.length = d.guard + 4096 * (size ⌈/⌉ 4096)
  alignment : d.alignment = 4096
  /-- Both lengths are whole pages. -/
  guard_dvd : 4096 ∣ d.guard
  length_dvd : 4096 ∣ d.length
  /-- The usable part has room for the block, and no page too many. -/
  enough : d.guard + size ≤ d.length
  tight : d.length < d.guard + size + 4096
  /-- Words hold what is computed on the way. -/
  guard_lt : pages * 4096 < 2 ^ 64
  usable_lt : 4096 * (size ⌈/⌉ 4096) < 2 ^ 64
  length_lt : d.length < 2 ^ 64

/-- The whole pages that a size takes. -/
theorem le_pages (size : Nat) :
    size ≤ 4096 * (size ⌈/⌉ 4096) ∧ 4096 * (size ⌈/⌉ 4096) < size + 4096 := by
  rw [Nat.ceilDiv_eq_add_pred_div]
  omega

theorem Demand.maps {d : Demand} {pages size : Nat} (hguard : d.guard = pages * 4096)
    (hlength : d.length = d.guard + 4096 * (size ⌈/⌉ 4096)) (halignment : d.alignment = 4096)
    (hfits : d.length < 2 ^ 64) : d.Maps pages size := by
  obtain ⟨henough, htight⟩ := le_pages size
  exact {
    guard := hguard
    length := hlength
    alignment := halignment
    guard_dvd := hguard ▸ Nat.dvd_mul_left ..
    length_dvd := hlength ▸ Nat.dvd_add (hguard ▸ Nat.dvd_mul_left ..) (Nat.dvd_mul_right ..)
    enough := by omega
    tight := by omega
    guard_lt := by omega
    usable_lt := by omega
    length_lt := hfits }

theorem demand_guarded {pages size : Nat} {d : Demand} :
    (Source.guarded pages).demand size = .ok d ↔ size ≠ 0 ∧ d.Maps pages size := by
  rw [Source.demand]
  split
  · next hzero => exact ⟨nofun, fun h => (h.1 hzero).elim⟩
  · next hpositive =>
    split
    · next guard length hlengths =>
      obtain ⟨hguard, hlength, hfits⟩ := mappingLengths?_eq_some.mp hlengths
      have hmaps : Demand.Maps ⟨length, pageSize, guard⟩ pages size :=
        Demand.maps hguard hlength rfl hfits
      rw [Except.ok.injEq]
      refine ⟨fun h => h ▸ ⟨hpositive, hmaps⟩, fun h => ?_⟩
      obtain ⟨length', alignment', guard'⟩ := d
      rw [Demand.mk.injEq]
      exact ⟨hlength.trans (hguard ▸ h.2.guard ▸ h.2.length.symm), h.2.alignment.symm,
        hguard.trans h.2.guard.symm⟩
    · next hnone =>
      refine ⟨nofun, fun ⟨_, h⟩ => ?_⟩
      rw [mappingLengths?_eq_some.mpr ⟨h.guard, h.length, h.length_lt⟩] at hnone
      cases hnone

theorem demand_heap {size : Nat} {d : Demand} : Source.heap.demand size = .ok d ↔
    size ≠ 0 ∧ size ≤ 2 ^ 63 - 16 ∧ d = ⟨size, 16, 0⟩ := by
  have hlimit : heapLimit = 2 ^ 63 - 16 := rfl
  rw [Source.demand]
  split
  · next hzero => exact ⟨nofun, fun h => (h.1 hzero).elim⟩
  · next hpositive =>
    split
    · next hfits =>
      rw [Except.ok.injEq]
      exact ⟨fun h => ⟨hpositive, hlimit ▸ hfits, h.symm⟩, fun h => h.2.2.symm⟩
    · next hfits => exact ⟨nofun, fun h => (hfits (hlimit ▸ h.2.1)).elim⟩

/-- A source refuses a size as one that makes no sense, and for nothing else. -/
theorem demand_error {source : Source} {size : Nat} {cause : Refusal}
    (h : source.demand size = .error cause) : cause = .invalidInput := by
  unfold Source.demand at h
  split at h
  · cases h
    rfl
  · cases source with
    | heap =>
      dsimp only at h
      split at h <;> cases h
      rfl
    | guarded pages =>
      dsimp only at h
      split at h <;> cases h
      rfl

theorem demand_refuses {source : Source} {size : Nat} :
    source.demand size = .error .invalidInput ↔ ∀ d, source.demand size ≠ .ok d := by
  constructor
  · intro h d hd
    rw [h] at hd
    cases hd
  · intro h
    cases hdemand : source.demand size with
    | ok d => exact (h d hdemand).elim
    | error cause => rw [demand_error hdemand]

/-! ### Regions -/

/-- The block of a stack lies in the region as it should. -/
structure Region.Serves (r : Region) (source : Source) (d : Demand) (size : Nat) : Prop where
  /-- All of the block can be written. -/
  writable : ∀ address, r.block ≤ address → address < r.block + size → r.Writable address
  /-- It ends with the region at the latest, and begins where the guard ends. -/
  inside : r.block + size ≤ r.base + d.length
  above : r.block = r.base + d.guard
  /-- It begins at a multiple of the stack alignment. -/
  aligned : 16 ∣ r.block
  /-- The block and its size name this region and no other. -/
  found : source.region? r.block size = some r

/-- Wherever the system puts what is demanded, it serves. -/
theorem Region.Honours.serves {r : Region} {source : Source} {d : Demand} {size : Nat}
    (hr : r.Honours d) (hd : source.demand size = .ok d) : r.Serves source d size := by
  have hcovers := Source.covers hd
  have habove : r.block = r.base + d.guard := by rw [block, hr.guard]
  exact {
    writable := fun address hlow hhigh => ⟨hlow, by rw [hr.length]; omega⟩
    inside := by omega
    above := habove
    aligned := by
      rw [habove]
      have halignment := hr.alignment
      cases source with
      | heap =>
        obtain ⟨-, -, rfl⟩ := demand_heap.mp hd
        exact halignment
      | guarded pages =>
        have hmaps := (demand_guarded.mp hd).2
        rw [hmaps.alignment] at halignment
        exact (show 16 ∣ 4096 by decide).trans (Nat.dvd_add halignment hmaps.guard_dvd)
    found := by
      rw [Source.region?, hd]
      dsimp only
      rw [habove, Nat.add_sub_cancel, ← hr.length, ← hr.guard] }

/-! ### Allocations -/

namespace System

variable {s s' : System} {source : Source} {size start : Nat}

/-- What was allocated lies in a region of its own, which goes back with it. -/
theorem allocate_honours (h : s.allocate source size = .ok (start, s')) :
    ∃ d r, source.demand size = .ok d ∧ r.Honours d ∧ r.block = start ∧
      s'.reserved = r :: s.reserved ∧
      (s'.deallocate source start size).reserved = s.reserved := by
  obtain ⟨d, hd, rfl, rfl⟩ := allocate_places h
  have hr := s.placement.honours s.calls d (Source.demand_pos hd).2
  refine ⟨d, _, hd, hr, rfl, rfl, ?_⟩
  rw [deallocate_eq (hr.serves hd).found]
  exact List.erase_cons_head ..

/-- The system refuses as senseless what the source refuses, and nothing else. -/
theorem allocate_refuses :
    s.allocate source size = .error .invalidInput ↔ source.demand size = .error .invalidInput := by
  cases hd : source.demand size with
  | error cause =>
    rw [allocate_of_error hd, Except.error.injEq, Except.error.injEq]
  | ok d =>
    rw [allocate_of_ok hd, grant]
    split <;> constructor <;> intro h <;> cases h

end System

/-! ### Stacks -/

/-- What comes of asking for a stack: what a source demands for it, where it lies, and what is
answered if there is none. -/
structure LengthsExact (pages size : Nat) : Prop where
  /-- Above guard pages it makes no sense if it is empty or no word holds the whole length. -/
  guarded : (Source.guarded pages).demand size = .error .invalidInput ↔
    size = 0 ∨ 2 ^ 64 ≤ pages * 4096 + 4096 * (size ⌈/⌉ 4096)
  /-- On the heap it makes no sense if it is empty or too long for half the words. -/
  heap : Source.heap.demand size = .error .invalidInput ↔ size = 0 ∨ 2 ^ 63 - 16 < size
  /-- No other refusal comes before the system is asked. -/
  refusals : ∀ (source : Source) cause, source.demand size = .error cause → cause = .invalidInput
  /-- Otherwise the mapping has whole pages: those of the guard, and those that the size takes. -/
  maps : ∀ d, (Source.guarded pages).demand size = .ok d → d.Maps pages size
  /-- The block lies in any region as it should that is what was demanded. -/
  serves : ∀ (source : Source) d (r : Region), source.demand size = .ok d → r.Honours d →
    r.Serves source d size
  /-- A stack that was allocated lies in such a region, and takes it along when it goes back. -/
  allocated : ∀ source allocator p stack q,
    Act.allocateFrom source size allocator p = .ok (.ok stack) q →
    ∃ d r, source.demand size = .ok d ∧ r.Honours d ∧ r.block = stack.block ∧ stack.size = size ∧
      q.memory.reserved = r :: p.memory.reserved ∧
      (q.memory.deallocate source stack.block stack.size).reserved = p.memory.reserved
  /-- What makes no sense is reported so, with the size. -/
  reported : ∀ source allocator p, Act.allocateFrom source size allocator p =
    .ok (.error (.stackAllocation size .invalidInput)) p ↔
    source.demand size = .error .invalidInput

/-- **Lengths are exact**: a size is refused exactly if its whole length is out of bounds, and a
block that was allocated lies above its guard, in what was reserved for it. -/
theorem lengths_exact (pages size : Nat) : LengthsExact pages size where
  guarded := by
    rw [demand_refuses]
    constructor
    · intro h
      by_contra hfits
      rw [not_or, Nat.not_le] at hfits
      exact h ⟨pages * 4096 + 4096 * (size ⌈/⌉ 4096), 4096, pages * 4096⟩
        (demand_guarded.mpr ⟨hfits.1, Demand.maps rfl rfl rfl hfits.2⟩)
    · intro hout d hd
      obtain ⟨hpositive, hmaps⟩ := demand_guarded.mp hd
      have hwhole := hmaps.length_lt
      rw [hmaps.length, hmaps.guard] at hwhole
      exact hout.elim hpositive (Nat.not_le.mpr hwhole)
  heap := by
    rw [demand_refuses]
    constructor
    · intro h
      by_contra hfits
      rw [not_or, Nat.not_lt] at hfits
      exact h _ (demand_heap.mpr ⟨hfits.1, hfits.2, rfl⟩)
    · intro hout d hd
      obtain ⟨hpositive, hfits, -⟩ := demand_heap.mp hd
      exact hout.elim hpositive (Nat.not_lt.mpr hfits)
  refusals source cause h := demand_error h
  maps d h := (demand_guarded.mp h).2
  serves source d r hd hr := hr.serves hd
  allocated source allocator p stack q h := by
    cases hgrants : p.memory.allocate source size with
    | error cause =>
      rw [Act.allocateFrom_error allocator hgrants] at h
      cases h
    | ok granted =>
      rw [Act.allocateFrom_ok allocator hgrants] at h
      cases h
      obtain ⟨d, r, hd, hr, hblock, hreserved⟩ := System.allocate_honours hgrants
      exact ⟨d, r, hd, hr, hblock, rfl, hreserved⟩
  reported source allocator p := by
    rw [← System.allocate_refuses]
    cases hgrants : p.memory.allocate source size with
    | error cause =>
      rw [Act.allocateFrom_error allocator hgrants]
      simp
    | ok granted =>
      rw [Act.allocateFrom_ok allocator hgrants]
      exact ⟨nofun, nofun⟩

end Memory
end Fibers
