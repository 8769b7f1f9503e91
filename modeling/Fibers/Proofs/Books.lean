import Fibers.Proofs.Reach
import Fibers.Proofs.Report

/-! The books of a process.

Three things are recorded while fibers come and go: how many are alive on all threads together,
which regions of memory were granted and given back, and, in every tally, which sizes it handed out
and got back. All three are exact. Every region that came back was reserved until then, those that
are reserved lie apart, and they are the ones that a fiber or a script owns a stack in, each counted
once for every such stack. What a tally handed out and did not get back are the sizes of the stacks
from it that still have an owner. That holds after every edit, and so after every step. -/
namespace Fibers

namespace Word

theorem check_eq_some {n m : Nat} (h : check n = some m) : n = m := by
  unfold check at h
  split at h
  · exact Option.some.inj h
  · cases h

theorem le_nextMultiple {n unit m : Nat} (h : nextMultiple? n unit = some m) : n ≤ m := by
  unfold nextMultiple? add? at h
  split at h
  · exact Nat.le_of_eq (Option.some.inj h)
  · have := check_eq_some h
    omega

end Word

namespace Memory

/-- The region has room above its guard for a block of a size. -/
structure Region.Holds (r : Region) (start size : Nat) : Prop where
  block : r.block = start
  room : start + size ≤ r.base + r.length

theorem Source.covers {source : Source} {size : Nat} {d : Demand}
    (h : source.demand size = .ok d) : d.guard + size ≤ d.length := by
  unfold demand at h
  split at h
  · cases h
  cases source with
  | heap =>
    dsimp only at h
    split at h
    · cases h
      simp
    · cases h
  | guarded pages =>
    dsimp only at h
    split at h
    · next guard length hlengths =>
      cases h
      simp only [mappingLengths?, Option.bind_eq_bind, Option.bind_eq_some_iff, Option.pure_def,
        Option.some.injEq, Prod.mk.injEq] at hlengths
      obtain ⟨_, -, usable, husable, length, hlength, rfl, rfl⟩ := hlengths
      have := Word.check_eq_some hlength
      have := Word.le_nextMultiple husable
      dsimp only
      omega
    · cases h

theorem Source.demand_pos {source : Source} {size : Nat} {d : Demand}
    (h : source.demand size = .ok d) : 0 < size ∧ 0 < d.alignment := by
  unfold demand at h
  split at h
  · cases h
  next hsize =>
  refine ⟨Nat.pos_of_ne_zero hsize, ?_⟩
  cases source with
  | heap =>
    dsimp only at h
    split at h
    · cases h
      exact Nat.zero_lt_succ _
    · cases h
  | guarded pages =>
    dsimp only at h
    split at h
    · cases h
      exact Nat.zero_lt_succ _
    · cases h

theorem System.allocate_of_error {s : System} {source : Source} {size : Nat} {cause : Refusal}
    (h : source.demand size = .error cause) : s.allocate source size = .error cause := by
  rw [allocate, h]
  rfl

theorem System.allocate_of_ok {s : System} {source : Source} {size : Nat} {d : Demand}
    (h : source.demand size = .ok d) :
    s.allocate source size = (s.grant d).map fun granted => (granted.1.block, granted.2) := by
  rw [allocate, h]
  show (s.grant d).bind (fun granted => .ok (granted.1.block, granted.2)) = _
  cases s.grant d <;> rfl

/-- An allocation that succeeds puts a region for the demand where the placement says. -/
theorem System.allocate_places {s s' : System} {source : Source} {start size : Nat}
    (h : s.allocate source size = .ok (start, s')) : ∃ d, source.demand size = .ok d ∧
      start = (s.placement.region s.calls d).block ∧
      s' = {s with calls := .granted (s.placement.region s.calls d) :: s.calls} := by
  cases hd : source.demand size with
  | error cause =>
    rw [allocate_of_error hd] at h
    cases h
  | ok d =>
    rw [allocate_of_ok hd, grant] at h
    split at h <;> cases h
    exact ⟨d, rfl, rfl, rfl⟩

/-- The region is one that the system may grant for a block. -/
structure System.Grants (s : System) (source : Source) (start size : Nat) (r : Region) : Prop where
  found : source.region? start size = some r
  holds : r.Holds start size
  spans : r.Spans start
  apart : ∀ r' ∈ s.reserved, r.Apart r'
  fresh : s.placement.Fresh → ∀ r' ∈ granted s.calls, r.Apart r'

/-- A block that was allocated lies in a region of its own and finds it again. -/
theorem System.allocate_grants {s s' : System} {source : Source} {start size : Nat}
    (h : s.allocate source size = .ok (start, s')) : ∃ r, s.Grants source start size r ∧
      s' = {s with calls := .granted r :: s.calls} := by
  obtain ⟨d, hd, rfl, rfl⟩ := allocate_places h
  have hcovers := Source.covers hd
  obtain ⟨hsize, halignment⟩ := Source.demand_pos hd
  have hr := s.placement.honours s.calls d halignment
  refine ⟨_, ?_, rfl⟩
  generalize hregion : s.placement.region s.calls d = r at hr ⊢
  have hlength := hr.length
  have hguard := hr.guard
  exact {
    found := by simp [Source.region?, hd, Region.block, ← hlength, ← hguard]
    holds := ⟨rfl, by simp only [Region.block]; omega⟩
    spans := ⟨Nat.le_add_right .., by simp only [Region.block]; omega⟩
    apart := hregion ▸ s.placement.apart s.calls d halignment
    fresh := fun h => hregion ▸ h s.calls d halignment }

theorem System.deallocate_eq {s : System} {source : Source} {start size : Nat} {r : Region}
    (h : source.region? start size = some r) : s.deallocate source start size = s.giveBack r := by
  rw [deallocate, h]

theorem System.placement_deallocate {s : System} {source : Source} {start size : Nat} :
    (s.deallocate source start size).placement = s.placement := by
  unfold deallocate
  split <;> rfl

/-! ### Addresses that were used -/

/-- The address lies in a region that was granted, whether or not it came back. -/
def System.Used (s : System) (address : Nat) : Prop := ∃ r ∈ granted s.calls, r.Spans address

theorem System.Used.deallocate {s : System} {source : Source} {start size address : Nat}
    (h : s.Used address) : (s.deallocate source start size).Used address := by
  unfold System.deallocate
  split
  · exact h
  · exact h

/-- What is used stays so, and a block that is allocated is used from then on. It was not before,
where nothing is granted twice. -/
theorem System.allocate_uses {s s' : System} {source : Source} {start size : Nat}
    (h : s.allocate source size = .ok (start, s')) :
    ((∀ address, s.Used address → s'.Used address) ∧ s'.Used start) ∧
      s'.placement = s.placement ∧ (s.placement.Fresh → ¬s.Used start) := by
  obtain ⟨r, hr, rfl⟩ := allocate_grants h
  refine ⟨⟨fun address hused => ?_, r, List.mem_cons_self .., hr.spans⟩, rfl, fun hfresh => ?_⟩
  · obtain ⟨r', hr', hspans⟩ := hused
    exact ⟨r', List.mem_cons_of_mem _ hr', hspans⟩
  · rintro ⟨r', hr', hspans⟩
    exact hr.fresh hfresh r' hr' _ hr.spans hspans

/-! ### Order in memory -/

/-- What is reserved lies apart, and what came back had been granted and was reserved until then,
so that nothing comes back twice. -/
structure System.Tidy (s : System) : Prop where
  apart : s.reserved.Pairwise Region.Apart
  spans : ∀ r ∈ s.reserved, r.Spans r.block
  settled : (granted s.calls).Perm (givenBack s.calls ++ s.reserved)

namespace System.Tidy

variable {s : System} {source : Source} {start size : Nat} {r : Region}

theorem empty (placement : Placement) : Tidy {placement} where
  apart := .nil
  spans _ hr := nomatch hr
  settled := .nil

theorem grant (h : s.Tidy) (hr : s.Grants source start size r) :
    Tidy {s with calls := .granted r :: s.calls} where
  apart := .cons hr.apart h.apart
  spans r' hr' := by
    rcases List.mem_cons.mp hr' with rfl | hr'
    · rw [hr.holds.block]
      exact hr.spans
    · exact h.spans r' hr'
  settled := (h.settled.cons r).trans List.perm_middle.symm

theorem giveBack (h : s.Tidy) (hr : r ∈ s.reserved) : (s.giveBack r).Tidy where
  apart := h.apart.sublist List.erase_sublist
  spans r' hr' := h.spans r' (List.mem_of_mem_erase hr')
  settled := by
    have hmoves : (givenBack s.calls ++ s.reserved).Perm
        (r :: (givenBack s.calls ++ s.reserved.erase r)) :=
      ((List.perm_cons_erase hr).append_left _).trans List.perm_middle
    exact h.settled.trans hmoves

/-- No block of the regions reserved is that of two. -/
theorem nodup (h : s.Tidy) : (s.reserved.map Region.block).Nodup := by
  refine List.pairwise_map.mpr (h.apart.imp_of_mem fun hr hr' hapart hblock => ?_)
  exact hapart _ (h.spans _ hr) (hblock ▸ h.spans _ hr')

end System.Tidy
end Memory

namespace Thread

/-- The sum of a weight over the stacks of the thread: those of its fibers and those that its
scripts keep. -/
def stacksOf (w : Memory.Stack → Nat) (t : Thread) : Nat :=
  t.fibers.total (fun x => x.stack.elim 0 w) + t.kept.total w

/-- The region that a stack of the thread lies in. -/
def region? (t : Thread) (stack : Memory.Stack) : Option Memory.Region :=
  (stack.allocator.source? t.tallies).bind fun source => source.region? stack.block stack.size

/-- Whether a stack lies in a region, as a count. -/
def lies (t : Thread) (r : Memory.Region) (stack : Memory.Stack) : Nat :=
  if t.region? stack = some r then 1 else 0

/-- How many stacks of the thread lie in a region. -/
def stacksIn (r : Memory.Region) (t : Thread) : Nat := t.stacksOf (t.lies r)

/-- Whether a stack of a size came from a tally, as a count. -/
def owes (serial size : Nat) (stack : Memory.Stack) : Nat :=
  if stack.allocator = .tally serial ∧ stack.size = size then 1 else 0

/-- What every tally of the thread handed out is what it got back and what is still owned, with a
stack in hand that nobody owns at the moment. -/
def Tallied (hand : Option Memory.Stack) (t : Thread) : Prop :=
  ∀ serial tally, t.tallies[serial]? = some tally → ∀ size, tally.allocated.count size =
    tally.released.count size + t.stacksOf (owes serial size) + hand.elim 0 (owes serial size)

/-- How many fibers are alive. -/
def population (t : Thread) : Nat := t.fibers.total fun _ => 1

/-- The stack lies in a region with room for it. -/
def Houses (t : Thread) (stack : Memory.Stack) : Prop :=
  ∃ r, t.region? stack = some r ∧ r.Holds stack.block stack.size

/-- All stacks of the thread lie where there is room. -/
structure Housed (t : Thread) : Prop where
  fibers : ∀ f x stack, t.fibers.get? f = some x → x.stack = some stack → t.Houses stack
  kept : ∀ name stack, t.kept.get? name = some stack → t.Houses stack

theorem housed_start (serial : Nat) (program : List Op) : (start serial program).Housed where
  fibers _ _ _ h := nomatch h
  kept _ _ h := nomatch h

theorem tallied_start (serial : Nat) (program : List Op) : (start serial program).Tallied none :=
  fun _ _ h => nomatch h

/-- Fibers and kept stacks are the same, and every allocator has the source that it had. -/
structure Backs (t u : Thread) : Prop where
  fibers : u.fibers = t.fibers
  kept : u.kept = t.kept
  sources : ∀ allocator source, Memory.Allocator.source? t.tallies allocator = some source →
    allocator.source? u.tallies = some source

variable {t u : Thread} {stack : Memory.Stack} {r : Memory.Region} {hand : Option Memory.Stack}
  {f : Nat} {x y : Fiber} {name : String} {w : Memory.Stack → Nat}

/-! ### Sums over stacks -/

theorem stacksOf_setFiber (t : Thread) (w : Memory.Stack → Nat) (f : Nat) (y : Fiber) :
    (t.setFiber f y).stacksOf w + (t.fibers.get? f).elim 0 (fun x => x.stack.elim 0 w) =
      t.stacksOf w + y.stack.elim 0 w := by
  have := t.fibers.total_set (fun x => x.stack.elim 0 w) f y
  show (t.fibers.set f y).total _ + t.kept.total w + _ = t.fibers.total _ + t.kept.total w + _
  omega

/-- A fiber that keeps its stack keeps the sums. -/
theorem stacksOf_set (w : Memory.Stack → Nat) (hx : t.fibers.get? f = some x)
    (hstack : y.stack = x.stack) : (t.setFiber f y).stacksOf w = t.stacksOf w := by
  have := t.stacksOf_setFiber w f y
  rw [hx, Option.elim_some, hstack] at this
  omega

theorem stacksOf_bury (w : Memory.Stack → Nat) (hx : t.fibers.get? f = some x) :
    (t.bury f x).stacksOf w + x.stack.elim 0 w = t.stacksOf w := by
  have := t.fibers.total_erase (fun x => x.stack.elim 0 w) f
  rw [hx, Option.elim_some] at this
  show (t.fibers.erase f).total _ + t.kept.total w + _ = t.fibers.total _ + t.kept.total w
  omega

theorem stacksOf_keep (t : Thread) (w : Memory.Stack → Nat) (name : String)
    (stack : Memory.Stack) :
    ({t with kept := t.kept.set name stack} : Thread).stacksOf w + (t.kept.get? name).elim 0 w =
      t.stacksOf w + w stack := by
  have := t.kept.total_set w name stack
  show t.fibers.total _ + (t.kept.set name stack).total w + _ =
    t.fibers.total _ + t.kept.total w + _
  omega

theorem stacksOf_free (w : Memory.Stack → Nat) (hs : t.kept.get? name = some stack) :
    ({t with kept := t.kept.erase name} : Thread).stacksOf w + w stack = t.stacksOf w := by
  have := t.kept.total_erase w name
  rw [hs, Option.elim_some] at this
  show t.fibers.total _ + (t.kept.erase name).total w + _ = t.fibers.total _ + t.kept.total w
  omega

/-- Weights that agree on the stacks of the thread have the same sum. -/
theorem stacksOf_weight {w w' : Memory.Stack → Nat}
    (hfibers : ∀ f x stack, t.fibers.get? f = some x → x.stack = some stack → w stack = w' stack)
    (hkept : ∀ name stack, t.kept.get? name = some stack → w stack = w' stack) :
    t.stacksOf w = t.stacksOf w' := by
  unfold stacksOf
  congr 1
  · apply Table.total_weight
    intro f x hx
    cases hs : x.stack with
    | none => rfl
    | some stack => exact hfibers f x stack hx hs
  · exact Table.total_weight hkept

theorem stacksOf_zero (t : Thread) : t.stacksOf (fun _ => 0) = 0 := by
  have helim : (fun x : Fiber => x.stack.elim 0 fun _ => 0) = fun _ => 0 :=
    funext fun x => by cases x.stack <;> rfl
  simp [stacksOf, helim, Table.total]

theorem lies_eq (h : t.region? stack = some r) (r' : Memory.Region) :
    t.lies r' stack = [r].count r' := by
  simp [lies, h, List.count_singleton]

/-! ### Sources stay -/

theorem Beside.backs (h : t.Beside u) : t.Backs u :=
  ⟨h.fibers, h.kept, fun _ _ hs => by rwa [h.tallies]⟩

/-- A tally that records something passes requests on as before. -/
theorem backs_book (record : Memory.Tally → Nat → Memory.Tally)
    (hrecord : ∀ tally size, (record tally size).source = tally.source) (t : Thread)
    (stack : Memory.Stack) : t.Backs (t.book record stack) := by
  obtain ⟨block, size, allocator⟩ := stack
  cases allocator with
  | source _ => exact ⟨rfl, rfl, fun _ _ h => h⟩
  | tally serial =>
    refine ⟨rfl, rfl, fun allocator source h => ?_⟩
    cases allocator with
    | source _ => exact h
    | tally n =>
      obtain ⟨tally, htally, rfl⟩ := Option.map_eq_some_iff.mp h
      by_cases hn : serial = n <;> simp [book, Memory.Allocator.source?, htally, hn, hrecord]

/-- A new tally takes the place of none. -/
theorem source?_append {tallies : List Memory.Tally} {tally : Memory.Tally}
    {allocator : Memory.Allocator} {source : Memory.Source}
    (h : allocator.source? tallies = some source) :
    allocator.source? (tallies ++ [tally]) = some source := by
  cases allocator with
  | source _ => exact h
  | tally serial =>
    obtain ⟨old, hold, hsource⟩ := Option.map_eq_some_iff.mp h
    have hlt := (List.getElem?_eq_some_iff.mp hold).1
    simp [Memory.Allocator.source?, List.getElem?_append_left hlt, hold, hsource]

theorem Backs.region? (h : t.Backs u) (hr : t.region? stack = some r) :
    u.region? stack = some r := by
  obtain ⟨source, hsource, hr⟩ := Option.bind_eq_some_iff.mp hr
  exact Option.bind_eq_some_iff.mpr ⟨source, h.sources _ _ hsource, hr⟩

theorem Backs.houses (h : t.Backs u) (hs : t.Houses stack) : u.Houses stack := by
  obtain ⟨r, hr, hholds⟩ := hs
  exact ⟨r, h.region? hr, hholds⟩

theorem Backs.housed (h : t.Backs u) (ht : t.Housed) : u.Housed where
  fibers f x stack hx hs := h.houses (ht.fibers f x stack (h.fibers ▸ hx) hs)
  kept name stack hs := h.houses (ht.kept name stack (h.kept ▸ hs))

theorem Backs.lies (h : t.Backs u) (hs : t.Houses stack) (r : Memory.Region) :
    u.lies r stack = t.lies r stack := by
  obtain ⟨r', hr', -⟩ := hs
  rw [lies_eq hr', lies_eq (h.region? hr')]

theorem Backs.stacksOf (h : t.Backs u) (w : Memory.Stack → Nat) : u.stacksOf w = t.stacksOf w := by
  unfold Thread.stacksOf
  rw [h.fibers, h.kept]

theorem Backs.stacksIn (h : t.Backs u) (ht : t.Housed) (r : Memory.Region) :
    u.stacksIn r = t.stacksIn r := by
  unfold Thread.stacksIn
  rw [h.stacksOf]
  exact stacksOf_weight (fun f x stack hx hs => h.lies (ht.fibers f x stack hx hs) r)
    fun name stack hs => h.lies (ht.kept name stack hs) r

/-! ### Tallies -/

/-- Tallies are right as long as the sums over stacks are. -/
theorem Tallied.congr {hand' : Option Memory.Stack} (h : t.Tallied hand)
    (htallies : u.tallies = t.tallies) (hsum : ∀ w, u.stacksOf w + hand'.elim 0 w =
      t.stacksOf w + hand.elim 0 w) : u.Tallied hand' := by
  intro serial tally htally size
  have := h serial tally (htallies ▸ htally) size
  have := hsum (owes serial size)
  omega

/-- What a tally was before something was recorded in the tally of a stack. -/
theorem book_cases {record : Memory.Tally → Nat → Memory.Tally} {serial : Nat}
    {tally : Memory.Tally} (h : (t.book record stack).tallies[serial]? = some tally) :
    ∃ old, t.tallies[serial]? = some old ∧
      tally = if stack.allocator = .tally serial then record old stack.size else old := by
  unfold book at h
  cases hallocator : stack.allocator with
  | source source =>
    rw [hallocator] at h
    exact ⟨tally, h, by simp⟩
  | tally n =>
    simp only [hallocator, List.getElem?_modify] at h
    obtain ⟨old, hold, rfl⟩ := Option.map_eq_some_iff.mp h
    exact ⟨old, hold, by simp⟩

theorem Tallied.allocates (h : t.Tallied none) (stack : Memory.Stack) :
    (t.book Memory.Tally.recordAllocated stack).Tallied (some stack) := by
  intro serial tally htally size
  obtain ⟨old, hold, rfl⟩ := book_cases htally
  have hsum := (backs_book Memory.Tally.recordAllocated (fun _ _ => rfl) t stack : t.Backs
    (t.book Memory.Tally.recordAllocated stack)).stacksOf (owes serial size)
  have := h serial old hold size
  rw [hsum, Option.elim_some, owes]
  by_cases ha : stack.allocator = .tally serial <;>
    simp only [ha, true_and, false_and, if_true, if_false, Memory.Tally.recordAllocated,
      List.count_append, List.count_singleton, beq_iff_eq, Option.elim_none] at this ⊢ <;> omega

theorem Tallied.releases (h : t.Tallied (some stack)) :
    (t.book Memory.Tally.recordReleased stack).Tallied none := by
  intro serial tally htally size
  obtain ⟨old, hold, rfl⟩ := book_cases htally
  have hsum := (backs_book Memory.Tally.recordReleased (fun _ _ => rfl) t stack : t.Backs
    (t.book Memory.Tally.recordReleased stack)).stacksOf (owes serial size)
  have := h serial old hold size
  rw [hsum, Option.elim_none]
  rw [Option.elim_some, owes] at this
  by_cases ha : stack.allocator = .tally serial <;>
    simp only [ha, true_and, false_and, if_true, if_false, Memory.Tally.recordReleased,
      List.count_append, List.count_singleton, beq_iff_eq] at this ⊢ <;> omega

/-- Nothing is owned from a tally that is not there. -/
theorem Housed.unowed (h : t.Housed) {serial : Nat} (hserial : t.tallies[serial]? = none)
    (size : Nat) : t.stacksOf (owes serial size) = 0 := by
  have hunowed {stack : Memory.Stack} (hs : t.Houses stack) : owes serial size stack = 0 := by
    obtain ⟨r, hr, -⟩ := hs
    obtain ⟨source, hsource, -⟩ := Option.bind_eq_some_iff.mp hr
    rw [owes, if_neg]
    rintro ⟨ha, -⟩
    simp [ha, Memory.Allocator.source?, hserial] at hsource
  rw [← t.stacksOf_zero]
  exact stacksOf_weight (fun f x stack hx hs => hunowed (h.fibers f x stack hx hs))
    fun name stack hs => hunowed (h.kept name stack hs)

/-- A new tally has handed out nothing, and nothing is owned from it. -/
theorem Tallied.append (h : t.Tallied none) (ht : t.Housed) (name : String)
    (source : Memory.Source) (limit : Option Nat) :
    Tallied none {t with
      tallies := t.tallies ++ [{source, limit}]
      tallyNames := t.tallyNames.set name t.tallies.length} := by
  intro serial tally htally size
  show _ = _ + t.stacksOf (owes serial size) + 0
  by_cases hserial : serial < t.tallies.length
  · rw [List.getElem?_append_left hserial] at htally
    exact h serial tally htally size
  · rw [List.getElem?_append_right (by omega), List.getElem?_singleton] at htally
    split at htally
    · cases htally
      rw [ht.unowed (List.getElem?_eq_none (by omega))]
      rfl
    · cases htally

end Thread

namespace Process

/-- The books on stacks are right, with a number of stacks elsewhere that lie in each region, and
with a stack in hand that nobody owns at the moment. -/
structure Balanced (taken : Memory.Region → Nat) (hand : Option Memory.Stack) (p : Process) :
    Prop where
  below : ∀ f x, p.thread.fibers.get? f = some x → f < p.nextId
  reserved : ∀ r, p.memory.reserved.count r =
    p.thread.stacksIn r + hand.elim 0 (p.thread.lies r) + taken r
  tidy : p.memory.Tidy
  tallied : p.thread.Tallied hand
  housed : p.thread.Housed
  hand : ∀ stack, hand = some stack → p.thread.Houses stack

variable {p q : Process} {others : Nat} {taken : Memory.Region → Nat} {hand : Option Memory.Stack}
  {stack : Memory.Stack} {f : Nat} {x y : Fiber} {name : String} {kind : Kind}

/-- The books are kept in the thread, the memory and the count of ids. -/
theorem Balanced.congr (h : p.Balanced taken hand) (hid : q.nextId = p.nextId)
    (hmemory : q.memory = p.memory) (ht : q.thread = p.thread) : q.Balanced taken hand where
  below f x hx := hid ▸ h.below f x (ht ▸ hx)
  reserved r := by rw [hmemory, ht, h.reserved]
  tidy := hmemory ▸ h.tidy
  housed := ht ▸ h.housed
  hand stack hs := ht ▸ h.hand stack hs
  tallied := ht ▸ h.tallied

theorem Balanced.thread {t : Thread} (h : p.Balanced taken hand) (ht : p.thread.Backs t)
    (htallied : t.Tallied hand) : Balanced taken hand {p with thread := t} where
  below f x hx := h.below f x (ht.fibers ▸ hx)
  reserved r := by
    have := h.reserved r
    rw [ht.stacksIn h.housed]
    cases hs : hand with
    | none => rwa [hs] at this
    | some stack =>
      rw [hs, Option.elim_some] at this
      rwa [Option.elim_some, ht.lies (h.hand stack hs)]
  tidy := h.tidy
  housed := ht.housed h.housed
  hand stack hs := ht.houses (h.hand stack hs)
  tallied := htallied

/-- A stack comes to hand. -/
theorem Balanced.allocates (h : p.Balanced taken none) (hq : p.Allocates stack q) :
    q.Balanced taken (some stack) := by
  obtain @⟨source, memory, hsource, hmemory⟩ := hq
  obtain ⟨r, hr, rfl⟩ := Memory.System.allocate_grants hmemory
  have hbacks := p.thread.backs_book Memory.Tally.recordAllocated (fun _ _ => rfl) stack
  have hregion : Thread.region? _ stack = some r :=
    Option.bind_eq_some_iff.mpr ⟨_, hbacks.sources _ _ hsource, hr.found⟩
  exact {
    below := fun f x hx => h.below f x (hbacks.fibers ▸ hx)
    reserved := fun r' => by
      have := h.reserved r'
      rw [Option.elim_some, Thread.lies_eq hregion, hbacks.stacksIn h.housed]
      show (r :: p.memory.reserved).count r' = _
      simp only [Option.elim_none, List.count_cons, List.count_nil] at this ⊢
      omega
    tidy := h.tidy.grant hr
    housed := hbacks.housed h.housed
    hand := fun _ hs => by
      cases hs
      exact ⟨r, hregion, hr.holds⟩
    tallied := h.tallied.allocates stack }

/-- A stack that goes back takes its region along. -/
theorem reclaim_eq {r : Memory.Region} (h : p.thread.region? stack = some r) :
    p.reclaim stack = p.memory.giveBack r := by
  obtain ⟨source, hsource, hr⟩ := Option.bind_eq_some_iff.mp h
  rw [reclaim, hsource]
  exact Memory.System.deallocate_eq hr

/-- The stack in hand goes. -/
theorem Balanced.recover (h : p.Balanced taken (some stack)) :
    (p.recover stack).Balanced taken none := by
  obtain ⟨r, hregion, -⟩ := h.hand stack rfl
  have hbacks := p.thread.backs_book Memory.Tally.recordReleased (fun _ _ => rfl) stack
  have hmem : r ∈ p.memory.reserved := by
    rw [← List.count_pos_iff, h.reserved r, Option.elim_some, Thread.lies_eq hregion,
      List.count_singleton_self]
    omega
  exact {
    below := fun f x hx => h.below f x (hbacks.fibers ▸ hx)
    reserved := fun r' => by
      have := h.reserved r'
      rw [Option.elim_some, Thread.lies_eq hregion] at this
      show (p.reclaim stack).reserved.count r' = _
      rw [reclaim_eq hregion,
        show (p.memory.giveBack r).reserved = p.memory.reserved.erase r from rfl, List.count_erase]
      show _ = (p.thread.book _ stack).stacksIn r' + _ + _
      rw [hbacks.stacksIn h.housed]
      simp only [Option.elim_none, List.count_singleton] at this ⊢
      omega
    tidy := by
      show (p.reclaim stack).Tidy
      rw [reclaim_eq hregion]
      exact h.tidy.giveBack hmem
    housed := hbacks.housed h.housed
    hand := fun _ hs => nomatch hs
    tallied := h.tallied.releases }

/-- A fiber is changed and keeps its stack. -/
theorem Balanced.setFiber (h : p.Balanced taken hand) (hx : p.thread.fibers.get? f = some x)
    (hstack : y.stack = x.stack) :
    Balanced taken hand {p with thread := p.thread.setFiber f y} where
  below g z hz := by
    obtain ⟨rfl, -⟩ | ⟨-, hz⟩ := Table.set_cases hz
    · exact h.below g x hx
    · exact h.below g z hz
  reserved r := by
    rw [h.reserved r]
    congr 2
    exact (Thread.stacksOf_set _ hx hstack).symm
  tidy := h.tidy
  housed := by
    refine ⟨fun g z stack hz hs => ?_, h.housed.kept⟩
    obtain ⟨rfl, rfl⟩ | ⟨-, hz⟩ := Table.set_cases hz
    · exact h.housed.fibers g x stack hx (hstack ▸ hs)
    · exact h.housed.fibers g z stack hz hs
  hand := h.hand
  tallied := h.tallied.congr rfl fun w => by rw [Thread.stacksOf_set w hx hstack]

/-- A new fiber owns the stack in hand. -/
theorem Balanced.arrives (h : p.Balanced taken x.stack) : Balanced taken none {p with
    nextId := p.nextId + 1, thread := p.thread.setFiber p.nextId x} := by
  have hset (w : Memory.Stack → Nat) : (p.thread.setFiber p.nextId x).stacksOf w =
      p.thread.stacksOf w + x.stack.elim 0 w := by
    have := p.thread.stacksOf_setFiber w p.nextId x
    rwa [Thread.fresh_of_below h.below, Option.elim_none] at this
  exact {
    below := fun g z hz => by
      obtain ⟨rfl, -⟩ | ⟨-, hz⟩ := Table.set_cases hz
      · exact Nat.lt_succ_self _
      · exact Nat.lt_succ_of_lt (h.below g z hz)
    reserved := fun r => by
      show _ = (p.thread.setFiber p.nextId x).stacksOf (p.thread.lies r) + 0 + _
      rw [hset]
      exact h.reserved r
    tidy := h.tidy
    housed := by
      refine ⟨fun g z stack hz hs => ?_, h.housed.kept⟩
      obtain ⟨-, rfl⟩ | ⟨-, hz⟩ := Table.set_cases hz
      · exact h.hand stack hs
      · exact h.housed.fibers g z stack hz hs
    hand := fun _ hs => nomatch hs
    tallied := h.tallied.congr rfl hset }

/-- A fiber that goes leaves its stack in hand. -/
theorem Balanced.bury (h : p.Balanced taken none) (hx : p.thread.fibers.get? f = some x) :
    Balanced taken x.stack {p with thread := p.thread.bury f x} where
  below g z hz := h.below g z (Table.erase_cases hz).2
  reserved r := by
    rw [h.reserved r]
    exact congrArg (· + taken r) (Thread.stacksOf_bury (p.thread.lies r) hx).symm
  tidy := h.tidy
  housed := ⟨fun g z stack hz => h.housed.fibers g z stack (Table.erase_cases hz).2, h.housed.kept⟩
  hand stack hs := h.housed.fibers f x stack hx hs
  tallied := h.tallied.congr rfl fun w => Thread.stacksOf_bury w hx

/-- The stack in hand is kept under a name, and the one that it replaces comes to hand. -/
theorem Balanced.keeps (h : p.Balanced taken (some stack)) (name : String) :
    Balanced taken (p.thread.kept.get? name)
      {p with thread := {p.thread with kept := p.thread.kept.set name stack}} where
  below := h.below
  reserved r := by
    rw [h.reserved r]
    exact congrArg (· + taken r) (p.thread.stacksOf_keep (p.thread.lies r) name stack).symm
  tidy := h.tidy
  housed := by
    refine ⟨h.housed.fibers, fun other stack' hs => ?_⟩
    obtain ⟨-, rfl⟩ | ⟨-, hs⟩ := Table.set_cases hs
    · exact h.hand _ rfl
    · exact h.housed.kept other stack' hs
  hand stack' hs := h.housed.kept name stack' hs
  tallied := h.tallied.congr rfl fun w => p.thread.stacksOf_keep w name stack

/-- A stack that is no longer kept comes to hand. -/
theorem Balanced.frees (h : p.Balanced taken none) (hs : p.thread.kept.get? name = some stack) :
    Balanced taken (some stack)
      {p with thread := {p.thread with kept := p.thread.kept.erase name}} where
  below := h.below
  reserved r := by
    rw [h.reserved r]
    exact congrArg (· + taken r) (Thread.stacksOf_free (p.thread.lies r) hs).symm
  tidy := h.tidy
  housed := ⟨h.housed.fibers, fun other stack' hs' => h.housed.kept other stack'
    (Table.erase_cases hs').2⟩
  hand stack' hs' := by
    cases hs'
    exact h.housed.kept name stack hs
  tallied := h.tallied.congr rfl fun w => Thread.stacksOf_free w hs

/-- A new root has no stack. -/
theorem Balanced.root (h : p.Balanced taken none) : Balanced taken none {p with
    nextId := p.nextId + 1
    thread := (p.thread.addRoot p.nextId).setFiber p.nextId {Fiber.root with handles := 2}} := by
  have harrives : Balanced taken none {p with
      nextId := p.nextId + 1, thread := p.thread.addRoot p.nextId} := by
    have hroot : p.Balanced taken Fiber.root.stack := h
    exact hroot.arrives.thread ⟨rfl, rfl, fun _ _ hs => hs⟩ hroot.arrives.tallied
  exact harrives.setFiber (x := .root) (Thread.get?_addRoot.trans (if_pos rfl)) rfl

theorem Edit.balanced (h : p.Edit kind q) (hp : p.Balanced taken none) :
    q.Balanced taken none := by
  cases h with
  | thread ht =>
    exact hp.thread ht.backs (hp.tallied.congr ht.tallies fun w =>
      congrArg (· + _) (ht.backs.stacksOf w))
  | hub => exact hp.thread ⟨rfl, rfl, fun _ _ h => h⟩ hp.tallied
  | tally name source limit =>
    exact hp.thread ⟨rfl, rfl, fun _ _ h => Thread.source?_append h⟩
      (hp.tallied.append hp.housed name source limit)
  | fiber hx hstack => exact hp.setFiber hx hstack
  | root => exact hp.root.congr rfl rfl rfl
  | task callback scheduled _ _ hq =>
    exact (Balanced.arrives (x := .task _ _ callback scheduled) (hp.allocates hq)).congr rfl rfl rfl
  | destroyRoot hx hstack =>
    have hbury := hp.bury hx
    rw [hstack] at hbury
    exact hbury.congr rfl rfl rfl
  | destroyTask hx hstack =>
    have hbury := hp.bury hx
    rw [hstack] at hbury
    refine Balanced.recover ?_
    exact hbury.congr rfl rfl rfl
  | keep _ hq hname => exact hname ▸ (hp.allocates hq).keeps _
  | replace _ hq hname =>
    refine Balanced.recover ?_
    exact hname ▸ (hp.allocates hq).keeps _
  | free _ hname => exact (hp.frees hname).recover
  | _ => exact hp.congr rfl rfl rfl

theorem Edited.balanced (h : p.Edited kind q) (hp : p.Balanced taken none) :
    q.Balanced taken none := by
  induction h with
  | refl => exact hp
  | tail _ h ih => exact h.balanced ih

/-! ### How many are alive -/

/-- As many fibers are counted alive as there are on the thread and elsewhere. -/
def Peopled (others : Nat) (p : Process) : Prop := p.live = p.thread.population + others

theorem Peopled.congr (h : p.Peopled others) (hlive : q.live = p.live)
    (hfibers : q.thread.fibers = p.thread.fibers) : q.Peopled others := by
  unfold Peopled Thread.population at *
  rw [hlive, hfibers, h]

theorem Peopled.allocates (h : p.Peopled others) (hq : p.Allocates stack q) :
    q.Peopled others := by
  obtain ⟨-, -⟩ := hq
  exact h.congr rfl (Thread.backs_book Memory.Tally.recordAllocated (fun _ _ => rfl) _ stack).fibers

theorem Peopled.recover (h : p.Peopled others) (stack : Memory.Stack) :
    (p.recover stack).Peopled others :=
  h.congr rfl (Thread.backs_book Memory.Tally.recordReleased (fun _ _ => rfl) _ stack).fibers

theorem Peopled.arrives (h : p.Peopled others)
    (hbelow : ∀ f x, p.thread.fibers.get? f = some x → f < p.nextId) (x : Fiber) :
    Peopled others {p with live := p.live + 1, thread := p.thread.setFiber p.nextId x} := by
  have := p.thread.fibers.total_set (fun _ => 1) p.nextId x
  simp only [Thread.fresh_of_below hbelow, Option.elim_none, Peopled, Thread.population,
    Thread.setFiber] at *
  omega

theorem Peopled.bury (h : p.Peopled others) (hx : p.thread.fibers.get? f = some x) :
    Peopled others {p with live := p.live - 1, thread := p.thread.bury f x} := by
  have := p.thread.fibers.total_erase (fun _ => 1) f
  simp only [hx, Option.elim_some, Peopled, Thread.population, Thread.bury] at *
  omega

theorem Peopled.setFiber (h : p.Peopled others) (hx : p.thread.fibers.get? f = some x)
    (y : Fiber) : Peopled others {p with thread := p.thread.setFiber f y} := by
  have := p.thread.fibers.total_set (fun _ => 1) f y
  simp only [hx, Option.elim_some, Peopled, Thread.population, Thread.setFiber] at *
  omega

theorem Allocates.below (hq : p.Allocates stack q)
    (h : ∀ f x, p.thread.fibers.get? f = some x → f < p.nextId) :
    ∀ f x, q.thread.fibers.get? f = some x → f < q.nextId := by
  obtain ⟨-, -⟩ := hq
  intro f x hx
  rw [(Thread.backs_book Memory.Tally.recordAllocated (fun _ _ => rfl) p.thread stack).fibers] at hx
  exact h f x hx

theorem Edit.peopled (h : p.Edit kind q) (hp : p.Peopled others)
    (hbelow : ∀ f x, p.thread.fibers.get? f = some x → f < p.nextId) : q.Peopled others := by
  cases h with
  | thread ht => exact hp.congr rfl ht.fibers
  | fiber hx => exact hp.setFiber hx _
  | root =>
    have hroot := (hp.arrives hbelow .root).setFiber
      (show (p.thread.addRoot p.nextId).fibers.get? p.nextId = some .root from
        Thread.get?_addRoot.trans (if_pos rfl)) {Fiber.root with handles := 2}
    exact hroot.congr rfl rfl
  | task callback scheduled _ _ hq =>
    exact ((hp.allocates hq).arrives (hq.below hbelow) (.task _ _ callback scheduled)).congr rfl rfl
  | destroyRoot hx => exact (hp.bury hx).congr rfl rfl
  | destroyTask hx =>
    refine Peopled.recover ?_ _
    exact (hp.bury hx).congr rfl rfl
  | keep _ hq => exact (hp.allocates hq).congr rfl rfl
  | replace _ hq =>
    refine Peopled.recover ?_ _
    exact (hp.allocates hq).congr rfl rfl
  | free =>
    refine Peopled.recover ?_ _
    exact hp.congr rfl rfl
  | _ => exact hp.congr rfl rfl

theorem Edited.peopled (h : p.Edited kind q) (hp : p.Peopled others)
    (hbalanced : p.Balanced taken none) : q.Peopled others := by
  induction h with
  | refl => exact hp
  | tail h h' ih => exact h'.peopled ih (Edited.balanced h hbalanced).below

/-! ### All threads -/

/-- The threads that do not execute. -/
def otherThreads (p : Process) : List Thread := p.joining.map Joiner.thread ++ p.ended

/-- The books on stacks over all threads. -/
structure Stocked (p : Process) : Prop where
  reserved : ∀ r, p.memory.reserved.count r = p.sum (Thread.stacksIn r)
  tidy : p.memory.Tidy
  housed : ∀ t ∈ p.everyThread, t.Housed
  tallied : ∀ t ∈ p.everyThread, t.Tallied none

/-- The books over all threads. -/
structure Books (p : Process) : Prop extends Stocked p where
  live : p.live = p.sum Thread.population

theorem Stocked.balanced (h : p.Stocked)
    (hbelow : ∀ f x, p.thread.fibers.get? f = some x → f < p.nextId) :
    p.Balanced (fun r => (p.otherThreads.map (Thread.stacksIn r)).sum) none where
  below := hbelow
  reserved r := h.reserved r
  tidy := h.tidy
  tallied := h.tallied _ (List.mem_cons_self ..)
  housed := h.housed _ (List.mem_cons_self ..)
  hand _ hs := nomatch hs

theorem Stocked.of_thread (ht : q.Balanced
      (fun r => (q.otherThreads.map (Thread.stacksIn r)).sum) none)
    (hothers : ∀ t ∈ q.otherThreads, t.Housed ∧ t.Tallied none) : q.Stocked where
  reserved r := ht.reserved r
  tidy := ht.tidy
  housed := by
    intro t hmem
    rcases List.mem_cons.mp hmem with rfl | hmem
    · exact ht.housed
    · exact (hothers t hmem).1
  tallied := by
    intro t hmem
    rcases List.mem_cons.mp hmem with rfl | hmem
    · exact ht.tallied
    · exact (hothers t hmem).2

theorem Edited.otherThreads (h : p.Edited kind q) : q.otherThreads = p.otherThreads := by
  rw [Process.otherThreads, Process.otherThreads, h.spares.joining, h.spares.ended]

theorem Stocked.edited (h : p.Stocked)
    (hbelow : ∀ f x, p.thread.fibers.get? f = some x → f < p.nextId) (hq : p.Edited kind q) :
    q.Stocked := by
  apply Stocked.of_thread
  · rw [hq.otherThreads]
    exact hq.balanced (h.balanced hbelow)
  · rw [hq.otherThreads]
    exact fun t ht =>
      ⟨h.housed t (List.mem_cons_of_mem _ ht), h.tallied t (List.mem_cons_of_mem _ ht)⟩

/-- The books on stacks are kept in the threads and the memory. -/
theorem Stocked.congr (h : p.Stocked) (hmemory : q.memory = p.memory)
    (hthread : q.thread = p.thread) (hjoining : q.joining = p.joining)
    (hended : q.ended = p.ended) : q.Stocked := by
  have hall : q.everyThread = p.everyThread := by
    simp only [everyThread, threads, hthread, hjoining, hended]
  refine ⟨fun r => ?_, hmemory ▸ h.tidy, hall ▸ h.housed, hall ▸ h.tallied⟩
  rw [hmemory, h.reserved, sum, sum, hall]

theorem Books.edited (h : p.Books)
    (hbelow : ∀ f x, p.thread.fibers.get? f = some x → f < p.nextId) (hq : p.Edited kind q) :
    q.Books where
  toStocked := h.toStocked.edited hbelow hq
  live := by
    have hpeopled : p.Peopled (p.otherThreads.map Thread.population).sum := h.live
    rw [← hq.otherThreads] at hpeopled
    exact hq.peopled hpeopled (h.balanced hbelow)

theorem Books.congr (h : p.Books) (hlive : q.live = p.live) (hmemory : q.memory = p.memory)
    (hthread : q.thread = p.thread) (hjoining : q.joining = p.joining)
    (hended : q.ended = p.ended) : q.Books where
  toStocked := h.toStocked.congr hmemory hthread hjoining hended
  live := by
    have hall : q.everyThread = p.everyThread := by
      simp only [everyThread, threads, hthread, hjoining, hended]
    rw [hlive, h.live, sum, sum, hall]

theorem Books.report (h : p.Books) (event : Status → Event) : (p.report event).Books :=
  h.congr rfl rfl rfl rfl rfl

/-- The books say nothing of who is the root. -/
theorem Books.withdrawn (h : p.Books) : p.withdrawn.Books where
  reserved := h.reserved
  tidy := h.tidy
  live := h.live
  housed := by
    intro t ht
    rcases List.mem_cons.mp ht with rfl | ht
    · have hthread := h.housed p.thread (List.mem_cons_self ..)
      exact ⟨hthread.fibers, hthread.kept⟩
    · exact h.housed t (List.mem_cons_of_mem _ ht)
  tallied := by
    intro t ht
    rcases List.mem_cons.mp ht with rfl | ht
    · exact h.tallied p.thread (List.mem_cons_self ..)
    · exact h.tallied t (List.mem_cons_of_mem _ ht)

theorem Books.launch (h : p.Books) (label : Label) (serial n : Nat) (program : List Op) :
    Books {p with
      nextSerial := n
      thread := .start serial program
      joining := ⟨p.thread, label⟩ :: p.joining} where
  live := h.live.trans (Nat.zero_add _).symm
  reserved r := (h.reserved r).trans (Nat.zero_add _).symm
  tidy := h.tidy
  housed := by
    intro t ht
    rcases List.mem_cons.mp ht with rfl | ht
    · exact Thread.housed_start ..
    · exact h.housed t ht
  tallied := by
    intro t ht
    rcases List.mem_cons.mp ht with rfl | ht
    · exact Thread.tallied_start _ _
    · exact h.tallied t ht

theorem sum_join {joiner : Joiner} {rest : List Joiner} (w : Thread → Nat)
    (hj : p.joining = joiner :: rest) : sum w {p with
      thread := joiner.thread, joining := rest, ended := p.thread :: p.ended} = p.sum w := by
  simp only [sum, everyThread, threads, hj, List.map_cons, List.map_append, List.cons_append,
    List.sum_cons, List.sum_append_nat]
  omega

theorem Books.join {joiner : Joiner} {rest : List Joiner} (h : p.Books)
    (hj : p.joining = joiner :: rest) : Books {p with
      thread := joiner.thread, joining := rest, ended := p.thread :: p.ended} where
  live := h.live.trans (sum_join _ hj).symm
  reserved r := (h.reserved r).trans (sum_join _ hj).symm
  tidy := h.tidy
  housed t ht := h.housed t ((mem_everyThread_join hj rfl rfl rfl).mp ht)
  tallied t ht := h.tallied t ((mem_everyThread_join hj rfl rfl rfl).mp ht)

theorem Books.records (h : p.Books)
    (hbelow : ∀ f x, p.thread.fibers.get? f = some x → f < p.nextId) (hq : p.Records kind q) :
    q.Books := by
  cases hq with
  | nothing hq => exact h.edited hbelow hq
  | report hr _ hq =>
    subst hq
    exact (h.edited hbelow hr).report _

/-- Steps keep the books. -/
theorem Books.effects (h : p.Books)
    (hbelow : ∀ f x, p.thread.fibers.get? f = some x → f < p.nextId) (hq : p.Effects kind q) :
    q.Books := by
  cases hq with
  | edits hq => exact h.edited hbelow hq
  | records hq => exact h.records hbelow hq
  | ended _ hq => exact (h.report .ended).edited hbelow hq
  | launch hr hq =>
    subst hq
    exact (h.edited hbelow hr).launch ..
  | join _ hr hj _ hq =>
    subst hq
    exact ((h.withdrawn.edited hbelow hr).join hj).report _

/-! ### Memory is placed in one way -/

theorem Allocates.placement {stack : Memory.Stack} (h : p.Allocates stack q) :
    q.memory.placement = p.memory.placement := by
  obtain ⟨-, hmemory⟩ := h
  exact (Memory.System.allocate_uses hmemory).2.1

theorem recover_placement (p : Process) (stack : Memory.Stack) :
    (p.recover stack).memory.placement = p.memory.placement := by
  show (p.reclaim stack).placement = _
  unfold reclaim
  split
  · exact Memory.System.placement_deallocate
  · rfl

theorem Edit.placement (h : p.Edit kind q) : q.memory.placement = p.memory.placement := by
  cases h with
  | task _ _ _ _ hq => exact hq.placement
  | keep _ hq => exact hq.placement
  | replace _ hq => exact (recover_placement ..).trans hq.placement
  | destroyTask => exact recover_placement ..
  | free => exact recover_placement ..
  | _ => rfl

theorem Effects.placement (h : p.Effects kind q) : q.memory.placement = p.memory.placement :=
  h.keeps (P := fun q => q.memory.placement = p.memory.placement) rfl
    (fun hp hedit => hedit.placement.trans hp) (fun _ hp => hp) id (fun _ _ hp => hp)
    fun hp _ => hp

theorem Lawful.run_placement {n : Nat} (h : p.Lawful) (hrun : p.run n = (none, q)) :
    q.memory.placement = p.memory.placement := by
  have hboth : q.Lawful ∧ q.memory.placement = p.memory.placement := by
    refine run_induction (P := fun q => q.Lawful ∧ q.memory.placement = p.memory.placement)
      (fun q r ⟨hq, hsame⟩ hr => ?_) ⟨h, rfl⟩ hrun
    exact ⟨(hq.step hr).2, ((Act.step_effects hq.ordered).ok hr).placement.trans hsame⟩
  exact hboth.2

/-! ### Runs -/

/-- **Runs** keep the books. -/
theorem Books.run {n : Nat} (h : p.Books) (hp : p.Lawful) (hrun : p.run n = (none, q)) :
    q.Books := by
  have hboth : q.Lawful ∧ q.Books := by
    refine run_induction (P := fun p => p.Lawful ∧ p.Books) (fun p q ⟨hp, h⟩ hq => ?_) ⟨hp, h⟩ hrun
    exact ⟨(hp.step hq).2,
      h.effects hp.ordered.thread.below ((Act.step_effects hp.ordered).ok hq)⟩
  exact hboth.2

/-- What is left after a halt has its stacks on the books all the same. -/
theorem Books.breaks {halt : Halt} (h : p.Books)
    (hbelow : ∀ f x, p.thread.fibers.get? f = some x → f < p.nextId)
    (hq : p.Breaks kind halt q) : q.Stocked := by
  rcases hq.left with hq | ⟨r, hr, hq⟩
  · exact h.toStocked.edited hbelow hq
  · obtain ⟨-, -⟩ := hq
    exact (h.toStocked.edited hbelow hr).congr rfl rfl rfl rfl

theorem Books.parts {halt : Halt} (h : p.Books)
    (hbelow : ∀ f x, p.thread.fibers.get? f = some x → f < p.nextId)
    (hq : p.Parts kind halt q) : q.Stocked := by
  cases hq with
  | breaks hq => exact h.breaks hbelow hq
  | ended _ hq => exact (h.report .ended).breaks hbelow hq
  | withdrawn hq => exact h.withdrawn.breaks hbelow hq

end Process

theorem Scenario.books (s : Scenario) : s.process.Books where
  live := rfl
  reserved _ := rfl
  tidy := .empty s.placement
  housed t ht := by
    obtain rfl := List.mem_singleton.mp ht
    exact Thread.housed_start ..
  tallied t ht := by
    obtain rfl := List.mem_singleton.mp ht
    exact Thread.tallied_start _ _

theorem Scenario.Reaches.books {s : Scenario} {p : Process} (h : s.Reaches p) : p.Books :=
  h.elim fun _ hrun => s.books.run s.lawful hrun

end Fibers
