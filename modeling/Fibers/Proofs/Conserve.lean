import Fibers.Proofs.Create
import Fibers.Proofs.Stay
import Fibers.Proofs.Trade
import Fibers.Proofs.Underway
import Fibers.Proofs.Alter

/-! Stacks are conserved.

Every step is a trade on the thread that executes: what came to it was allocated in that step,
and what went from it was given back. A fiber gives its stack back when it goes, and whoever owns
the same block afterwards has it from an allocation of his own. -/
namespace Fibers

namespace Thread

variable {t : Thread} {stack : Memory.Stack}

theorem count_sizesFrom (serial size : Nat) (l : List Memory.Stack) :
    (Memory.sizesFrom serial l).count size = (l.map (owes serial size)).sum := by
  induction l with
  | nil => rfl
  | cons stack l ih =>
    unfold Memory.sizesFrom at ih ⊢
    rw [List.map_cons, List.sum_cons, ← ih, List.filter_cons, owes]
    by_cases ha : stack.allocator = .tally serial
    · simp only [ha, decide_true, if_true, List.map_cons, List.count_cons, beq_iff_eq, true_and]
      omega
    · simp [ha]

/-- What a tally handed out it got back, or somebody owns it. -/
theorem Tallied.conserved (h : t.Tallied none) (ht : t.Housed) (serial : Nat) :
    (t.handed serial).Perm (t.returned serial ++ Memory.sizesFrom serial t.owned) := by
  rw [List.perm_iff_count]
  intro size
  rw [List.count_append, count_sizesFrom, sum_owned, handed, returned]
  cases htally : t.tallies[serial]? with
  | some tally => exact h serial tally htally size
  | none =>
    rw [ht.unowed htally]
    rfl

end Thread

namespace Process

/-- The thread that executed is left like this by a step. -/
inductive Ran (p q : Process) (u : Thread) : Prop
  | goes (hu : q.thread = u) (hothers : q.otherThreads = p.otherThreads)
  /-- It waits for a thread that it started. -/
  | waits {serial : Nat} {program : List Op} (hq : q.thread = .start serial program)
    (hothers : q.otherThreads = u :: p.otherThreads)
  /-- It ended, and the thread that waited for it goes on. -/
  | ended {joiner : Joiner} {rest : List Joiner} (hj : p.joining = joiner :: rest)
    (hq : q.thread = joiner.thread) (hj' : q.joining = rest) (he : q.ended = u :: p.ended)

theorem thread_mem (p : Process) : p.thread ∈ p.everyThread := List.mem_cons_self ..

variable {p q r : Process} {u t : Thread} {kind : Kind} {came went : List Memory.Stack}
  {taken : Memory.Region → Nat} {stack : Memory.Stack}

theorem Ran.cases (h : p.Ran q u) (ht : t ∈ q.everyThread) :
    t = u ∨ t ∈ p.otherThreads ∨ t.owned = [] := by
  cases h with
  | goes hu hothers =>
    rcases List.mem_cons.mp ht with rfl | ht
    · exact .inl hu
    · exact .inr (.inl (hothers ▸ ht))
  | waits hq hothers =>
    rcases List.mem_cons.mp ht with rfl | ht
    · rw [hq]
      exact .inr (.inr rfl)
    · have ht : t ∈ q.otherThreads := ht
      rw [hothers] at ht
      exact (List.mem_cons.mp ht).imp id .inl
  | @ended joiner rest hj hq hj' he =>
    simp only [otherThreads, hj, List.map_cons, List.mem_append, List.mem_cons]
    simp only [everyThread, threads, hq, hj', he, List.mem_append, List.mem_cons] at ht
    rcases ht with (rfl | ht) | rfl | ht
    · exact .inr (.inl (.inl (.inl rfl)))
    · exact .inr (.inl (.inl (.inr ht)))
    · exact .inl rfl
    · exact .inr (.inl (.inr ht))

theorem mem_of_ran (h : p.Ran q u) : u ∈ q.everyThread := by
  cases h with
  | goes hu => exact hu ▸ List.mem_cons_self ..
  | waits hq hothers =>
    have hu : u ∈ q.otherThreads := hothers ▸ List.mem_cons_self ..
    exact List.mem_cons_of_mem _ hu
  | ended hj hq hj' he => exact List.mem_append_right _ (he ▸ List.mem_cons_self ..)

/-! ### Steps trade -/

/-- What a step trades. -/
structure Deals (kind : Kind) (p q : Process) (u : Thread) (came went : List Memory.Stack) :
    Prop where
  ran : p.Ran q u
  trades : Thread.Trades came went p.memory p.thread q.memory u
  came : came ≠ [] → kind = .making ∨ kind = .keeping
  kept : u.kept = p.thread.kept ∨ kind = .keeping ∨ kind = .freeing

/-- Where only goes what goes. -/
theorem deals_of_trades (hran : p.Ran q u)
    (h : Thread.Trades [] went p.memory p.thread q.memory u)
    (hkept : u.kept = p.thread.kept ∨ kind = .freeing) : p.Deals kind q u [] went :=
  ⟨hran, h, fun hne => (hne rfl).elim, hkept.imp id .inr⟩

/-- A step that makes neither a task fiber nor a stack of the scripts' own lets nothing come. -/
theorem Effects.deals (h : p.Effects kind q) (hbooks : p.Books)
    (hbelow : ∀ f x, p.thread.fibers.get? f = some x → f < p.nextId) (hmaking : kind ≠ .making)
    (hkeeping : kind ≠ .keeping) : ∃ u went, p.Deals kind q u [] went := by
  have hbalanced := hbooks.balanced hbelow
  cases h with
  | edits h =>
    obtain ⟨went, htrades, hkept⟩ := h.trades hbalanced hmaking hkeeping
    exact ⟨_, went, deals_of_trades (.goes rfl h.otherThreads) htrades hkept⟩
  | records h =>
    cases h with
    | nothing h =>
      obtain ⟨went, htrades, hkept⟩ := h.trades hbalanced hmaking hkeeping
      exact ⟨_, went, deals_of_trades (.goes rfl h.otherThreads) htrades hkept⟩
    | report h _ hq =>
      subst hq
      obtain ⟨went, htrades, hkept⟩ := h.trades hbalanced hmaking hkeeping
      exact ⟨_, went, deals_of_trades (.goes rfl h.otherThreads) htrades hkept⟩
  | ended _ h =>
    obtain ⟨went, htrades, hkept⟩ :=
      h.trades ((hbooks.report .ended).balanced hbelow) hmaking hkeeping
    exact ⟨_, went, deals_of_trades (.goes rfl h.otherThreads) htrades hkept⟩
  | @launch r label program h hq =>
    subst hq
    obtain ⟨went, htrades, hkept⟩ := h.trades hbalanced hmaking hkeeping
    refine ⟨r.thread, went, deals_of_trades (.waits rfl ?_) htrades hkept⟩
    rw [← h.otherThreads]
    rfl
  | @join r joiner rest event _ h hj _ hq =>
    subst hq
    obtain ⟨went, htrades, hkept⟩ :=
      h.trades (hbooks.withdrawn.balanced hbelow) hmaking hkeeping
    have hwithdrawn : p.thread.Beside p.withdrawn.thread := ⟨rfl, rfl, rfl⟩
    refine ⟨r.thread, went, deals_of_trades ?_ (hwithdrawn.trades_of htrades) hkept⟩
    exact .ended (h.spares.joining.symm.trans hj) rfl rfl
      (congrArg (r.thread :: ·) h.spares.ended)

/-! ### Blocks -/

/-- What is reserved is where the stacks lie that somebody owns, each in a region of its own. -/
theorem Stocked.regions (h : p.Stocked) :
    (p.everyThread.flatMap fun t => t.owned.map t.region?).Perm (p.memory.reserved.map some) := by
  rw [List.perm_iff_count]
  intro region
  cases region with
  | none =>
    rw [List.count_eq_zero.mpr, List.count_eq_zero.mpr]
    · simp
    · intro hmem
      obtain ⟨t, ht, hmem⟩ := List.mem_flatMap.mp hmem
      obtain ⟨stack, hstack, hnone⟩ := List.mem_map.mp hmem
      obtain ⟨r, hr, -⟩ := (h.housed t ht).houses hstack
      simp [hr] at hnone
  | some r =>
    have hlies (t : Thread) : (t.owned.map t.region?).count (some r) = t.stacksIn r := by
      rw [Thread.count_map_eq_sum, Thread.sum_owned]
      rfl
    rw [List.count_map_of_injective _ _ (Option.some_injective _), h.reserved r,
      List.count_flatMap, sum]
    exact congrArg List.sum (List.map_congr_left fun t _ => hlies t)

/-- The blocks of all stacks that somebody owns. -/
def blocks (p : Process) : List Nat := p.everyThread.flatMap fun t => t.owned.map Memory.Stack.block

theorem mem_blocks (ht : t ∈ p.everyThread) (hs : stack ∈ t.owned) : stack.block ∈ p.blocks :=
  List.mem_flatMap.mpr ⟨t, ht, List.mem_map_of_mem hs⟩

theorem blocks_eq (p : Process) : p.blocks = p.thread.owned.map Memory.Stack.block ++
    p.otherThreads.flatMap fun t => t.owned.map Memory.Stack.block := rfl

/-- The blocks of stacks are the blocks of the regions that are reserved. -/
theorem Stocked.blocks (h : p.Stocked) :
    p.blocks.Perm (p.memory.reserved.map Memory.Region.block) := by
  have hblock {t : Thread} (ht : t ∈ p.everyThread) :
      t.owned.map (fun stack => (t.region? stack).map Memory.Region.block) =
        t.owned.map fun stack => some stack.block := by
    apply List.map_congr_left
    intro stack hstack
    obtain ⟨r, hr, hholds⟩ := (h.housed t ht).houses hstack
    rw [hr, Option.map_some, hholds.block]
  have hregions := h.regions.map (Option.map Memory.Region.block)
  simp only [List.map_flatMap, List.map_map, Function.comp_def, Option.map_some] at hregions
  rw [List.flatMap_congr fun t ht => hblock ht] at hregions
  refine (List.map_perm_map_iff (Option.some_injective Nat)).mp ?_
  simpa only [Process.blocks, List.map_flatMap, List.map_map, Function.comp_def] using hregions

theorem Stocked.nodup_blocks (h : p.Stocked) : p.blocks.Nodup :=
  h.blocks.nodup_iff.mpr h.tidy.nodup

/-- What is owned lies in what is reserved. -/
theorem Stocked.spans {block : Nat} (h : p.Stocked) (hmem : block ∈ p.blocks) :
    ∃ r ∈ p.memory.reserved, r.Spans block := by
  obtain ⟨r, hr, hblock⟩ := List.mem_map.mp (h.blocks.subset hmem)
  exact ⟨r, hr, hblock ▸ h.tidy.spans r hr⟩

/-- What comes has no block that was owned before. -/
theorem Stocked.came_ne {other : Memory.Stack} (h : p.Stocked)
    (hq : Thread.Trades came went p.memory p.thread q.memory u) (ht : t ∈ p.everyThread)
    (hs : stack ∈ t.owned) (hother : other ∈ came) : other.block ≠ stack.block := by
  obtain ⟨r, hr, hspans⟩ := h.spans (mem_blocks ht hs)
  exact fun hblock => hq.apart other hother r hr (hblock ▸ hspans)

/-- What comes lies apart from what is owned, so that no two of them are the same. -/
theorem Stocked.nodup_came (h : p.Stocked)
    (hq : Thread.Trades came went p.memory p.thread q.memory u) :
    ((p.thread.owned ++ came).map Memory.Stack.block).Nodup := by
  have hblocks := h.nodup_blocks
  rw [blocks_eq, List.nodup_append'] at hblocks
  rw [List.map_append, List.nodup_append']
  refine ⟨hblocks.1, hq.distinct, fun block howned hcame => ?_⟩
  obtain ⟨stack, hstack, rfl⟩ := List.mem_map.mp howned
  obtain ⟨other, hother, hblock⟩ := List.mem_map.mp hcame
  exact h.came_ne hq p.thread_mem hstack hother hblock

/-! ### What went is gone -/

/-- Of the calls since the one process, one has granted the block, if anybody owns it in the other
process. -/
def Anew (p : Process) (block : Nat) (q : Process) : Prop :=
  ∃ calls, q.memory.calls = calls ++ p.memory.calls ∧
    ∀ t ∈ q.everyThread, ∀ stack ∈ t.owned, stack.block = block →
      ∃ r, .granted r ∈ calls ∧ r.block = block

/-- What a stack has come with was granted. -/
theorem exists_grant {grants : List Memory.Region} (h : List.Forall₂ u.LiesIn came grants)
    (hs : stack ∈ came) : ∃ r ∈ grants, r.block = stack.block := by
  induction h with
  | nil => cases hs
  | cons hr _ ih =>
    rcases List.mem_cons.mp hs with rfl | hs
    · exact ⟨_, List.mem_cons_self .., hr.holds.block⟩
    · obtain ⟨r, hr, hblock⟩ := ih hs
      exact ⟨r, List.mem_cons_of_mem _ hr, hblock⟩

/-- Who owns a block after a trade owned it before, or has it from the trade. -/
theorem Anew.trade {block : Nat} (h : p.Anew block q) (hran : q.Ran r u)
    (hr : Thread.Trades came went q.memory q.thread r.memory u) : p.Anew block r := by
  obtain ⟨calls, hcalls, howners⟩ := h
  obtain ⟨grants, gives, hgrants, -, hafter⟩ := hr.calls
  let later : List Memory.Call := (gives.map .gaveBack).reverse ++ (grants.map .granted).reverse
  have hlater : r.memory.calls = later ++ calls ++ p.memory.calls := by
    rw [hafter]
    simp [later, Memory.System.called, hcalls]
  refine ⟨later ++ calls, hlater, fun t ht stack hstack hblock => ?_⟩
  have hbefore (t : Thread) (ht : t ∈ q.everyThread) (hstack : stack ∈ t.owned) :
      ∃ region, .granted region ∈ later ++ calls ∧ region.block = block := by
    obtain ⟨region, hregion, hregion'⟩ := howners t ht stack hstack hblock
    exact ⟨region, List.mem_append_right _ hregion, hregion'⟩
  rcases hran.cases ht with rfl | hother | hnone
  · have hmem := hr.owned.symm.subset (List.mem_append_right _ hstack)
    rcases List.mem_append.mp hmem with howned | hcame
    · exact hbefore _ q.thread_mem howned
    · obtain ⟨region, hregion, hregion'⟩ := exists_grant hgrants hcame
      refine ⟨region, List.mem_append_left _ ?_, hregion'.trans hblock⟩
      exact List.mem_append_right _ (List.mem_reverse.mpr (List.mem_map_of_mem hregion))
  · exact hbefore t (List.mem_cons_of_mem _ hother) hstack
  · rw [hnone] at hstack
    cases hstack

/-- What went belongs to nobody then. -/
theorem Stocked.went_free (h : p.Stocked) (hran : p.Ran q u)
    (hq : Thread.Trades came went p.memory p.thread q.memory u) (hs : stack ∈ went) :
    ∀ t ∈ q.everyThread, ∀ other ∈ t.owned, other.block ≠ stack.block := by
  have hsides := List.mem_append.mp (hq.owned.symm.subset (List.mem_append_left u.owned hs))
  intro t ht other hother
  rcases hran.cases ht with rfl | hmem | hnone
  · have hnodup := (hq.owned.map Memory.Stack.block).nodup_iff.mp (h.nodup_came hq)
    rw [List.map_append, List.nodup_append'] at hnodup
    exact fun hblock => hnodup.2.2 (List.mem_map_of_mem hs)
      (List.mem_map.mpr ⟨other, hother, hblock⟩)
  · rcases hsides with howned | hcame
    · have hnodup := h.nodup_blocks
      rw [blocks_eq, List.nodup_append'] at hnodup
      exact fun hblock => hnodup.2.2 (List.mem_map_of_mem howned)
        (List.mem_flatMap.mpr ⟨t, hmem, List.mem_map.mpr ⟨other, hother, hblock⟩⟩)
    · exact (h.came_ne hq (List.mem_cons_of_mem _ hmem) hother hcame).symm
  · rw [hnone] at hother
    cases hother

theorem anew_of_free {block : Nat}
    (h : ∀ t ∈ p.everyThread, ∀ stack ∈ t.owned, stack.block ≠ block) : p.Anew block p :=
  ⟨[], rfl, fun t ht stack hs hblock => (h t ht stack hs hblock).elim⟩

/-! ### What comes -/

/-- A fiber was made on the stack that came. -/
structure Bears (p : Process) (label : Label) (size : Nat) (supply : Option Supply) (q : Process)
    (stack : Memory.Stack) : Prop where
  size : stack.size = max (p.requested size) 16384
  allocator : p.thread.supplier? (supply.getD (.source .heap)) = some stack.allocator
  fiber : ∃ x, q.thread.fibers.get? p.nextId = some x ∧ x.stack = some stack
  answers : q.answers = (label, .created p.nextId .ready stack.size) :: p.answers

/-- The scripts keep the stack that came. -/
structure Stores (p : Process) (label : Label) (name : String) (size : Nat) (supply : Supply)
    (q : Process) (stack : Memory.Stack) : Prop where
  size : stack.size = size
  allocator : p.thread.supplier? supply = some stack.allocator
  kept : q.thread.kept.get? name = some stack
  answers : q.answers = (label, .stack stack) :: p.answers

theorem deals_of_beside (h : p.thread.Beside q.thread) (hmemory : q.memory = p.memory)
    (hothers : q.otherThreads = p.otherThreads) : p.Deals kind q q.thread [] [] :=
  ⟨.goes rfl hothers, trades_of_beside h hmemory, fun h => (h rfl).elim, .inl h.kept⟩

/-- A task fiber is made on one stack, or none is. -/
theorem Creates.deals {label : Label} {s : String} {script : Script} {size : Nat}
    {scheduled : Bool} {supply : Option Supply}
    (h : p.Creates label s script size scheduled supply q) (hp : p.Balanced taken none)
    (hq : q.Ordered) : ∃ came went, p.Deals .making q q.thread came went ∧
      (came = [] ∧ q.answers = (label, .absent) :: p.answers ∨
        ∃ stack, came = [stack] ∧ p.Bears label size supply q stack) := by
  cases h with
  | absent he =>
    subst he
    exact ⟨[], [], deals_of_beside ⟨rfl, rfl, rfl⟩ rfl rfl, .inl ⟨rfl, rfl⟩⟩
  | @made callback allocator stack p₁ p₂ _ hallocator hmakes h hs he =>
    subst he
    obtain ⟨x, hx, -, hstack⟩ := hmakes.fiber
    obtain @⟨p₀, r, hsizes, hr, rfl, hsize⟩ := hmakes
    have hleast : Memory.minStackSize ≤ stack.size := hsize ▸ Nat.le_max_right ..
    have hedited : p.Edited .making (r.addTask stack callback scheduled) :=
      (hsizes.edited _).trans (Edit.task callback scheduled rfl hleast hr).edited
    have hmade : p.Trades [stack] [] (r.addTask stack callback scheduled) := by
      obtain ⟨stackSize, trace, rfl⟩ := hsizes.same
      exact addTask_trades hr callback scheduled hp.below
    obtain ⟨went, htrades, hkept⟩ := h.plain_trades (hedited.balanced hp)
    obtain ⟨y, hy⟩ := hq.slot_alive hs
    obtain ⟨x', hx', hyx⟩ := h.fiber_before hy
    cases hx.symm.trans hx'
    refine ⟨_, _, ⟨.goes rfl ?_, Thread.Trades.trans hmade htrades, fun _ => .inl rfl, .inl ?_⟩,
      .inr ⟨stack, rfl, hsize, hallocator, ⟨y, hy, hyx.trans hstack⟩, ?_⟩⟩
    · exact h.otherThreads.trans hedited.otherThreads
    · refine hkept.trans ?_
      obtain ⟨stackSize, trace, rfl⟩ := hsizes.same
      exact hr.backs.kept
    · exact congrArg (_ :: ·) (h.answers.trans hedited.answers)

/-- One stack comes to be kept, or nothing happens. -/
theorem Supplies.deals {label : Label} {name : String} {size : Nat} {supply : Supply}
    (h : p.Supplies label name size supply q) (hp : p.Balanced taken none) :
    ∃ came went, p.Deals .keeping q q.thread came went ∧
      (came = [] ∧ p.Unaltered q ∧ (q.answers = (label, .absent) :: p.answers ∨
          ∃ error, q.answers = (label, .failed error) :: p.answers) ∨
        ∃ stack, came = [stack] ∧ p.Stores label name size supply q stack) := by
  cases h with
  | absent he =>
    subst he
    exact ⟨[], [], deals_of_beside ⟨rfl, rfl, rfl⟩ rfl rfl,
      .inl ⟨rfl, ⟨rfl, rfl, rfl, ⟨rfl, rfl, rfl⟩, rfl, rfl⟩, .inl rfl⟩⟩
  | @failed error he =>
    subst he
    exact ⟨[], [], deals_of_beside ⟨rfl, rfl, rfl⟩ rfl rfl,
      .inl ⟨rfl, ⟨rfl, rfl, rfl, ⟨rfl, rfl, rfl⟩, rfl, rfl⟩, .inr ⟨error, rfl⟩⟩⟩
  | @made stack p₁ p₂ hallocator hsize hr h he =>
    subst he
    have hself : (p₁.thread.kept.set name stack).get? name = some stack :=
      (Table.get?_set ..).trans (if_pos rfl)
    cases h with
    | fresh hname he =>
      subst he
      have hedit : p.Edit .keeping _ := .keep rfl hr hname
      exact ⟨[stack], [], ⟨.goes rfl hedit.edited.otherThreads, keep_trades hr hname,
        fun _ => .inr rfl, .inr (.inl rfl)⟩,
        .inr ⟨stack, rfl, hsize, hallocator, hself, congrArg (_ :: ·) hedit.edited.answers⟩⟩
    | @replaced other hname h =>
      have hedit : p.Edit .keeping _ := .replace rfl hr hname
      have hreplace := replace_trades hr hname ((hp.allocates hr).housed.kept _ _ hname)
      obtain ⟨went, htrades, hkept⟩ := h.plain_trades (hedit.balanced hp)
      refine ⟨_, _, ⟨.goes rfl ?_, Thread.Trades.trans hreplace htrades, fun _ => .inr rfl,
        .inr (.inl rfl)⟩, .inr ⟨stack, rfl, hsize, hallocator, ?_, ?_⟩⟩
      · exact h.otherThreads.trans hedit.edited.otherThreads
      · show p₂.thread.kept.get? name = some stack
        rw [hkept, show (recover _ other).thread.kept = _ from
          (Thread.backs_book Memory.Tally.recordReleased (fun _ _ => rfl) _ other).kept]
        exact hself
      · exact congrArg (_ :: ·) (h.answers.trans hedit.edited.answers)

/-! ### Steps -/

/-- A step that makes a task fiber makes it on one stack. -/
def MakesFiber (p q : Process) (came : List Memory.Stack) : Prop :=
  ∀ op frame rest s script size scheduled supply, p.thread.Performs op frame rest →
    op.action = .create s script size scheduled supply →
    came = [] ∧ q.answers = (op.label, .absent) :: p.answers ∨
      ∃ stack, came = [stack] ∧ p.Bears op.label size supply q stack

/-- A step that makes a stack for the scripts makes one, or nothing happens. -/
def MakesStack (p q : Process) (came : List Memory.Stack) : Prop :=
  ∀ op frame rest name size supply, p.thread.Performs op frame rest →
    op.action = .makeStack name size supply →
    came = [] ∧ p.Unaltered q ∧ (q.answers = (op.label, .absent) :: p.answers ∨
        ∃ error, q.answers = (op.label, .failed error) :: p.answers) ∨
      ∃ stack, came = [stack] ∧ p.Stores op.label name size supply q stack

theorem Deals.of_takeUp {frame : Frame} {rest : List Task}
    (h : (p.takeUp frame rest).Deals kind q u came went) : p.Deals kind q u came went where
  ran := by
    cases h.ran with
    | goes hu hothers => exact .goes hu hothers
    | waits hq hothers => exact .waits hq hothers
    | ended hj hq hj' he => exact .ended hj hq hj' he
  trades := by
    have hbeside : p.thread.Beside (p.takeUp frame rest).thread := ⟨rfl, rfl, rfl⟩
    exact hbeside.trades_of h.trades
  came := h.came
  kept := h.kept

theorem Bears.owned {label : Label} {size : Nat} {supply : Option Supply}
    (h : p.Bears label size supply q stack) : stack ∈ q.thread.owned := by
  obtain ⟨x, hx, hs⟩ := h.fiber
  exact Thread.mem_owned.mpr ⟨_, .fiber hx hs⟩

theorem Stores.owned {label : Label} {name : String} {size : Nat} {supply : Supply}
    (h : p.Stores label name size supply q stack) : stack ∈ q.thread.owned :=
  Thread.mem_owned.mpr ⟨_, .kept h.kept⟩

theorem makesFiber_of_kind (h : p.kind ≠ .making) : p.MakesFiber q came := by
  intro op frame rest s script size scheduled supply hop ha
  exact (h (by rw [kind_of_performs hop, ha]; rfl)).elim

theorem makesStack_of_kind (h : p.kind ≠ .keeping) : p.MakesStack q came := by
  intro op frame rest name size supply hop ha
  exact (h (by rw [kind_of_performs hop, ha]; rfl)).elim

/-- Where one stack came or none, what came is that one. -/
theorem of_mem_came {nothing : Prop} {one : Memory.Stack → Prop}
    (h : came = [] ∧ nothing ∨ ∃ stack, came = [stack] ∧ one stack) (hmem : stack ∈ came) :
    one stack := by
  rcases h with ⟨rfl, -⟩ | ⟨other, rfl, hone⟩
  · cases hmem
  · exact List.mem_singleton.mp hmem ▸ hone

/-- What every step trades. What came is owned. -/
theorem Lawful.step_deals (h : p.Lawful) (hbooks : p.Books) (hq : Act.step p = .ok () q) :
    ∃ u came went, p.Deals p.kind q u came went ∧ (∀ stack ∈ came, stack ∈ u.owned) ∧
      p.MakesFiber q came ∧ p.MakesStack q came := by
  have hordered := h.ordered
  have hbalanced := hbooks.balanced hordered.thread.below
  have htake (frame : Frame) (rest : List Task) : Balanced _ none (p.takeUp frame rest) :=
    Edited.balanced (show p.Edited .plain _ from Act.edited_become _) hbalanced
  by_cases hmaking : p.kind = .making
  · obtain ⟨op, frame, rest, s, script, size, scheduled, supply, hop, ha⟩ :=
      performs_of_making hmaking
    have hcreates := (Act.step_create_leads hop ha).ok hq
    obtain ⟨came, went, hdeals, hcame⟩ :=
      hcreates.deals (htake frame rest) (h.step hq).2.ordered
    refine ⟨_, came, went, hmaking ▸ hdeals.of_takeUp,
      fun stack hmem => (of_mem_came hcame hmem).owned, ?_,
      makesStack_of_kind fun hkeeping => nomatch hmaking.symm.trans hkeeping⟩
    intro op' frame' rest' s' script' size' scheduled' supply' hop' ha'
    cases hop.performs?_eq.symm.trans hop'.performs?_eq
    cases ha.symm.trans ha'
    rcases hcame with hnone | ⟨stack, hone, hbears⟩
    · exact .inl hnone
    · exact .inr ⟨stack, hone, hbears.size, hbears.allocator, hbears.fiber, hbears.answers⟩
  by_cases hkeeping : p.kind = .keeping
  · obtain ⟨op, frame, rest, name, size, supply, hop, ha⟩ := performs_of_keeping hkeeping
    have hsupplies := (Act.step_makeStack_leads hop ha).ok hq
    obtain ⟨came, went, hdeals, hcame⟩ := hsupplies.deals (htake frame rest)
    refine ⟨_, came, went, hkeeping ▸ hdeals.of_takeUp,
      fun stack hmem => (of_mem_came hcame hmem).owned, makesFiber_of_kind hmaking, ?_⟩
    intro op' frame' rest' name' size' supply' hop' ha'
    cases hop.performs?_eq.symm.trans hop'.performs?_eq
    cases ha.symm.trans ha'
    rcases hcame with ⟨hnone, hsame, hanswers⟩ | ⟨stack, hone, hstores⟩
    · exact .inl ⟨hnone, ⟨hsame.nextId, hsame.live, hsame.memory, ⟨hsame.beside.fibers,
        hsame.beside.kept, hsame.beside.tallies⟩, hsame.joining, hsame.ended⟩, hanswers⟩
    · exact .inr ⟨stack, hone, hstores.size, hstores.allocator, hstores.kept, hstores.answers⟩
  obtain ⟨u, went, hdeals⟩ := ((Act.step_effects hordered).ok hq).deals hbooks
    hordered.thread.below hmaking hkeeping
  exact ⟨u, [], went, hdeals, (fun _ hmem => nomatch hmem), makesFiber_of_kind hmaking,
    makesStack_of_kind hkeeping⟩

/-- A fiber is still there on its own stack, wherever that is. -/
theorem Lawful.has_stack {f : Nat} {x y : Fiber} (h : p.Lawful) (hq : p.Turn q)
    (hx : p.thread.fibers.get? f = some x) (hy : q.Has f y) : y.stack = x.stack := by
  rcases hq.descends h.ordered hy with ⟨x', hx', hstack, -, -⟩ | hborn
  · obtain ⟨rfl, -⟩ := h.has_unique hx' (has_here hx)
    exact hstack
  · exact absurd hborn.low (Nat.not_le_of_gt (h.ordered.thread.below f x hx))

/-- A fiber gives its stack back when it goes, and has terminated by then. -/
theorem Lawful.went_fiber {f : Nat} {x : Fiber} (h : p.Lawful) (hstocked : p.Stocked)
    (hq : Act.step p = .ok () q) (hran : p.Ran q u)
    (htrades : Thread.Trades came went p.memory p.thread q.memory u)
    (hx : p.thread.fibers.get? f = some x) (hs : x.stack = some stack) :
    (stack ∈ went ↔ ∀ y, ¬q.Has f y) ∧ (stack ∈ went → x.state = .term) := by
  obtain ⟨hturn, hlawful⟩ := h.step hq
  have hnodup := (hstocked.nodup_came htrades).of_map
  have hgone (hwent : stack ∈ went) (y : Fiber) : ¬q.Has f y := by
    intro hy
    have hstack := (h.has_stack hturn hx hy).trans hs
    obtain ⟨t, ht, hy⟩ := hy
    exact hstocked.went_free hran htrades hwent t ht stack
      (Thread.mem_owned.mpr ⟨_, .fiber hy hstack⟩) rfl
  refine ⟨⟨hgone, fun hnone => ?_⟩, fun hwent => ?_⟩
  · refine (htrades.went_iff hnodup (.fiber hx hs)).mpr fun howns => ?_
    cases howns with
    | fiber hy => exact hnone _ ⟨u, mem_of_ran hran, hy⟩
  · by_contra hterm
    obtain ⟨y, hy⟩ := hturn.stays (has_here hx) (by simp [hs]) hterm
    exact hgone hwent y hy

/-- What a step does to stacks: those in `came` were allocated in it and those in `went` were
given back, and the thread that executed is `u` then. -/
structure Settles (p q : Process) (u : Thread) (came went : List Memory.Stack) : Prop where
  ran : p.Ran q u
  trades : Thread.Trades came went p.memory p.thread q.memory u
  there : ∀ stack ∈ came, stack ∈ u.owned
  /-- Stacks come to a fiber that is made, or to be kept, and nowhere else. -/
  sources : came ≠ [] → p.kind = .making ∨ p.kind = .keeping
  fibers : p.MakesFiber q came
  kept : p.MakesStack q came
  /-- What goes had an owner, which has it no more. -/
  owned : ∀ stack ∈ went, stack ∈ p.thread.owned
  went_iff : ∀ o stack, p.thread.Owns o stack → (stack ∈ went ↔ ¬u.Owns o stack)
  /-- The stack of a fiber goes exactly if the fiber does, which has terminated. -/
  fiber : ∀ f x stack, p.thread.fibers.get? f = some x → x.stack = some stack →
    (stack ∈ went ↔ ∀ y, ¬q.Has f y) ∧ (stack ∈ went → x.state = .term)
  /-- What went belongs to nobody from then on, unless the block is granted once more. -/
  spent : ∀ stack ∈ went, ∀ n r, q.run n = (none, r) → q.Anew stack.block r
  /-- A switch or a reset allocates nothing and gives nothing back. -/
  quiet : ∀ op frame rest, p.thread.Performs op frame rest → op.action.Transfers →
    came = [] ∧ went = [] ∧ q.memory = p.memory
  /-- Nor does the end of a callback. -/
  finish : ∀ f outcome, p.thread.running.code = .returned (.callback f) outcome →
    came = [] ∧ went = [] ∧ q.memory = p.memory

/-- Where nothing comes and all fibers stay, nothing happens to stacks. -/
theorem Deals.quiet (h : p.Deals kind q u came went) (hk : kind = .usual) (hq : p.Stays q)
    (howned : ∀ stack ∈ went, stack ∈ p.thread.owned)
    (hiff : ∀ o stack, p.thread.Owns o stack → (stack ∈ went ↔ ¬u.Owns o stack))
    (hfiber : ∀ f x stack, p.thread.fibers.get? f = some x → x.stack = some stack →
      (stack ∈ went ↔ ∀ y, ¬q.Has f y) ∧ (stack ∈ went → x.state = .term)) :
    came = [] ∧ went = [] ∧ q.memory = p.memory := by
  subst hk
  have hcame : came = [] := by
    by_contra hne
    rcases h.came hne with hk | hk <;> cases hk
  have hkept : u.kept = p.thread.kept := by
    rcases h.kept with hkept | hk | hk
    · exact hkept
    · cases hk
    · cases hk
  have hwent : went = [] := by
    rw [List.eq_nil_iff_forall_not_mem]
    intro stack hmem
    obtain ⟨o, ho⟩ := Thread.mem_owned.mp (howned stack hmem)
    cases ho with
    | fiber hx hs =>
      obtain ⟨y, hy, -⟩ := hq _ _ hx
      exact (hfiber _ _ _ hx hs).1.mp hmem y (has_here hy)
    | kept hs => exact (hiff _ _ (.kept hs)).mp hmem (.kept (hkept ▸ hs))
  subst hcame hwent
  exact ⟨rfl, rfl, h.trades.idle⟩

end Process

/-- What belongs to nobody any more belongs to nobody until it is granted once more. -/
theorem Scenario.Reaches.anew_run {s : Scenario} {p q : Process} {block n : Nat}
    (h : s.Reaches p) (hfree : ∀ t ∈ p.everyThread, ∀ stack ∈ t.owned, stack.block ≠ block)
    (hrun : p.run n = (none, q)) : p.Anew block q := by
  have hboth : s.Reaches q ∧ p.Anew block q := by
    refine Process.run_induction (P := fun q => s.Reaches q ∧ p.Anew block q) (fun q r hq hr => ?_)
      ⟨h, Process.anew_of_free hfree⟩ hrun
    obtain ⟨u, came, went, hdeals, -⟩ := hq.1.lawful.step_deals hq.1.books hr
    exact ⟨hq.1.step hr, hq.2.trade hdeals.ran hdeals.trades⟩
  exact hboth.2

open Process in
theorem Scenario.Reaches.settles {s : Scenario} {p q : Process} (h : s.Reaches p)
    (hq : Act.step p = .ok () q) : ∃ u came went, p.Settles q u came went := by
  have hlawful := h.lawful
  have hstocked := h.books.toStocked
  obtain ⟨u, came, went, hdeals, hthere, hfibers, hstacks⟩ := hlawful.step_deals h.books hq
  have htrades := hdeals.trades
  have hnodup := (hstocked.nodup_came htrades).of_map
  have howned : ∀ stack ∈ went, stack ∈ p.thread.owned := by
    intro stack hwent
    rcases List.mem_append.mp (htrades.owned.symm.subset (List.mem_append_left _ hwent)) with
      howned | hcame
    · exact howned
    · exact ((List.nodup_append'.mp (htrades.owned.nodup_iff.mp hnodup)).2.2 hwent
        (hthere stack hcame)).elim
  have hiff (o : Owner) (stack : Memory.Stack) (ho : p.thread.Owns o stack) :=
    htrades.went_iff hnodup ho
  have hfiber (f : Nat) (x : Fiber) (stack : Memory.Stack) (hx : p.thread.fibers.get? f = some x)
      (hs : x.stack = some stack) :=
    hlawful.went_fiber hstocked hq hdeals.ran htrades hx hs
  have hquiet (hk : p.kind = .usual) (hstays : p.Stays q) :=
    hdeals.quiet hk hstays howned hiff hfiber
  refine ⟨u, came, went, hdeals.ran, htrades, hthere, hdeals.came, hfibers, hstacks, howned, hiff,
    hfiber, ?_, ?_, ?_⟩
  · intro stack hwent n r hrun
    exact (h.step hq).anew_run (hstocked.went_free hdeals.ran htrades hwent) hrun
  · intro op frame rest hop ha
    refine hquiet ?_ ((Act.step_transfers_stays hlawful.ordered hop ha).ok hq)
    rw [kind_of_performs hop]
    cases haction : op.action <;> rw [haction] at ha
    all_goals first | rfl | exact ha.elim
  · intro f outcome hcode
    refine hquiet ?_ ((Act.step_finish_stays hlawful.ordered hcode).ok hq)
    rw [kind, Thread.performs?, hcode]
    rfl

/-- What there is to say of the stacks of a process. -/
structure Process.Conserves (p : Process) : Prop where
  /-- The sizes that a tally handed out are those that it got back and those that are owned. -/
  tallies : ∀ t ∈ p.everyThread, ∀ serial,
    (t.handed serial).Perm (t.returned serial ++ Memory.sizesFrom serial t.owned)
  /-- What is reserved is where the stacks lie that somebody owns. -/
  regions : (p.everyThread.flatMap fun t => t.owned.map t.region?).Perm
    (p.memory.reserved.map some)
  /-- No two owners share a block, nor does one reach into the other's region. -/
  blocks : p.blocks.Nodup
  apart : p.memory.reserved.Pairwise Memory.Region.Apart
  /-- Every region that was granted came back once or is reserved still, and nothing came back that
  was not reserved. -/
  settled : (Memory.granted p.memory.calls).Perm
    (Memory.givenBack p.memory.calls ++ p.memory.reserved)
  step : ∀ q, Act.step p = .ok () q → ∃ u came went, p.Settles q u came went
  /-- Where there is no stack for a fiber, there is no fiber and no id, and nothing goes. -/
  starved : ∀ error q, Act.step p = .error (.aborted (.noStack error)) q → p.Unaltered q
  /-- The tallies are right also where the process halts. -/
  halted : ∀ halt q, Act.step p = .error halt q → ∀ t ∈ q.everyThread, ∀ serial,
    (t.handed serial).Perm (t.returned serial ++ Memory.sizesFrom serial t.owned)

/-- **Stacks are conserved.** In every process that a scenario comes to, and where it halts, a
tally has handed out what it got back and what is still owned. Every step trades stacks: one comes
with a fiber that is made or under a name of the scripts, of the size that was asked for, and one
goes with its owner and comes back only by another allocation. Switches and resets trade nothing.
All this holds wherever the system places memory. -/
theorem Scenario.stacks_conserved {s : Scenario} {p : Process} (h : s.Reaches p) :
    p.Conserves := by
  have hordered := h.lawful.ordered
  have hstocked := h.books.toStocked
  exact {
    tallies := fun t ht serial => (hstocked.tallied t ht).conserved (hstocked.housed t ht) serial
    regions := hstocked.regions
    blocks := hstocked.nodup_blocks
    apart := hstocked.tidy.apart
    settled := hstocked.tidy.settled
    step := fun q hq => h.settles hq
    starved := fun error q hq => Act.step_starved hordered hq
    halted := fun halt q hq t ht serial => by
      have hleft := h.books.parts hordered.thread.below ((Act.step_effects hordered).error hq)
      exact (hleft.tallied t ht).conserved (hleft.housed t ht) serial }

/-- A fiber gets its stack from a tally, above one that the scripts keep, and another fiber after
it. The system uses again what comes back. -/
def Scenario.borrow : Scenario where
  placement := .stacked
  program := [
    .on "tally" "t" (.makeTally "t" .heap none),
    .on "stack" "m" (.makeStack "m" 64 (.tally "t")),
    .on "new" "f" (.create "f" (.inline []) 20000 false (some (.tally "t"))),
    .on "resume" "f" (.resume "f"),
    .on "drop" "f" (.drop "f"),
    .on "new" "g" (.create "g" (.inline []) 100 false (some (.tally "t")))]

/-- The program is about to drop the fiber, which has terminated. -/
def Process.borrowing : Process := (Scenario.borrow.process.run 10).2

open Process in
/-- The stack of the fiber goes with it, and the tally has the other one still out. The next fiber
has the same block, from a call of its own. -/
theorem borrow_stacks_conserved : Scenario.borrow.Reaches borrowing ∧
    borrowing.thread.handed 0 = [64, 20000] ∧
    [64, 20000].Perm (Memory.sizesFrom 0 borrowing.thread.owned) ∧
    ∃ q u came went stack, Act.step borrowing = .ok () q ∧ borrowing.Settles q u came went ∧
      borrowing.thread.Owns (.fiber 0) stack ∧ stack ∈ went ∧
      ∃ r calls region, q.run 1 = (none, r) ∧ r.thread.handed 0 = [64, 20000, 16384] ∧
        r.memory.calls = calls ++ q.memory.calls ∧ .granted region ∈ calls ∧
        region.block = stack.block := by
  obtain ⟨p, hb, hp, hhanded, hreturned, hrun, hgone, hstack, hnext, hlater, hagain⟩ :
      ∃ p, p = borrowing ∧ Scenario.borrow.Reaches p ∧ p.thread.handed 0 = [64, 20000] ∧
        p.thread.returned 0 = [] ∧ (p.run 1).1 = none ∧
        (p.run 1).2.everyThread.all (fun t => (t.fibers.get? 0).isNone) = true ∧
        (p.thread.fibers.get? 0).bind Fiber.stack = some ⟨65600, 20000, .tally 0⟩ ∧
        ((p.run 1).2.run 1).1 = none ∧
        ((p.run 1).2.run 1).2.thread.handed 0 = [64, 20000, 16384] ∧
        (((p.run 1).2.run 1).2.thread.fibers.get? 2).bind Fiber.stack =
          some ⟨65600, 16384, .tally 0⟩ :=
    ⟨borrowing, rfl, Scenario.reaches_run (by decide +kernel), by decide +kernel,
      by decide +kernel, by decide +kernel, by decide +kernel, by decide +kernel,
      by decide +kernel, by decide +kernel, by decide +kernel⟩
  -- Nothing below may evaluate the process.
  rw [← hb]
  have hconserves := Scenario.stacks_conserved hp
  have htallies := hconserves.tallies _ p.thread_mem 0
  rw [hhanded, hreturned] at htallies
  have hq := step_of_run hrun
  obtain ⟨x, hx, hs⟩ := Option.bind_eq_some_iff.mp hstack
  obtain ⟨u, came, went, hsettles⟩ := hconserves.step _ hq
  have hwent : (⟨65600, 20000, .tally 0⟩ : Memory.Stack) ∈ went := by
    refine (hsettles.fiber 0 x _ hx hs).1.mpr fun y hy => ?_
    obtain ⟨t, ht, hy⟩ := hy
    have hnone := List.all_eq_true.mp hgone t ht
    simp [hy] at hnone
  obtain ⟨calls, hcalls, howners⟩ := hsettles.spent _ hwent 1 _ (Prod.ext hnext rfl)
  obtain ⟨y, hy, hsame⟩ := Option.bind_eq_some_iff.mp hagain
  obtain ⟨region, hregion, hblock⟩ := howners _ (thread_mem _) _
    (Thread.mem_owned.mpr ⟨_, .fiber hy hsame⟩) rfl
  exact ⟨hp, hhanded, htallies, _, u, came, went, _, hq, hsettles, .fiber hx hs, hwent,
    _, calls, region, Prod.ext hnext rfl, hlater, hcalls, hregion, hblock⟩

end Fibers
