import Fibers.Proofs.Books

/-! Stacks that come and go.

A stack belongs to a fiber, or to a name under which the scripts keep it. `Trades` lists the
stacks that came to the owners of a thread and those that went from them, in order: the system is
called once for each of them, to grant its region or to take it back; a tally hands out the sizes of
the first and gets back the sizes of the second, and nothing else happens to tallies or to memory.
What comes lies apart from all that was reserved before. Every edit is such a trade. -/
namespace Fibers

namespace Memory

/-- The sizes of the stacks that came from a tally. -/
def sizesFrom (serial : Nat) (l : List Stack) : List Nat :=
  (l.filter (·.allocator = .tally serial)).map Stack.size

theorem sizesFrom_append (serial : Nat) (l l' : List Stack) :
    sizesFrom serial (l ++ l') = sizesFrom serial l ++ sizesFrom serial l' := by
  rw [sizesFrom, List.filter_append, List.map_append]
  rfl

/-- The system once it has granted some regions and then got some back. -/
def System.called (s : System) (grants gives : List Region) : System :=
  {s with calls := (gives.map .gaveBack).reverse ++ ((grants.map .granted).reverse ++ s.calls)}

theorem System.called_called (s : System) (grants gives gives' : List Region) :
    (s.called grants gives).called [] gives' = s.called grants (gives ++ gives') := by
  simp [called]

end Memory

/-- What a stack belongs to. -/
inductive Owner
  | fiber (id : Nat)
  | name (name : String)
  deriving DecidableEq

namespace Thread

/-- The stacks of a thread. -/
def owned (t : Thread) : List Memory.Stack :=
  t.fibers.values.filterMap Fiber.stack ++ t.kept.values

inductive Owns (t : Thread) : Owner → Memory.Stack → Prop
  | fiber {f : Nat} {x : Fiber} {stack : Memory.Stack} (hx : t.fibers.get? f = some x)
    (hstack : x.stack = some stack) : Owns t (.fiber f) stack
  | kept {name : String} {stack : Memory.Stack} (h : t.kept.get? name = some stack) :
    Owns t (.name name) stack

/-- The sizes that a tally handed out, in order. -/
def handed (t : Thread) (serial : Nat) : List Nat := t.tallies[serial]?.elim [] (·.allocated)

/-- The sizes that a tally got back, in order. -/
def returned (t : Thread) (serial : Nat) : List Nat := t.tallies[serial]?.elim [] (·.released)

/-- The stack lies in the region, which has room for it, and names it. -/
structure LiesIn (t : Thread) (stack : Memory.Stack) (r : Memory.Region) : Prop where
  found : t.region? stack = some r
  holds : r.Holds stack.block stack.size

/-- Every allocator has the source that it had. -/
def KeepsSources (t u : Thread) : Prop :=
  ∀ allocator source, Memory.Allocator.source? t.tallies allocator = some source →
    allocator.source? u.tallies = some source

/-- Some stacks came and some went. -/
structure Trades (came went : List Memory.Stack) (before : Memory.System) (t : Thread)
    (after : Memory.System) (u : Thread) : Prop where
  owned : (t.owned ++ came).Perm (went ++ u.owned)
  handed : ∀ serial, u.handed serial = t.handed serial ++ Memory.sizesFrom serial came
  returned : ∀ serial, u.returned serial = t.returned serial ++ Memory.sizesFrom serial went
  /-- The system was called once for each of them, to grant what came and to take back what
  went, and for nothing else. -/
  calls : ∃ grants gives, List.Forall₂ u.LiesIn came grants ∧ List.Forall₂ u.LiesIn went gives ∧
    after = before.called grants gives
  sources : t.KeepsSources u
  /-- What came lies in nothing that was reserved before. -/
  apart : ∀ stack ∈ came, ∀ r ∈ before.reserved, ¬r.Spans stack.block
  distinct : (came.map Memory.Stack.block).Nodup
  /-- A fiber keeps its stack as long as it lives, and so does a name. -/
  fibers : ∀ f y, u.fibers.get? f = some y → (∃ x, t.fibers.get? f = some x ∧ y.stack = x.stack) ∨
    ∀ stack, y.stack = some stack → stack ∈ came
  kept : ∀ name stack, u.kept.get? name = some stack →
    t.kept.get? name = some stack ∨ stack ∈ came

variable {t u v : Thread} {came went went' : List Memory.Stack}
  {before middle after : Memory.System} {stack : Memory.Stack} {r : Memory.Region} {f : Nat}
  {x y : Fiber} {name : String}

theorem LiesIn.mono (h : t.LiesIn stack r) (hu : t.KeepsSources u) : u.LiesIn stack r where
  found := by
    obtain ⟨source, hsource, hr⟩ := Option.bind_eq_some_iff.mp h.found
    exact Option.bind_eq_some_iff.mpr ⟨source, hu _ _ hsource, hr⟩
  holds := h.holds

/-- Then some more went. -/
theorem Trades.trans (h : Trades came went before t middle u)
    (h' : Trades [] went' middle u after v) :
    Trades came (went ++ went') before t after v where
  owned := by
    have howned := h'.owned
    rw [List.append_nil] at howned
    calc t.owned ++ came
      List.Perm _ (went ++ u.owned) := h.owned
      List.Perm _ (went ++ (went' ++ v.owned)) := howned.append_left _
      _ = went ++ went' ++ v.owned := (List.append_assoc ..).symm
  handed serial := by
    rw [h'.handed, h.handed]
    exact List.append_nil _
  returned serial := by
    rw [h'.returned, h.returned, Memory.sizesFrom_append, List.append_assoc]
  calls := by
    obtain ⟨grants, gives, hgrants, hgives, hmiddle⟩ := h.calls
    obtain ⟨grants', gives', hnone, hgives', hafter⟩ := h'.calls
    cases hnone
    refine ⟨grants, gives ++ gives', hgrants.imp fun _ _ hr => hr.mono h'.sources,
      List.rel_append (hgives.imp fun _ _ hr => hr.mono h'.sources) hgives', ?_⟩
    rw [hafter, hmiddle, Memory.System.called_called]
  sources allocator source hs := h'.sources allocator source (h.sources allocator source hs)
  apart := h.apart
  distinct := h.distinct
  fibers f z hz := by
    rcases h'.fibers f z hz with ⟨y, hy, hyz⟩ | hcame
    · rcases h.fibers f y hy with ⟨x, hx, hxy⟩ | hcame
      · exact .inl ⟨x, hx, hyz.trans hxy⟩
      · exact .inr fun stack hs => hcame stack (hyz ▸ hs)
    · exact .inr fun stack hs => nomatch hcame stack hs
  kept name stack hs := by
    rcases h'.kept name stack hs with hs | hcame
    · exact h.kept name stack hs
    · cases hcame

/-- Where nothing came or went, nothing happened to memory. -/
theorem Trades.idle (h : Trades [] [] before t after u) : after = before := by
  obtain ⟨grants, gives, hgrants, hgives, hafter⟩ := h.calls
  cases hgrants
  cases hgives
  exact hafter

/-! ### What is owned -/

theorem mem_owned : stack ∈ t.owned ↔ ∃ o, t.Owns o stack := by
  simp only [owned, List.mem_append, List.mem_filterMap, Table.values, List.mem_map, Prod.exists]
  constructor
  · rintro (⟨x, ⟨f, x', hx, rfl⟩, hstack⟩ | ⟨name, stack', hs, rfl⟩)
    · exact ⟨_, .fiber (Table.mem_entries.mp hx) hstack⟩
    · exact ⟨_, .kept (Table.mem_entries.mp hs)⟩
  · rintro ⟨o, ho⟩
    cases ho with
    | fiber hx hstack => exact .inl ⟨_, ⟨_, _, Table.mem_entries.mpr hx, rfl⟩, hstack⟩
    | kept hs => exact .inr ⟨_, _, Table.mem_entries.mpr hs, rfl⟩

theorem sum_owned (t : Thread) (w : Memory.Stack → Nat) : (t.owned.map w).sum = t.stacksOf w := by
  have hfilter (l : List Fiber) : ((l.filterMap Fiber.stack).map w).sum =
      (l.map fun x => x.stack.elim 0 w).sum := by
    induction l with
    | nil => rfl
    | cons x l ih => cases hs : x.stack <;> simp [hs, ih]
  rw [owned, List.map_append, List.sum_append_nat, hfilter]
  rfl

theorem count_map_eq_sum {β : Type} [DecidableEq β] [BEq β] [LawfulBEq β]
    (g : Memory.Stack → β) (l : List Memory.Stack) (b : β) :
    (l.map g).count b = (l.map fun stack => if g stack = b then 1 else 0).sum := by
  induction l with
  | nil => rfl
  | cons stack l ih =>
    rw [List.map_cons, List.count_cons, ih, List.map_cons, List.sum_cons, Nat.add_comm]
    simp only [beq_iff_eq]

theorem count_eq_sum (l : List Memory.Stack) (stack : Memory.Stack) :
    l.count stack = (l.map fun other => if other = stack then 1 else 0).sum := by
  have hcount := count_map_eq_sum id l stack
  rwa [List.map_id] at hcount

theorem owned_of_sums (h : ∀ w, t.stacksOf w + (came.map w).sum = (went.map w).sum + u.stacksOf w) :
    (t.owned ++ came).Perm (went ++ u.owned) := by
  rw [List.perm_iff_count]
  intro stack
  rw [count_eq_sum, count_eq_sum, List.map_append, List.map_append, List.sum_append_nat,
    List.sum_append_nat, sum_owned, sum_owned, h]

/-- Different owners have different stacks. -/
theorem owns_unique {o o' : Owner} (hnodup : t.owned.Nodup) (ho : t.Owns o stack)
    (ho' : t.Owns o' stack) : o = o' := by
  let w (s : Memory.Stack) : Nat := if s = stack then 1 else 0
  have hself : w stack = 1 := if_pos rfl
  have hle : t.stacksOf w ≤ 1 := by
    rw [← sum_owned, ← count_eq_sum]
    exact List.nodup_iff_count_le_one.mp hnodup stack
  unfold stacksOf at hle
  by_contra hne
  cases ho with
  | fiber hx hs =>
    cases ho' with
    | fiber hy hs' =>
      have := Table.add_le_total (fun x => x.stack.elim 0 w) hx hy fun h => hne (h ▸ rfl)
      simp only [hs, hs', Option.elim_some, hself] at this
      omega
    | kept hk =>
      have := Table.le_total (fun x => x.stack.elim 0 w) hx
      have := Table.le_total w hk
      simp only [hs, Option.elim_some, hself] at *
      omega
  | kept hk =>
    cases ho' with
    | fiber hy hs' =>
      have := Table.le_total (fun x => x.stack.elim 0 w) hy
      have := Table.le_total w hk
      simp only [hs', Option.elim_some, hself] at *
      omega
    | kept hk' =>
      have := Table.add_le_total w hk hk' fun h => hne (h ▸ rfl)
      omega

/-- A stack went exactly if its owner does not own it any more. -/
theorem Trades.went_iff {o : Owner} (h : Trades came went before t after u)
    (hnodup : (t.owned ++ came).Nodup) (ho : t.Owns o stack) :
    stack ∈ went ↔ ¬ u.Owns o stack := by
  have hboth := (h.owned.nodup_iff.mp hnodup)
  obtain ⟨-, -, hapart⟩ := List.nodup_append'.mp hboth
  obtain ⟨howned, -, hfresh⟩ := List.nodup_append'.mp hnodup
  have hmem := mem_owned.mpr ⟨o, ho⟩
  constructor
  · intro hwent hu
    exact hapart hwent (mem_owned.mpr ⟨o, hu⟩)
  · intro hu
    rcases List.mem_append.mp (h.owned.subset (List.mem_append_left _ hmem)) with hwent | howns
    · exact hwent
    · obtain ⟨o', ho'⟩ := mem_owned.mp howns
      have hold : t.Owns o' stack := by
        cases ho' with
        | fiber hy hs =>
          rcases h.fibers _ _ hy with ⟨x, hx, hxy⟩ | hcame
          · exact .fiber hx (hxy ▸ hs)
          · exact (hfresh hmem (hcame _ hs)).elim
        | kept hk =>
          rcases h.kept _ _ hk with hk | hcame
          · exact .kept hk
          · exact (hfresh hmem hcame).elim
      cases owns_unique howned ho hold
      exact (hu ho').elim

theorem Housed.houses (h : t.Housed) (hs : stack ∈ t.owned) : t.Houses stack := by
  obtain ⟨o, ho⟩ := mem_owned.mp hs
  cases ho with
  | fiber hx hs => exact h.fibers _ _ stack hx hs
  | kept hs => exact h.kept _ stack hs

/-! ### Tallies -/

theorem book_get? (record : Memory.Tally → Nat → Memory.Tally) (t : Thread) (stack : Memory.Stack)
    (serial : Nat) : (t.book record stack).tallies[serial]? =
      if stack.allocator = .tally serial then t.tallies[serial]?.map (record · stack.size)
      else t.tallies[serial]? := by
  unfold book
  cases stack.allocator with
  | source => simp
  | tally n =>
    simp only [List.getElem?_modify, Memory.Allocator.tally.injEq]
    split
    · rfl
    · exact Option.map_id' ..

variable {serial : Nat}

theorem handed_allocated (h : stack.allocator.source? t.tallies ≠ none) :
    (t.book Memory.Tally.recordAllocated stack).handed serial =
      t.handed serial ++ Memory.sizesFrom serial [stack] := by
  rw [handed, book_get?]
  split
  · next ha =>
    rw [ha] at h
    obtain ⟨tally, htally⟩ := Option.ne_none_iff_exists'.mp fun hn : t.tallies[serial]? = none =>
      h (by simp [Memory.Allocator.source?, hn])
    simp [handed, htally, Memory.sizesFrom, ha, Memory.Tally.recordAllocated]
  · next ha => simp [handed, Memory.sizesFrom, ha]

theorem returned_released (h : stack.allocator.source? t.tallies ≠ none) :
    (t.book Memory.Tally.recordReleased stack).returned serial =
      t.returned serial ++ Memory.sizesFrom serial [stack] := by
  rw [returned, book_get?]
  split
  · next ha =>
    rw [ha] at h
    obtain ⟨tally, htally⟩ := Option.ne_none_iff_exists'.mp fun hn : t.tallies[serial]? = none =>
      h (by simp [Memory.Allocator.source?, hn])
    simp [returned, htally, Memory.sizesFrom, ha, Memory.Tally.recordReleased]
  · next ha => simp [returned, Memory.sizesFrom, ha]

theorem returned_allocated :
    (t.book Memory.Tally.recordAllocated stack).returned serial = t.returned serial := by
  rw [returned, book_get?]
  split
  · cases ht : t.tallies[serial]? <;> simp [returned, ht, Memory.Tally.recordAllocated]
  · rfl

theorem handed_released :
    (t.book Memory.Tally.recordReleased stack).handed serial = t.handed serial := by
  rw [handed, book_get?]
  split
  · cases ht : t.tallies[serial]? <;> simp [handed, ht, Memory.Tally.recordReleased]
  · rfl

/-! ### Edits -/

/-- Nothing has happened to stacks. -/
theorem Beside.trades (h : t.Beside u) (before : Memory.System) :
    Trades [] [] before t before u where
  owned := owned_of_sums fun w => (h.backs.stacksOf w).symm ▸ Nat.add_comm ..
  handed serial := by
    rw [handed, h.tallies]
    exact (List.append_nil _).symm
  returned serial := by
    rw [returned, h.tallies]
    exact (List.append_nil _).symm
  calls := ⟨[], [], .nil, .nil, rfl⟩
  sources := h.backs.sources
  apart _ hmem := nomatch hmem
  distinct := .nil
  fibers f y hy := .inl ⟨y, h.fibers ▸ hy, rfl⟩
  kept name stack hs := .inl (h.kept ▸ hs)

/-- What was the same before may take the place of what a trade began with. -/
theorem Beside.trades_of (hb : t.Beside u) (h : Trades came went before u after v) :
    Trades came went before t after v where
  owned := by
    have howned : u.owned = t.owned := by rw [owned, owned, hb.fibers, hb.kept]
    rw [← howned]
    exact h.owned
  handed serial := by rw [h.handed, handed, handed, hb.tallies]
  returned serial := by rw [h.returned, returned, returned, hb.tallies]
  calls := h.calls
  sources allocator source hs := h.sources allocator source (hb.backs.sources _ _ hs)
  apart := h.apart
  distinct := h.distinct
  fibers f y hy := hb.fibers ▸ h.fibers f y hy
  kept name stack hs := hb.kept ▸ h.kept name stack hs

end Thread

namespace Process

variable {p q : Process} {kind : Kind} {stack other : Memory.Stack} {came went : List Memory.Stack}
  {taken : Memory.Region → Nat} {name : String} {f : Nat} {x y : Fiber}

/-- What came to the executing thread and went from it. -/
def Trades (p : Process) (came went : List Memory.Stack) (q : Process) : Prop :=
  Thread.Trades came went p.memory p.thread q.memory q.thread

theorem trades_of_beside (h : p.thread.Beside q.thread) (hmemory : q.memory = p.memory) :
    p.Trades [] [] q := by
  unfold Trades
  rw [hmemory]
  exact h.trades _

/-- A stack has come to hand. -/
theorem Allocates.source_ne (h : p.Allocates stack q) :
    stack.allocator.source? p.thread.tallies ≠ none := by
  obtain ⟨hsource, -⟩ := h
  simp [hsource]

theorem Allocates.thread (h : p.Allocates stack q) :
    q.thread = p.thread.book Memory.Tally.recordAllocated stack := by
  obtain ⟨-, -⟩ := h
  rfl

theorem Allocates.backs (h : p.Allocates stack q) : p.thread.Backs q.thread :=
  h.thread ▸ Thread.backs_book Memory.Tally.recordAllocated (fun _ _ => rfl) _ stack

/-- The system was called once. -/
theorem Allocates.calls (h : p.Allocates stack q) :
    ∃ r, q.thread.LiesIn stack r ∧ q.memory = p.memory.called [r] [] := by
  have hbacks := h.backs
  obtain ⟨hsource, hmemory⟩ := h
  obtain ⟨r, hr, hcalled⟩ := Memory.System.allocate_grants hmemory
  have hfound : Thread.region? _ stack = some r :=
    Option.bind_eq_some_iff.mpr ⟨_, hbacks.sources _ _ hsource, hr.found⟩
  exact ⟨r, ⟨hfound, hr.holds⟩, hcalled⟩

/-- The stack lies in nothing that was reserved. -/
theorem Allocates.apart (h : p.Allocates stack q) :
    ∀ other ∈ [stack], ∀ r ∈ p.memory.reserved, ¬r.Spans other.block := by
  obtain ⟨-, hmemory⟩ := h
  obtain ⟨r, hr, -⟩ := Memory.System.allocate_grants hmemory
  intro other hother r' hr'
  obtain rfl := List.mem_singleton.mp hother
  exact hr.apart r' hr' _ hr.spans

/-- A new task fiber takes the stack in hand. -/
theorem addTask_trades (hq : p.Allocates stack q) (callback : List Op) (scheduled : Bool)
    (hbelow : ∀ f x, p.thread.fibers.get? f = some x → f < p.nextId) :
    p.Trades [stack] [] (q.addTask stack callback scheduled) where
  owned := by
    refine Thread.owned_of_sums fun w => ?_
    have hset := q.thread.stacksOf_setFiber w q.nextId
      (.task stack ⟨q.nextSerial, .entry q.nextId⟩ callback scheduled)
    rw [Thread.fresh_of_below (hq.below hbelow), hq.backs.stacksOf] at hset
    rw [List.map_singleton, List.sum_singleton]
    exact (hset.symm.trans (Nat.zero_add _).symm)
  handed serial := by
    show q.thread.handed serial = _
    rw [hq.thread, Thread.handed_allocated hq.source_ne]
  returned serial := by
    show q.thread.returned serial = p.thread.returned serial ++ []
    rw [hq.thread, Thread.returned_allocated, List.append_nil]
  calls := by
    obtain ⟨r, hr, hcalled⟩ := hq.calls
    exact ⟨[r], [], .cons ⟨hr.found, hr.holds⟩ .nil, .nil, hcalled⟩
  sources := hq.backs.sources
  apart := hq.apart
  distinct := List.nodup_singleton _
  fibers f y hy := by
    obtain ⟨rfl, rfl⟩ | ⟨-, hy⟩ := Table.set_cases hy
    · exact .inr fun other hs => List.mem_singleton.mpr (Option.some.inj hs).symm
    · exact .inl ⟨y, hq.backs.fibers ▸ hy, rfl⟩
  kept name stack hs := .inl (hq.backs.kept ▸ hs)

/-- A stack that went is given back. -/
theorem recover_trades {t : Thread} {before : Memory.System}
    (howned : (t.owned ++ came).Perm (other :: q.thread.owned))
    (hhanded : ∀ serial, q.thread.handed serial = t.handed serial ++ Memory.sizesFrom serial came)
    (hreturned : ∀ serial, q.thread.returned serial = t.returned serial)
    (hcalls : ∃ grants, List.Forall₂ q.thread.LiesIn came grants ∧
      q.memory = before.called grants [])
    (hsources : t.KeepsSources q.thread)
    (hapart : ∀ stack ∈ came, ∀ r ∈ before.reserved, ¬r.Spans stack.block)
    (hdistinct : (came.map Memory.Stack.block).Nodup)
    (hfibers : ∀ f y, q.thread.fibers.get? f = some y →
      (∃ x, t.fibers.get? f = some x ∧ y.stack = x.stack) ∨
        ∀ stack, y.stack = some stack → stack ∈ came)
    (hkept : ∀ name stack, q.thread.kept.get? name = some stack →
      t.kept.get? name = some stack ∨ stack ∈ came)
    (hs : q.thread.Houses other) :
    Thread.Trades came [other] before t (q.recover other).memory (q.recover other).thread := by
  have hbacks : q.thread.Backs (q.recover other).thread :=
    Thread.backs_book Memory.Tally.recordReleased (fun _ _ => rfl) _ other
  obtain ⟨r, hr, hholds⟩ := hs
  have hsource : other.allocator.source? q.thread.tallies ≠ none := by
    obtain ⟨source, hsource, -⟩ := Option.bind_eq_some_iff.mp hr
    simp [hsource]
  have hsame : (q.recover other).thread.owned = q.thread.owned := by
    rw [Thread.owned, hbacks.fibers, hbacks.kept]
    rfl
  exact {
    owned := hsame ▸ howned
    handed := fun serial => Thread.handed_released.trans (hhanded serial)
    returned := fun serial => (Thread.returned_released hsource).trans (by rw [hreturned])
    calls := by
      obtain ⟨grants, hgrants, hcalled⟩ := hcalls
      have hlies : (q.recover other).thread.LiesIn other r := ⟨hbacks.region? hr, hholds⟩
      refine ⟨grants, [r], hgrants.imp fun _ _ hr => hr.mono hbacks.sources, .cons hlies .nil, ?_⟩
      show q.reclaim other = _
      rw [reclaim_eq hr, hcalled]
      rfl
    sources := fun allocator source hs => hbacks.sources _ _ (hsources allocator source hs)
    apart := hapart
    distinct := hdistinct
    fibers := hbacks.fibers ▸ hfibers
    kept := hbacks.kept ▸ hkept }

/-- What is kept once the stack in hand is. -/
theorem Allocates.kept_cases {other : Memory.Stack} {key : String} (hq : p.Allocates stack q)
    (hs : (q.thread.kept.set name stack).get? key = some other) :
    p.thread.kept.get? key = some other ∨ other ∈ [stack] := by
  obtain ⟨-, rfl⟩ | ⟨-, hs⟩ := Table.set_cases hs
  · exact .inr (List.mem_singleton_self _)
  · exact .inl (hq.backs.kept ▸ hs)

/-- A stack in hand is kept under a name that was free. -/
theorem keep_trades (hq : p.Allocates stack q) (hname : q.thread.kept.get? name = none) :
    p.Trades [stack] [] {q with thread := {q.thread with
      kept := q.thread.kept.set name stack}} where
  owned := by
    refine Thread.owned_of_sums fun w => ?_
    have hset := q.thread.stacksOf_keep w name stack
    rw [hname, hq.backs.stacksOf] at hset
    rw [List.map_singleton, List.sum_singleton]
    exact hset.symm.trans (Nat.zero_add _).symm
  handed serial := by
    show q.thread.handed serial = _
    rw [hq.thread, Thread.handed_allocated hq.source_ne]
  returned serial := by
    show q.thread.returned serial = p.thread.returned serial ++ []
    rw [hq.thread, Thread.returned_allocated, List.append_nil]
  calls := by
    obtain ⟨r, hr, hcalled⟩ := hq.calls
    exact ⟨[r], [], .cons ⟨hr.found, hr.holds⟩ .nil, .nil, hcalled⟩
  sources := hq.backs.sources
  apart := hq.apart
  distinct := List.nodup_singleton _
  fibers f y hy := .inl ⟨y, hq.backs.fibers ▸ hy, rfl⟩
  kept key other hs := hq.kept_cases hs

/-- A stack in hand is kept under a name in place of another one. -/
theorem replace_trades (hq : p.Allocates stack q) (hname : q.thread.kept.get? name = some other)
    (hs : q.thread.Houses other) : p.Trades [stack] [other]
      (recover {q with thread := {q.thread with kept := q.thread.kept.set name stack}} other) := by
  apply recover_trades
  · show List.Perm _ ([other] ++ _)
    refine Thread.owned_of_sums fun w => ?_
    have hset := q.thread.stacksOf_keep w name stack
    rw [hname, hq.backs.stacksOf] at hset
    rw [List.map_singleton, List.sum_singleton, List.map_singleton, List.sum_singleton]
    exact hset.symm.trans (Nat.add_comm ..)
  · intro serial
    show q.thread.handed serial = _
    rw [hq.thread, Thread.handed_allocated hq.source_ne]
  · intro serial
    show q.thread.returned serial = _
    rw [hq.thread, Thread.returned_allocated]
  · obtain ⟨r, hr, hcalled⟩ := hq.calls
    exact ⟨[r], .cons ⟨hr.found, hr.holds⟩ .nil, hcalled⟩
  · exact hq.backs.sources
  · exact hq.apart
  · exact List.nodup_singleton _
  · exact fun f y hy => .inl ⟨y, hq.backs.fibers ▸ hy, rfl⟩
  · exact fun key other hs => hq.kept_cases hs
  · exact hs

/-- A stack goes without anything coming, and is given back. -/
theorem release_trades {u : Thread} {trace : List Event} {live : Nat}
    (hsum : ∀ w, p.thread.stacksOf w = w other + u.stacksOf w)
    (htallies : u.tallies = p.thread.tallies)
    (hfibers : ∀ f y, u.fibers.get? f = some y → p.thread.fibers.get? f = some y)
    (hkept : ∀ name stack, u.kept.get? name = some stack → p.thread.kept.get? name = some stack)
    (hs : p.thread.Houses other) :
    p.Trades [] [other] (recover {p with live, trace, thread := u} other) := by
  apply recover_trades
  · show List.Perm _ ([other] ++ _)
    exact Thread.owned_of_sums fun w => by simp [hsum w]
  · intro serial
    show u.handed serial = p.thread.handed serial ++ []
    rw [Thread.handed, htallies, List.append_nil]
    rfl
  · intro serial
    show u.returned serial = _
    rw [Thread.returned, htallies]
    rfl
  · exact ⟨[], .nil, rfl⟩
  · intro allocator source hs
    show Memory.Allocator.source? u.tallies allocator = some source
    rwa [htallies]
  · exact fun _ hmem => nomatch hmem
  · exact .nil
  · exact fun f y hy => .inl ⟨y, hfibers f y hy, rfl⟩
  · exact fun name stack hk => .inl (hkept name stack hk)
  · obtain ⟨r, hr, hholds⟩ := hs
    refine ⟨r, ?_, hholds⟩
    show (other.allocator.source? u.tallies).bind _ = _
    rw [htallies]
    exact hr

/-- No stack comes and none goes. -/
theorem still_trades (hsum : ∀ w, q.thread.stacksOf w = p.thread.stacksOf w)
    (hhanded : ∀ serial, q.thread.handed serial = p.thread.handed serial)
    (hreturned : ∀ serial, q.thread.returned serial = p.thread.returned serial)
    (hfibers : ∀ f y, q.thread.fibers.get? f = some y →
      (∃ x, p.thread.fibers.get? f = some x ∧ y.stack = x.stack) ∨ y.stack = none)
    (hkept : q.thread.kept = p.thread.kept) (hsources : p.thread.KeepsSources q.thread)
    (hmemory : q.memory = p.memory) : p.Trades [] [] q where
  owned := Thread.owned_of_sums fun w => by simp [hsum w]
  handed serial := (hhanded serial).trans (List.append_nil _).symm
  returned serial := (hreturned serial).trans (List.append_nil _).symm
  calls := ⟨[], [], .nil, .nil, hmemory⟩
  sources := hsources
  apart _ hmem := nomatch hmem
  distinct := .nil
  fibers f y hy := (hfibers f y hy).imp id fun hnone stack hs => by simp [hnone] at hs
  kept name stack hs := .inl (hkept ▸ hs)

/-- A tally that was just made has handed out nothing. -/
theorem tally_trades (name : String) (source : Memory.Source) (limit : Option Nat) :
    p.Trades [] [] {p with thread := {p.thread with
      tallies := p.thread.tallies ++ [{source, limit}]
      tallyNames := p.thread.tallyNames.set name p.thread.tallies.length}} := by
  have hnew (log : Memory.Tally → List Nat) (tally : Memory.Tally) (hlog : log tally = [])
      (serial : Nat) : (p.thread.tallies ++ [tally])[serial]?.elim [] log =
        p.thread.tallies[serial]?.elim [] log := by
    by_cases hserial : serial < p.thread.tallies.length
    · rw [List.getElem?_append_left hserial]
    · rw [List.getElem?_append_right (by omega), List.getElem?_singleton,
        List.getElem?_eq_none (l := p.thread.tallies) (by omega)]
      split
      · exact hlog
      · rfl
  exact still_trades (fun _ => rfl) (hnew _ _ rfl) (hnew _ _ rfl) (fun f y hy => .inl ⟨y, hy, rfl⟩)
    rfl (fun _ _ hs => Thread.source?_append hs) rfl

theorem setFiber_trades (hx : p.thread.fibers.get? f = some x) (hstack : y.stack = x.stack) :
    p.Trades [] [] {p with thread := p.thread.setFiber f y} := by
  refine still_trades (fun w => Thread.stacksOf_set w hx hstack) (fun _ => rfl) (fun _ => rfl)
    (fun g z hz => .inl ?_) rfl (fun _ _ hs => hs) rfl
  obtain ⟨rfl, rfl⟩ | ⟨-, hz⟩ := Table.set_cases hz
  · exact ⟨x, hx, hstack⟩
  · exact ⟨z, hz, rfl⟩

/-- A root has no stack. -/
theorem addRoot_trades (hbelow : ∀ f x, p.thread.fibers.get? f = some x → f < p.nextId) :
    p.Trades [] [] {p with nextId := p.nextId + 1, thread := p.thread.addRoot p.nextId} := by
  refine still_trades (fun w => ?_) (fun _ => rfl) (fun _ => rfl) (fun g z hz => ?_) rfl
    (fun _ _ hs => hs) rfl
  · have hset := p.thread.stacksOf_setFiber w p.nextId .root
    rw [Thread.fresh_of_below hbelow] at hset
    exact hset
  · rw [Thread.get?_addRoot] at hz
    split at hz
    · cases hz
      exact .inr rfl
    · exact .inl ⟨z, hz, rfl⟩

/-- An edit that makes neither a task fiber nor a stack of the scripts' own is a trade in which
nothing comes. -/
theorem Edit.trades (h : p.Edit kind q) (hp : p.Balanced taken none) (hmaking : kind ≠ .making)
    (hkeeping : kind ≠ .keeping) :
    ∃ went, p.Trades [] went q ∧ (q.thread.kept = p.thread.kept ∨ kind = .freeing) := by
  cases h with
  | thread ht => exact ⟨[], trades_of_beside ht rfl, .inl ht.kept⟩
  | tally name source limit => exact ⟨[], tally_trades .., .inl rfl⟩
  | fiber hx hstack => exact ⟨[], setFiber_trades hx hstack, .inl rfl⟩
  | root =>
    exact ⟨_, (addRoot_trades hp.below).trans (setFiber_trades
      (Thread.get?_addRoot.trans (if_pos rfl)) rfl), .inl rfl⟩
  | task _ _ hk => exact (hmaking hk).elim
  | destroyRoot hx hstack =>
    refine ⟨[], still_trades (fun w => ?_) (fun _ => rfl) (fun _ => rfl) (fun g y hy => ?_) rfl
      (fun _ _ hs => hs) rfl, .inl rfl⟩
    · have hbury := Thread.stacksOf_bury w hx
      rw [hstack] at hbury
      exact hbury
    · exact .inl ⟨y, (Table.erase_cases hy).2, rfl⟩
  | destroyTask hx hstack =>
    refine ⟨_, release_trades (fun w => ?_) rfl (fun g y hy => ?_) (fun _ _ h => h)
      (hp.housed.fibers _ _ _ hx hstack), .inl ?_⟩
    · have hbury := Thread.stacksOf_bury w hx
      rw [hstack, Option.elim_some] at hbury
      rw [Nat.add_comm, hbury]
    · exact (Table.erase_cases hy).2
    · exact (Thread.backs_book Memory.Tally.recordReleased (fun _ _ => rfl) _ _).kept
  | keep hk => exact (hkeeping hk).elim
  | replace hk => exact (hkeeping hk).elim
  | free hk hname =>
    refine ⟨_, release_trades (fun w => ?_) rfl (fun _ _ h => h) (fun key stack hs => ?_)
      (hp.housed.kept _ _ hname), .inr hk⟩
    · rw [Nat.add_comm, Thread.stacksOf_free w hname]
    · exact (Table.erase_cases hs).2
  | _ => exact ⟨[], trades_of_beside ⟨rfl, rfl, rfl⟩ rfl, .inl rfl⟩

theorem Edited.trades (h : p.Edited kind q) (hp : p.Balanced taken none)
    (hmaking : kind ≠ .making) (hkeeping : kind ≠ .keeping) :
    ∃ went, p.Trades [] went q ∧ (q.thread.kept = p.thread.kept ∨ kind = .freeing) := by
  induction h with
  | refl => exact ⟨[], trades_of_beside ⟨rfl, rfl, rfl⟩ rfl, .inl rfl⟩
  | tail h h' ih =>
    obtain ⟨went, htrades, hkept⟩ := ih
    obtain ⟨went', htrades', hkept'⟩ := h'.trades (Edited.balanced h hp) hmaking hkeeping
    refine ⟨went ++ went', Thread.Trades.trans htrades htrades', ?_⟩
    rcases hkept with hkept | hkind
    · exact hkept'.imp (fun h => h.trans hkept) id
    · exact .inr hkind

/-- Plain edits leave what is kept. -/
theorem Edited.plain_trades (h : p.Edited .plain q) (hp : p.Balanced taken none) :
    ∃ went, p.Trades [] went q ∧ q.thread.kept = p.thread.kept := by
  obtain ⟨went, htrades, hkept⟩ := h.trades hp (by decide) (by decide)
  exact ⟨went, htrades, hkept.resolve_right (by decide)⟩

/-- Plain edits make no fiber. -/
theorem Edit.fiber_before (h : p.Edit .plain q) (hy : q.thread.fibers.get? f = some y) :
    ∃ x, p.thread.fibers.get? f = some x ∧ y.stack = x.stack := by
  cases h with
  | thread ht => exact ⟨y, ht.fibers ▸ hy, rfl⟩
  | fiber hx hstack =>
    obtain ⟨rfl, rfl⟩ | ⟨-, hy⟩ := Table.set_cases hy
    · exact ⟨_, hx, hstack⟩
    · exact ⟨y, hy, rfl⟩
  | root hk => cases hk
  | task _ _ hk => cases hk
  | destroyRoot => exact ⟨y, (Table.erase_cases hy).2, rfl⟩
  | @destroyTask f x stack =>
    rw [show (recover _ stack).thread.fibers = _ from
      (Thread.backs_book Memory.Tally.recordReleased (fun _ _ => rfl) _ stack).fibers] at hy
    exact ⟨y, (Table.erase_cases hy).2, rfl⟩
  | keep hk => cases hk
  | replace hk => cases hk
  | free hk => cases hk
  | _ => exact ⟨y, hy, rfl⟩

theorem Edited.fiber_before (h : p.Edited .plain q) (hy : q.thread.fibers.get? f = some y) :
    ∃ x, p.thread.fibers.get? f = some x ∧ y.stack = x.stack := by
  induction h generalizing y with
  | refl => exact ⟨y, hy, rfl⟩
  | tail _ h ih =>
    obtain ⟨x, hx, hyx⟩ := h.fiber_before hy
    obtain ⟨z, hz, hxz⟩ := ih hx
    exact ⟨z, hz, hyx.trans hxz⟩

end Process
end Fibers
