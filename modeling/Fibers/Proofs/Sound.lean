import Fibers.Proofs.Census

/-! What holds of a thread at all times.

The facts come in groups. Handles are counted exactly (`Counted`), except for a `hand` of
them that the operation in progress has taken and not yet put anywhere. The root has its
part (`Rooted`), what rests in a fiber fits the fiber (`Stored`), and every callback that
was installed has exactly one piece of code until it is finished (`Begun`). Between
operations, moreover, the current fiber is attended to (`Attended`): it runs, and a resumer
that cannot go on meanwhile keeps a handle of it.

The rest of the file is how the facts survive the simplest changes to a thread. -/
namespace Fibers

/-- How much unfinished code a fiber is to have: that of one callback, until it has
terminated. -/
def Fiber.due (x : Fiber) : Nat := if x.stack = none ∨ x.state = .term then 0 else 1

namespace Thread

/-- How much unfinished code there is for a fiber. -/
def unfinished (f : Nat) (t : Thread) : Nat := t.weigh fun k => k.code.unfinished.count f

/-- The code rests where it is not continued from: it is lost, or its fiber is not ready.
The code of the program waiting in the root counts as such. -/
def Frozen (t : Thread) (k : Context) : Prop :=
  k ∈ t.lost ∨ ∃ f x, t.fibers.get? f = some x ∧ x.state ≠ .ready ∧ x.context = some k

structure Counted (hand : List Nat) (t : Thread) : Prop where
  handles : ∀ f, (t.fibers.get? f).elim 0 Fiber.handles = t.handlesOf f + hand.count f
  positive : ∀ f x, t.fibers.get? f = some x → 0 < x.handles

structure Rooted (t : Thread) : Prop where
  /-- The root is the one fiber without a stack. -/
  root_iff : ∀ f x, t.fibers.get? f = some x → (x.stack = none ↔ t.root = some f)
  running : ∀ f x, t.fibers.get? f = some x → x.stack = none → x.state = .running
  /-- The root's place is empty exactly while the root is current. -/
  away : ∀ f x, t.fibers.get? f = some x → x.stack = none →
    (x.context = none ↔ t.current = some f)
  /-- Before there is a root nothing was ever resumed. -/
  unrooted : t.root = none → t.current = none ∧
    ∀ f x, t.fibers.get? f = some x → x.state = .ready
  /-- The program executes exactly while the root is current, or before there is one. -/
  program_iff : t.running.code.origin = .program ↔ t.current = t.root

structure Stored (t : Thread) : Prop where
  ready : ∀ f x, t.fibers.get? f = some x → x.state = .ready →
    ∃ k, x.context = some k ∧ k.code.Awake
  program : ∀ f x k, t.fibers.get? f = some x → x.stack = none → x.context = some k →
    k.code.origin = .program ∧ k.code.Awake
  callback : ∀ f x k, t.fibers.get? f = some x → x.stack ≠ none → x.context = some k →
    k.code.origin ≠ .program
  entry : ∀ f x k g, t.fibers.get? f = some x → x.context = some k → k.code = .entry g → g = f

structure Begun (t : Thread) : Prop where
  unfinished : ∀ f, t.unfinished f = (t.fibers.get? f).elim 0 Fiber.due

structure Sound (hand : List Nat) (t : Thread) : Prop extends
  Counted hand t, Rooted t, Stored t, Begun t

structure Attended (t : Thread) : Prop where
  current : ∀ r, t.root = some r →
    ∃ c x, t.current = some c ∧ t.fibers.get? c = some x ∧ x.state = .running
  awaited : ∀ c, t.current = some c → t.root ≠ some c →
    ∃ k, t.Frozen k ∧ k.code.awaited = some c
  starting : ∀ g, t.running.code = .entry g → t.current = some g

variable {t u : Thread} {hand : List Nat} {f : Nat} {x : Fiber}

/-! ### Handles -/

/-- A fiber that someone keeps a handle of is alive. -/
theorem Counted.alive (h : t.Counted hand) (hf : 0 < t.handlesOf f + hand.count f) :
    ∃ x, t.fibers.get? f = some x := by
  have hc := h.handles f
  cases hx : t.fibers.get? f with
  | none =>
    rw [hx, Option.elim_none] at hc
    omega
  | some x => exact ⟨x, rfl⟩

theorem Counted.handles_eq (h : t.Counted hand) (hx : t.fibers.get? f = some x) :
    x.handles = t.handlesOf f + hand.count f := by
  have hc := h.handles f
  rwa [hx, Option.elim_some] at hc

theorem Counted.root_handle (hr : t.root = some f) : 0 < t.handlesOf f := by
  unfold handlesOf
  rw [hr, Option.toList_some, List.count_singleton_self]
  omega

theorem Counted.root_alive (h : t.Counted hand) (hr : t.root = some f) :
    ∃ x, t.fibers.get? f = some x := by
  have := Counted.root_handle hr
  exact h.alive (by omega)

theorem slot_handle {s : String} (hs : t.slots.get? s = some f) : 0 < t.handlesOf f := by
  have := Table.le_total (fun g => [g].count f) hs
  rw [List.count_singleton_self] at this
  unfold handlesOf
  omega

theorem running_handle (hf : 0 < t.running.code.handles.count f) : 0 < t.handlesOf f := by
  show 0 < _ + _ + (t.running.code.handles.count f + _ + _)
  omega

/-- A context that rests somewhere has its share in every sum. -/
theorem Frozen.le_weigh {k : Context} (h : t.Frozen k) (w : Context → Nat) :
    w t.running + w k ≤ t.weigh w := by
  unfold weigh
  rcases h with hl | ⟨f, x, hx, -, hk⟩
  · obtain ⟨before, after, hl⟩ := List.append_of_mem hl
    rw [hl, List.map_append, List.map_cons, List.sum_append_nat, List.sum_cons]
    omega
  · have := Table.le_total (Fiber.weigh w) hx
    rw [Fiber.weigh, hk, Option.elim_some] at this
    omega

/-! ### Threads alike in roles and contexts -/

/-- The same thread as far as roles and contexts go. Handles may be counted otherwise,
callbacks may have begun, and the executing code may have gone on as code of the same
kind. -/
structure Akin (t u : Thread) : Prop where
  back : ∀ f y, u.fibers.get? f = some y →
    ∃ n b, t.fibers.get? f = some {y with handles := n, callback := b}
  forth : ∀ f x, t.fibers.get? f = some x →
    ∃ n b, u.fibers.get? f = some {x with handles := n, callback := b}
  current : u.current = t.current
  root : u.root = t.root
  lost : u.lost = t.lost
  origin : u.running.code.origin = t.running.code.origin
  unfinished : u.running.code.unfinished = t.running.code.unfinished
  entry : ∀ g, u.running.code = .entry g → t.running.code = .entry g

theorem Like.akin (h : t.Like u) : t.Akin u where
  back f y hy := ⟨y.handles, y.callback, by rw [← h.fibers, hy]⟩
  forth f x hx := ⟨x.handles, x.callback, by rw [h.fibers, hx]⟩
  current := h.current
  root := h.root
  lost := h.lost
  origin := by rw [h.running]
  unfinished := by rw [h.running]
  entry g hg := by rwa [h.running] at hg

theorem Akin.trans {v : Thread} (h : t.Akin u) (h' : u.Akin v) : t.Akin v where
  back f z hz := by
    obtain ⟨n, b, hy⟩ := h'.back f z hz
    exact h.back f {z with handles := n, callback := b} hy
  forth f x hx := by
    obtain ⟨n, b, hy⟩ := h.forth f x hx
    exact h'.forth f {x with handles := n, callback := b} hy
  current := h'.current.trans h.current
  root := h'.root.trans h.root
  lost := h'.lost.trans h.lost
  origin := h'.origin.trans h.origin
  unfinished := h'.unfinished.trans h.unfinished
  entry g hg := h.entry g (h'.entry g hg)

theorem Akin.contexts (h : t.Akin u) (f : Nat) :
    (u.fibers.get? f).map Fiber.context = (t.fibers.get? f).map Fiber.context := by
  cases hu : u.fibers.get? f with
  | some y =>
    obtain ⟨n, b, ht⟩ := h.back f y hu
    rw [ht]
    rfl
  | none =>
    cases ht : t.fibers.get? f with
    | none => rfl
    | some x =>
      obtain ⟨n, b, hn⟩ := h.forth f x ht
      simp [hu] at hn

theorem Akin.weigh (h : t.Akin u) (w : Context → Nat) :
    u.weigh w + w t.running = t.weigh w + w u.running := by
  have hfibers : u.fibers.total (Fiber.weigh w) = t.fibers.total (Fiber.weigh w) :=
    Table.total_congr Fiber.context (fun c => c.elim 0 w) h.contexts
  simp only [Thread.weigh, hfibers, h.lost]
  omega

theorem Akin.frozen (h : t.Akin u) {k : Context} (hk : t.Frozen k) : u.Frozen k := by
  rcases hk with hl | ⟨f, x, hx, hs, hc⟩
  · exact .inl (h.lost ▸ hl)
  · obtain ⟨n, b, hn⟩ := h.forth f x hx
    exact .inr ⟨f, _, hn, hs, hc⟩

theorem Akin.rooted (h : t.Akin u) (ht : t.Rooted) : u.Rooted where
  root_iff f y hy := by
    obtain ⟨n, b, hx⟩ := h.back f y hy
    rw [h.root]
    exact ht.root_iff f {y with handles := n, callback := b} hx
  running f y hy hs := by
    obtain ⟨n, b, hx⟩ := h.back f y hy
    exact ht.running f {y with handles := n, callback := b} hx hs
  away f y hy hs := by
    obtain ⟨n, b, hx⟩ := h.back f y hy
    rw [h.current]
    exact ht.away f {y with handles := n, callback := b} hx hs
  unrooted hr := by
    rw [h.root] at hr
    refine ⟨by rw [h.current, (ht.unrooted hr).1], fun f y hy => ?_⟩
    obtain ⟨n, b, hx⟩ := h.back f y hy
    exact (ht.unrooted hr).2 f {y with handles := n, callback := b} hx
  program_iff := by rw [h.origin, h.current, h.root, ht.program_iff]

theorem Akin.stored (h : t.Akin u) (ht : t.Stored) : u.Stored where
  ready f y hy hs := by
    obtain ⟨n, b, hx⟩ := h.back f y hy
    exact ht.ready f {y with handles := n, callback := b} hx hs
  program f y k hy hs hk := by
    obtain ⟨n, b, hx⟩ := h.back f y hy
    exact ht.program f {y with handles := n, callback := b} k hx hs hk
  callback f y k hy hs hk := by
    obtain ⟨n, b, hx⟩ := h.back f y hy
    exact ht.callback f {y with handles := n, callback := b} k hx hs hk
  entry f y k g hy hk hg := by
    obtain ⟨n, b, hx⟩ := h.back f y hy
    exact ht.entry f {y with handles := n, callback := b} k g hx hk hg

theorem Akin.begun (h : t.Akin u) (ht : t.Begun) : u.Begun where
  unfinished f := by
    have hw := h.weigh fun k => k.code.unfinished.count f
    have hu := ht.unfinished f
    simp only [h.unfinished, Nat.add_right_cancel_iff] at hw
    unfold Thread.unfinished at hu ⊢
    rw [hw, hu]
    cases hx : t.fibers.get? f with
    | some x =>
      obtain ⟨n, b, hn⟩ := h.forth f x hx
      rw [hn]
      rfl
    | none =>
      cases hy : u.fibers.get? f with
      | none => rfl
      | some y =>
        obtain ⟨n, b, hn⟩ := h.back f y hy
        simp [hx] at hn

theorem Akin.attended (h : t.Akin u) (ht : t.Attended) : u.Attended where
  current r hr := by
    obtain ⟨c, x, hc, hx, hs⟩ := ht.current r (h.root ▸ hr)
    obtain ⟨n, b, hn⟩ := h.forth c x hx
    exact ⟨c, _, h.current ▸ hc, hn, hs⟩
  awaited c hc hr := by
    obtain ⟨k, hk, ha⟩ := ht.awaited c (h.current ▸ hc) (h.root ▸ hr)
    exact ⟨k, h.frozen hk, ha⟩
  starting g hg := by
    rw [h.current]
    exact ht.starting g (h.entry g hg)

theorem Like.counted (h : t.Like u) (ht : t.Counted hand) : u.Counted hand where
  handles f := by rw [h.fibers, h.handlesOf, ht.handles]
  positive f x hx := ht.positive f x (by rw [← h.fibers, hx])

theorem Like.sound (h : t.Like u) (ht : t.Sound hand) : u.Sound hand :=
  ⟨h.counted ht.toCounted, h.akin.rooted ht.toRooted, h.akin.stored ht.toStored,
    h.akin.begun ht.toBegun⟩

end Thread
end Fibers
