import Fibers.Proofs.Abort
import Fibers.Proofs.Alter
import Fibers.Proofs.Books
import Fibers.Proofs.Start

/-! Callbacks that are underway.

From its first operation until it has completed, the code of a callback keeps a handle of its own
fiber, wherever that code is: executing, at rest in some fiber, or lost. So the fiber is not
destroyed as long as its callback is underway, on whatever thread and whoever else lets go of it.
A fiber goes too early in one way only: its last handle is given back while it is ready and its
callback has never begun. -/
namespace Fibers

/-! ### Code of a callback in progress -/

namespace Code

/-- The fiber whose callback the code is amid: it has begun and has not completed. -/
def amid : Code → List Nat
  | entry _ => []
  | code => code.unfinished

/-- The fiber whose callback the code is about to begin. -/
def starts : Code → List Nat
  | entry f => [f]
  | _ => []

theorem count_unfinished (code : Code) (f : Nat) :
    code.unfinished.count f = code.amid.count f + code.starts.count f := by
  cases code <;> simp [amid, starts, unfinished]

/-- Code amid a callback keeps a handle of its fiber. -/
theorem count_amid (code : Code) (f : Nat) : code.amid.count f ≤ code.handles.count f := by
  cases code <;> simp [amid, handles, unfinished]

theorem origin_of_amid {code : Code} {f : Nat} (h : f ∈ code.amid) : code.origin = .callback f := by
  have horigin {origin : Origin} (h : f ∈ origin.handles) : origin = .callback f := by
    cases origin with
    | program => cases h
    | callback g => rw [List.mem_singleton.mp h]
  cases code <;> first | exact horigin h | cases h

theorem mem_starts {code : Code} {f : Nat} : f ∈ code.starts ↔ code = .entry f := by
  cases code <;> simp [starts, eq_comm]

end Code

/-- The fiber is a task whose callback was taken and which has not terminated. -/
structure Fiber.Started (x : Fiber) : Prop where
  task : x.stack ≠ none
  unterminated : x.state ≠ .term
  taken : x.callback = none

/-- The fiber is a task that waits to begin. -/
structure Fiber.Waits (x : Fiber) : Prop where
  task : x.stack ≠ none
  ready : x.state = .ready
  untaken : x.callback ≠ none

namespace Thread

/-- One of the contexts of the thread: it executes, rests in a fiber or is lost. -/
inductive Contains (t : Thread) : Context → Prop
  | running : Contains t t.running
  | rests {f : Nat} {x : Fiber} {k : Context} (hx : t.fibers.get? f = some x)
    (hk : x.context = some k) : Contains t k
  | lost {k : Context} (hk : k ∈ t.lost) : Contains t k

/-- The callback of the fiber has begun and has not completed. -/
def Underway (t : Thread) (f : Nat) : Prop := ∃ k, t.Contains k ∧ f ∈ k.code.amid

variable {t : Thread} {hand : List Nat} {f n : Nat} {x : Fiber} {k : Context}
  {w w' : Context → Nat}

theorem Contains.le_weigh (h : t.Contains k) (w : Context → Nat) : w k ≤ t.weigh w := by
  unfold weigh
  cases h with
  | running => omega
  | rests hx hk =>
    have := Table.le_total (Fiber.weigh w) hx
    rw [Fiber.weigh, hk, Option.elim_some] at this
    omega
  | lost hk =>
    have := List.single_le_sum (fun _ _ => Nat.zero_le _) _ (List.mem_map_of_mem (f := w) hk)
    omega

theorem exists_of_weigh (h : 0 < t.weigh w) : ∃ k, t.Contains k ∧ 0 < w k := by
  unfold weigh at h
  by_cases hrun : 0 < w t.running
  · exact ⟨_, .running, hrun⟩
  by_cases hlost : 0 < (t.lost.map w).sum
  · obtain ⟨n, hn, hpos⟩ := List.exists_mem_ne_zero_of_sum_ne_zero (Nat.ne_of_gt hlost)
    obtain ⟨k, hk, rfl⟩ := List.mem_map.mp hn
    exact ⟨k, .lost hk, Nat.pos_of_ne_zero hpos⟩
  · have hfibers : 0 < t.fibers.total (Fiber.weigh w) := by omega
    obtain ⟨f, x, hx, hpos⟩ := Table.exists_of_total hfibers
    cases hk : x.context with
    | none => simp [Fiber.weigh, hk] at hpos
    | some k =>
      rw [Fiber.weigh, hk, Option.elim_some] at hpos
      exact ⟨k, .rests hx hk, hpos⟩

theorem weigh_add : t.weigh (fun k => w k + w' k) = t.weigh w + t.weigh w' := by
  have hfiber : Fiber.weigh (fun k => w k + w' k) = fun x => x.weigh w + x.weigh w' := by
    funext x
    unfold Fiber.weigh
    cases x.context <;> rfl
  unfold weigh Table.total
  rw [hfiber, List.sum_map_add, List.sum_map_add]
  dsimp only
  omega

theorem Underway.handle (h : t.Underway f) : 0 < t.handlesOf f := by
  obtain ⟨k, hk, hf⟩ := h
  have := hk.le_weigh fun k => k.code.handles.count f
  have := k.code.count_amid f
  have := List.count_pos_iff.mpr hf
  unfold handlesOf
  omega

/-- The starts of a fiber that executes or rests are those of fibers with a callback. -/
theorem Primed.starts_iff (h : t.Primed) (hx : t.fibers.get? f = some x) :
    0 < t.weigh (fun k => k.code.starts.count f) ↔ x.callback ≠ none := by
  rw [h.callback f x hx]
  constructor
  · intro hpos
    obtain ⟨k, hk, hcount⟩ := exists_of_weigh hpos
    have hcode := Code.mem_starts.mp (List.count_pos_iff.mp hcount)
    cases hk with
    | running => exact .inl hcode
    | @rests g y _ hy hk =>
      obtain ⟨rfl, -⟩ := h.rests g y k f hy hk hcode
      rw [hx] at hy
      cases hy
      exact .inr ⟨k, hk, hcode⟩
    | lost hk => exact (h.lost k hk f hcode).elim
  · have hcount {k : Context} (hk : t.Contains k) (hcode : k.code = .entry f) :
        0 < t.weigh (fun k => k.code.starts.count f) :=
      Nat.lt_of_lt_of_le (List.count_pos_iff.mpr (Code.mem_starts.mpr hcode))
        (hk.le_weigh fun k => k.code.starts.count f)
    rintro (hcode | ⟨k, hk, hcode⟩)
    · exact hcount .running hcode
    · exact hcount (.rests hx hk) hcode

/-- The callbacks underway are those of the fibers that have started, as these tell it. -/
theorem underway_iff (h : t.Sound hand) (hp : t.Primed) :
    t.Underway f ↔ ∃ x, t.fibers.get? f = some x ∧ x.Started := by
  have hsum : t.unfinished f = t.weigh (fun k => k.code.amid.count f) +
      t.weigh (fun k => k.code.starts.count f) := by
    unfold Thread.unfinished
    simp only [Code.count_unfinished]
    exact weigh_add
  rw [h.unfinished f] at hsum
  constructor
  · rintro ⟨k, hk, hf⟩
    have hpos := Nat.lt_of_lt_of_le (List.count_pos_iff.mpr hf)
      (hk.le_weigh fun k => k.code.amid.count f)
    cases hx : t.fibers.get? f with
    | none =>
      rw [hx, Option.elim_none] at hsum
      omega
    | some x =>
      have hstarts := hp.starts_iff hx
      rw [hx, Option.elim_some, Fiber.due] at hsum
      split at hsum
      · omega
      · next hdue =>
        rw [not_or] at hdue
        refine ⟨x, rfl, hdue.1, hdue.2, ?_⟩
        by_contra hcallback
        have := hstarts.mpr hcallback
        omega
  · rintro ⟨x, hx, hstarted⟩
    have hstarts := hp.starts_iff hx
    rw [hx, Option.elim_some, Fiber.due, if_neg (by simp [hstarted.task, hstarted.unterminated])]
      at hsum
    have hzero : ¬0 < t.weigh (fun k => k.code.starts.count f) :=
      fun hpos => hstarts.mp hpos hstarted.taken
    obtain ⟨k, hk, hcount⟩ :=
      exists_of_weigh (t := t) (w := fun k => k.code.amid.count f) (by omega)
    exact ⟨k, hk, List.count_pos_iff.mp hcount⟩

/-- A root has no callback. -/
theorem Steady.root_taken (h : t.Steady n hand) (hp : t.Primed) (hx : t.fibers.get? f = some x)
    (hstack : x.stack = none) : x.callback = none := by
  by_contra hcallback
  rcases (hp.callback f x hx).mp hcallback with hcode | ⟨k, hk, hcode⟩
  · have hroot := (h.root_iff f x hx).mp hstack
    have hprogram := h.program_iff.mpr ((h.starting f hcode).trans hroot.symm)
    rw [hcode] at hprogram
    cases hprogram
  · have hprogram := (h.program f x k hx hstack hk).1
    rw [hcode] at hprogram
    cases hprogram

/-- A fiber of which only the hand keeps a handle waits to begin, or has terminated. -/
theorem Steady.stranded (h : t.Steady n (f :: hand)) (hp : t.Primed)
    (hx : t.fibers.get? f = some x) (hn : x.handles ≤ 1) (hterm : x.state ≠ .term) : x.Waits := by
  have hstack := h.toSound.last_task hx hn
  have hkept := h.toCounted.unkept hx hn
  have huntaken : x.callback ≠ none := by
    intro htaken
    have := ((underway_iff h.toSound hp).mpr ⟨x, hx, hstack, hterm, htaken⟩).handle
    omega
  rcases (hp.callback f x hx).mp huntaken with hcode | ⟨k, hk, hcode⟩
  · have := h.toAttended.kept (h.starting f hcode)
    omega
  · exact ⟨hstack, (hp.rests f x k f hx hk hcode).2, huntaken⟩

/-- Which callbacks are underway is told by the fibers. -/
def Upheld (t : Thread) : Prop :=
  ∀ f, t.Underway f ↔ ∃ x, t.fibers.get? f = some x ∧ x.Started

end Thread

namespace Process

variable {p q : Process} {f n : Nat} {x y : Fiber}

/-! ### All threads -/

/-- A thread that ends leaves its callbacks as they are: what goes is its root, in which nothing
rests while the program executes. -/
theorem Closed.upheld (h : p.Closed q) (hp : p.Ordered) (ht : p.thread.Upheld) :
    q.thread.Upheld := by
  intro f
  constructor
  · rintro ⟨k, hk, hf⟩
    have hcontains : p.thread.Contains k := by
      cases hk with
      | running => exact h.running ▸ .running
      | rests hy hk =>
        obtain ⟨n, hx⟩ := h.left _ _ hy
        exact .rests hx hk
      | lost hk => exact .lost (h.lost ▸ hk)
    obtain ⟨x, hx, hstarted⟩ := (ht f).mp ⟨k, hcontains, hf⟩
    exact ⟨x, h.tasks f x hx hstarted.task, hstarted⟩
  · rintro ⟨y, hy, hstarted⟩
    obtain ⟨n, hx⟩ := h.left f y hy
    obtain ⟨k, hk, hf⟩ := (ht f).mpr ⟨_, hx, hstarted.task, hstarted.unterminated, hstarted.taken⟩
    refine ⟨k, ?_, hf⟩
    cases hk with
    | running => exact h.running ▸ .running
    | @rests g z _ hz hk =>
      by_cases hstack : z.stack = none
      · have hprogram := (hp.thread.program g z k hz hstack hk).1
        rw [Code.origin_of_amid hf] at hprogram
        cases hprogram
      · exact .rests (h.tasks g z hz hstack) hk
    | lost hk => exact .lost (h.lost.symm ▸ hk)

/-- Callbacks are told by their fibers on all threads, those that ended included. -/
def Upheld (p : Process) : Prop := ∀ t ∈ p.everyThread, t.Upheld

theorem Upheld.turn (h : p.Upheld) (hp : p.Ordered) (ht : p.Turn q) (hq : q.Ordered)
    (hprimed : q.Primed) : q.Upheld := by
  apply ht.everyThread h _ fun r hclosed => hclosed.upheld hp (h _ (List.mem_cons_self ..))
  intro t hmem f
  exact Thread.underway_iff (hq t hmem).toSound (hprimed t (List.mem_append_left _ hmem))

/-- The callback of the fiber has begun and has not completed, on whatever thread it is. -/
def Underway (p : Process) (f : Nat) : Prop := ∃ t ∈ p.everyThread, t.Underway f

theorem Upheld.underway_iff (h : p.Upheld) : p.Underway f ↔ ∃ x, p.Has f x ∧ x.Started := by
  constructor
  · rintro ⟨t, ht, hf⟩
    obtain ⟨x, hx, hstarted⟩ := (h t ht f).mp hf
    exact ⟨x, ⟨t, ht, hx⟩, hstarted⟩
  · rintro ⟨x, ⟨t, ht, hx⟩, hstarted⟩
    exact ⟨t, ht, (h t ht f).mpr ⟨x, hx, hstarted⟩⟩

/-! ### Fibers that have not terminated stay -/

theorem Switch.has {source home : Nat} {state : State} (h : p.Switch source home state q)
    (hx : p.thread.fibers.get? f = some x) : ∃ y, q.thread.fibers.get? f = some y := by
  obtain ⟨-, -, -, -, like, -, -⟩ := h
  rw [like.fibers]
  simp only [Thread.switch, Thread.handOver, Table.get?_set, hx]
  split
  · exact ⟨_, rfl⟩
  · split <;> exact ⟨_, rfl⟩

theorem Onward.has (h : p.Onward q) (hx : p.Has f x) (hhere : p.thread.fibers.get? f = some x →
    ∃ y, q.thread.fibers.get? f = some y) : ∃ y, q.Has f y := by
  obtain ⟨t, ht, hx⟩ := hx
  rcases List.mem_cons.mp ht with rfl | ht
  · obtain ⟨y, hy⟩ := hhere hx
    exact ⟨y, has_here hy⟩
  · refine ⟨x, t, List.mem_cons_of_mem _ ?_, hx⟩
    rwa [h.joining, h.ended]

theorem Turn.stays (h : p.Turn q) (hx : p.Has f x) (hstack : x.stack ≠ none)
    (hterm : x.state ≠ .term) : ∃ y, q.Has f y := by
  cases h with
  | calm h => exact h.onward.has hx fun hx => h.stays f x hx hstack hterm
  | resume _ _ _ h =>
    apply h.onward.has hx
    intro hx
    obtain ⟨hmoved, -, -, -, -, -, -, -, h⟩ := h
    obtain ⟨y, hy⟩ := hmoved.stays f x hx hstack hterm
    exact h.has hy
  | yield _ _ h =>
    apply h.onward.has hx
    intro hx
    obtain ⟨hmoved, -, -, -, -, -, -, -, -, h⟩ := h
    obtain ⟨y, hy⟩ := hmoved.stays f x hx hstack hterm
    exact h.has hy
  | finish _ h =>
    apply h.onward.has hx
    intro hx
    obtain ⟨-, -, -, -, like, -, -, -, h⟩ := h
    have hy := like.fibers f
    rw [Thread.get?_terminate, hx] at hy
    split at hy <;> exact h.has hy
  | reset _ _ _ h =>
    apply h.onward.has hx
    intro hx
    obtain ⟨hmoved, -, -, -, like, -, -, -, hsame⟩ := h
    obtain ⟨y, hy⟩ := hmoved.stays f x hx hstack hterm
    have hz := like.fibers f
    rw [Thread.get?_renew, hy] at hz
    rw [hsame, hz]
    split <;> exact ⟨_, rfl⟩
  | @launch label program p₁ hmoved _ _ _ hj he =>
    obtain ⟨y, t, ht, hy⟩ := hmoved.onward.has hx fun hx => hmoved.stays f x hx hstack hterm
    refine ⟨y, t, List.mem_cons_of_mem _ ?_, hy⟩
    rwa [hj, he]
  | @join joiner rest p₁ p₂ hclosed hj ht hj' he _ _ hq hsame =>
    obtain ⟨y, t, hmem, hy⟩ := hclosed.onward.has hx fun hx => ⟨x, hclosed.tasks f x hx hstack⟩
    refine ⟨y, t, ?_, hy⟩
    rwa [hq.onward.everyThread hsame, mem_everyThread_join hj ht hj' he]

/-- The callback of the fiber has completed. -/
def Completes (p : Process) (f : Nat) : Prop :=
  ∃ outcome, p.thread.running.code = .returned (.callback f) outcome

/-- What has started lasts, on its stack, unless its callback completes. -/
theorem Lawful.started_step (h : p.Lawful) (hq : Act.step p = .ok () q) (hx : p.Has f x)
    (hs : x.Started) (hc : ¬p.Completes f) : ∃ y, q.Has f y ∧ y.Started ∧ y.stack = x.stack := by
  obtain ⟨y, hy⟩ := (h.step hq).1.stays hx hs.task hs.unterminated
  obtain ⟨hstack, ha, hcallback⟩ := h.step_alters hq hx hy
  refine ⟨y, hy, ⟨hstack ▸ hs.task, ?_, ?_⟩, hstack⟩
  · have hterm := hs.unterminated
    cases ha with
    | stay hstate => exact hstate ▸ hterm
    | enter _ _ _ _ hstate => simp [hstate]
    | back hstate => exact hstate ▸ hterm
    | wait _ _ hstate => exact hstate ▸ hterm
    | yield _ _ _ hstate => simp [hstate, State.yielded, hterm]
    | finish hcode => exact (hc ⟨_, hcode⟩).elim
    | reset _ _ _ hterm' => exact (hterm hterm').elim
  · cases hcallback with
    | keep hsame => exact hsame.trans hs.taken
    | begin _ hnone => exact hnone
    | install hterm => exact (hs.unterminated hterm).elim

theorem Lawful.started_run (h : p.Lawful) (hx : p.Has f x) (hs : x.Started)
    (hrun : p.run n = (none, q))
    (hc : ∀ m p', m < n → p.run m = (none, p') → ¬p'.Completes f) :
    ∃ y, q.Has f y ∧ y.Started ∧ y.stack = x.stack := by
  have hboth : q.Lawful ∧ ∃ y, q.Has f y ∧ y.Started ∧ y.stack = x.stack := by
    refine run_induction_along (P := fun q => q.Lawful ∧ ∃ y, q.Has f y ∧ y.Started ∧
      y.stack = x.stack) (R := fun q => ¬q.Completes f) ?_ ⟨h, x, hx, hs, rfl⟩ hc hrun
    rintro p q ⟨hp, y, hy, hstarted, hstack⟩ hc hq
    obtain ⟨z, hz, hstarted, hstack'⟩ := hp.started_step hq hy hstarted hc
    exact ⟨(hp.step hq).2, z, hz, hstarted, hstack'.trans hstack⟩
  exact hboth.2

/-- What was not underway and then is has begun by its start. -/
theorem Lawful.begun_step (h : p.Lawful) (hp : p.Upheld) (hq : Act.step p = .ok () q)
    (hprimed : q.Primed) (hupheld : q.Upheld) (hf : q.Underway f) :
    p.Underway f ∨ p.thread.running.code = .entry f := by
  obtain ⟨y, hy, hs⟩ := hupheld.underway_iff.mp hf
  rcases (h.step hq).1.descends h.ordered hy with ⟨x, hx, hstack, ha, hcallback⟩ | hnew
  · have hkeep (hterm : x.state ≠ .term) (htaken : x.callback = none) : p.Underway f :=
      hp.underway_iff.mpr ⟨x, hx, hstack ▸ hs.task, hterm, htaken⟩
    cases hcallback with
    | begin hcode => exact .inr hcode
    | install _ _ huntaken => exact (huntaken hs.taken).elim
    | keep hsame =>
      have htaken := hsame.symm.trans hs.taken
      have hterm := hs.unterminated
      cases ha with
      | stay hstate => exact .inl (hkeep (hstate ▸ hterm) htaken)
      | enter _ _ _ hready => exact .inl (hkeep (by simp [hready]) htaken)
      | back hstate => exact .inl (hkeep (hstate ▸ hterm) htaken)
      | wait _ _ hstate => exact .inl (hkeep (hstate ▸ hterm) htaken)
      | yield _ _ _ hstate =>
        refine .inl (hkeep (fun hterm' => hterm ?_) htaken)
        rw [hstate, hterm', State.yielded, if_pos rfl]
      | finish _ _ _ hstate => exact (hterm hstate).elim
      | reset _ _ _ _ _ hcontext =>
        -- Its new start rests in it, so that it has a new callback.
        obtain ⟨t, ht, hy⟩ := hy
        exact (((hprimed t ht).callback f y hy).mpr (.inr ⟨_, hcontext, rfl⟩) hs.taken).elim
  · exact (hs.task (hnew.callback.mp hs.taken)).elim

end Process
end Fibers
