import Fibers.Proofs.Return

/-! The root of a thread and its current fiber.

A thread gets its root once, when it first needs a current fiber, and keeps it to its end. From
then on there is a current fiber, alive and running. The program of the thread executes exactly
while the root is current; at all other times it waits in the root, inside of the last `resume`
it made, and every yield and every end of a callback continues it there. -/
namespace Fibers

/-- A program's code inside of a `resume`, with no other switch to return from. -/
def Code.Pending (code : Code) : Prop :=
  ∃ (frame : Frame) (label : Label) (f : Nat) (rest : List Task),
    code = .active {frame with todo := .resumed label f :: rest} ∧ frame.origin = .program ∧
    ∀ task ∈ rest, task.Plain

/-- Whether an action yields the current fiber. -/
def Action.isYield : Action → Bool
  | .yield => true
  | _ => false

theorem Action.of_isYield {action : Action} (h : action.isYield = true) : action = .yield := by
  cases action <;> simp_all [Action.isYield]

namespace Thread

/-- The context rests in the fiber, which is a root. -/
def Shelters (t : Thread) (r : Nat) (k : Context) : Prop :=
  ∃ x, t.fibers.get? r = some x ∧ x.stack = none ∧ x.context = some k

/-- The executing code is about to leave its fiber for the root. -/
inductive Leaves (t : Thread) : Prop
  | yield {op : Op} {frame : Frame} {rest : List Task} (hop : t.Performs op frame rest)
    (ha : op.action = .yield) : Leaves t
  | yieldOf {op : Op} {frame : Frame} {rest : List Task} {s : String} {f : Nat}
    (hop : t.Performs op frame rest) (ha : op.action = .yieldOf s)
    (hs : t.slots.get? s = some f) : Leaves t
  | finish {f : Nat} {outcome : Outcome}
    (hcode : t.running.code = .returned (.callback f) outcome) : Leaves t

/-- How the root and the current fiber of a thread stand to each other. -/
structure Anchored (t : Thread) : Prop where
  unset : t.current = none ↔ t.root = none
  current : ∀ c, t.current = some c → ∃ x, t.fibers.get? c = some x ∧ x.state = .running
  root : ∀ r, t.root = some r → ∃ x, t.fibers.get? r = some x ∧ x.stack = none ∧
    x.state = .running ∧ (x.context = none ↔ t.current = some r)
  /-- There is no other root. -/
  only : ∀ f x, t.fibers.get? f = some x → x.stack = none → t.root = some f
  /-- What rests in the root is the program, inside of a `resume`. -/
  pending : ∀ r k, t.Shelters r k → k.code.Pending
  program_iff : t.running.code.origin = .program ↔ t.current = t.root

theorem Orderly.anchored {t : Thread} {n : Nat} (h : t.Orderly n)
    (hp : ∀ r k, t.Shelters r k → k.code.Pending) : t.Anchored where
  unset := ⟨h.toAttended.root_none, fun hr => (h.unrooted hr).1⟩
  current _ hc := (h.current_running hc).2
  root r hr := by
    obtain ⟨x, hx⟩ := h.toCounted.root_alive hr
    have hstack := (h.root_iff r x hx).mpr hr
    exact ⟨x, hx, hstack, h.running r x hx hstack, h.away r x hx hstack⟩
  only f x hx := (h.root_iff f x hx).mp
  pending := hp
  program_iff := h.program_iff

end Thread

namespace Process

variable {p q : Process} {source home f r n : Nat} {state : State} {op : Op} {frame : Frame}
  {rest : List Task} {k : Context}

/-! ### What rests in the root -/

/-- Moves leave what rests in a root. -/
theorem Calm.sheltered (h : p.Calm q) (hk : q.thread.Shelters r k) : p.thread.Shelters r k := by
  obtain ⟨y, hy, hstack, hk⟩ := hk
  rcases h.fibers r y hy with ⟨x, hx, -, hs, hc⟩ | hm
  · exact ⟨x, hx, hs ▸ hstack, hc ▸ hk⟩
  · exact ((hm.start k hk).1 hstack).elim

/-- A switch puts code into a root only if that is what it leaves. -/
theorem Switch.sheltered (h : p.Switch source home state q) (hk : q.thread.Shelters r k) :
    p.thread.Shelters r k ∨
      r = home ∧ k.code = p.thread.running.code ∧
        ∃ y, p.thread.fibers.get? home = some y ∧ y.stack = none := by
  obtain ⟨-, hy, -, -, like, -, -⟩ := h
  obtain ⟨z, hz, hstack, hk⟩ := hk
  rw [like.fibers] at hz
  obtain ⟨rfl, rfl⟩ | ⟨rfl, rfl⟩ | ⟨-, -, hz⟩ := Thread.switch_cases hz
  · cases hk
    exact .inr ⟨rfl, rfl, _, hy, hstack⟩
  · cases hk
  · exact .inl ⟨z, hz, hstack, hk⟩

/-- A context comes to rest in a root when the program resumes a fiber, and in no other way. -/
def Files (p : Process) (code : Code) : Prop :=
  ∃ op frame rest f, p.thread.Performs op frame rest ∧
    (∃ s, op.action = .resume s ∧ p.thread.slots.get? s = some f) ∧ frame.origin = .program ∧
    code = .active {frame with todo := .resumed op.label f :: rest}

theorem Resumed.sheltered (h : p.Resumed op frame rest f q) (hk : q.thread.Shelters r k) :
    p.thread.Shelters r k ∨ frame.origin = .program ∧
      k.code = .active {frame with todo := .resumed op.label f :: rest} := by
  obtain ⟨hstill, hcode, -, -, -, hy, -, hprogram, h⟩ := h
  rcases h.sheltered hk with hk | ⟨-, hk, y', hy', hstack⟩
  · exact .inl (hstill.sheltered hk)
  · rw [hy] at hy'
    cases hy'
    exact .inr ⟨hprogram.mp hstack, hk.trans hcode⟩

theorem Yielded.sheltered {named : Option Nat} (h : p.Yielded op frame rest named f q)
    (hk : q.thread.Shelters r k) : p.thread.Shelters r k := by
  obtain ⟨hstill, -, -, hx, hstack, -, -, -, -, h⟩ := h
  rcases h.sheltered hk with hk | ⟨-, -, x', hx', hnone⟩
  · exact hstill.sheltered hk
  · rw [hx] at hx'
    cases hx'
    exact (hstack hnone).elim

theorem sheltered_terminate {x : Fiber} (like : (p.thread.terminate f x).Like q.thread)
    (hstack : x.stack ≠ none) (hk : q.thread.Shelters r k) : p.thread.Shelters r k := by
  obtain ⟨y, hy, hroot, hk⟩ := hk
  rw [like.fibers] at hy
  obtain ⟨rfl, rfl⟩ | ⟨-, hy⟩ := Table.set_cases hy
  · exact (hstack hroot).elim
  · exact ⟨y, hy, hroot, hk⟩

theorem Finished.sheltered (h : p.Finished f q) (hk : q.thread.Shelters r k) :
    p.thread.Shelters r k := by
  obtain ⟨hx, hstack, -, -, like, -, -, -, h⟩ := h
  rcases h.sheltered hk with hk | ⟨-, -, y, hy, hroot⟩
  · exact sheltered_terminate like hstack hk
  · rw [like.fibers, Thread.get?_terminate, if_pos rfl] at hy
    cases hy
    exact (hstack hroot).elim

theorem Renewed.sheltered (h : p.Renewed f q) (hk : q.thread.Shelters r k) :
    p.thread.Shelters r k := by
  obtain ⟨hstill, -, hstack, -, like, -, -, hq⟩ := h
  obtain ⟨y, hy, hroot, hk⟩ := hq.sheltered hk
  rw [like.fibers] at hy
  obtain ⟨rfl, rfl⟩ | ⟨-, hy⟩ := Table.set_cases hy
  · exact (hstack hroot).elim
  · exact hstill.sheltered ⟨y, hy, hroot, hk⟩

theorem Turn.sheltered (h : p.Turn q) : ∀ t ∈ q.threads, ∀ r k, t.Shelters r k →
    (∃ u ∈ p.threads, u.Shelters r k) ∨ p.Files k.code := by
  have here : p.thread ∈ p.threads := List.mem_cons_self ..
  refine h.threads (fun t ht r k hk => .inl ⟨t, ht, hk⟩) (fun _ _ r k hk => ?_)
    (fun p₁ p₂ hmem _ hmoved r k hk => .inl ⟨_, hmem, hmoved.sheltered hk⟩)
    (fun op frame rest s f hop ha hs hq r k hk => ?_)
    (fun _ _ _ _ _ _ _ hq r k hk => .inl ⟨_, here, hq.sheltered hk⟩)
    (fun _ _ _ hq r k hk => .inl ⟨_, here, hq.sheltered hk⟩)
    fun _ _ _ _ _ _ _ _ _ hq r k hk => .inl ⟨_, here, hq.sheltered hk⟩
  · obtain ⟨_, hx, -⟩ := hk
    cases hx
  · rcases hq.sheltered hk with hk | ⟨ho, hk⟩
    · exact .inl ⟨_, here, hk⟩
    · exact .inr ⟨op, frame, rest, f, hop, ⟨s, ha, hs⟩, ho, hk⟩

/-- Every root that waits, waits inside of a `resume`. -/
def Pending (p : Process) : Prop := ∀ t ∈ p.threads, ∀ r k, t.Shelters r k → k.code.Pending

theorem Pending.turn (h : p.Pending) (ht : p.Turn q) (hp : p.Ordered) : q.Pending := by
  intro t hmem r k hk
  rcases ht.sheltered t hmem r k hk with ⟨u, hu, hk⟩ | ⟨op, frame, rest, f, hop, -, ho, hk⟩
  · exact h u hu r k hk
  · exact ⟨frame, op.label, f, rest, hk, ho, hp.rest_plain hop.code hop.todo⟩

/-! ### Back to the root -/

theorem Switch.goes_back (h : p.Switch source home state q) {z : Fiber}
    (hz : p.thread.fibers.get? source = some z) (hroot : z.stack = none) :
    p.thread.Shelters source q.thread.running ∧ q.thread.current = some source := by
  refine ⟨⟨z, hz, hroot, h.running hz⟩, ?_⟩
  obtain ⟨-, -, -, -, like, -, -⟩ := h
  exact like.current

theorem Yielded.goes_back {named : Option Nat} (h : p.Yielded op frame rest named f q) :
    ∃ r, p.thread.Shelters r q.thread.running ∧ q.thread.current = some r := by
  obtain ⟨hstill, -, -, -, -, -, hz, hroot, -, h⟩ := h
  obtain ⟨hk, hc⟩ := h.goes_back hz hroot
  exact ⟨_, hstill.sheltered hk, hc⟩

theorem Finished.goes_back (h : p.Finished f q) :
    ∃ r, p.thread.Shelters r q.thread.running ∧ q.thread.current = some r := by
  obtain ⟨-, hstack, -, -, like, hz, hroot, -, h⟩ := h
  obtain ⟨hk, hc⟩ := h.goes_back hz hroot
  exact ⟨_, sheltered_terminate like hstack hk, hc⟩

/-- Whatever leaves a fiber continues what rests in the root. -/
theorem Lawful.step_leaves (h : p.Lawful) (hl : p.thread.Leaves) (hq : Act.step p = .ok () q) :
    ∃ r, p.thread.Shelters r q.thread.running ∧ q.thread.current = some r := by
  have hp := h.ordered
  cases hl with
  | yield hop ha =>
    obtain ⟨-, ⟨c, -, hyielded⟩, -⟩ := (Act.step_yield_leads hp hop ha).ok hq
    exact hyielded.goes_back
  | yieldOf hop ha hs =>
    obtain ⟨x, hx⟩ := hp.slot_alive hs
    obtain ⟨-, -, -, hyielded, -⟩ := (Act.step_yieldOf_leads hp hop ha hs hx).ok hq
    exact hyielded.goes_back
  | finish hcode =>
    obtain ⟨x, hx, -⟩ := hp.thread.toSound.returned hcode
    obtain ⟨-, hfinished, -⟩ := (Act.step_finish_leads hp hcode hx).ok hq
    exact hfinished.goes_back

/-! ### What rests there waits -/

theorem shelters_root {t : Thread} (h : t.Rooted) (hk : t.Shelters r k) :
    t.root = some r ∧ t.current ≠ some r := by
  obtain ⟨x, hx, hstack, hk⟩ := hk
  refine ⟨(h.root_iff r x hx).mp hstack, fun hc => ?_⟩
  simp [(h.away r x hx hstack).mpr hc] at hk

theorem shelters_unique {t : Thread} {r' : Nat} {k' : Context} (h : t.Rooted)
    (hk : t.Shelters r k) (hk' : t.Shelters r' k') : r = r' ∧ k = k' := by
  have hr := (shelters_root h hk).1
  rw [(shelters_root h hk').1] at hr
  cases hr
  obtain ⟨x, hx, -, hk⟩ := hk
  obtain ⟨x', hx', -, hk'⟩ := hk'
  rw [hx] at hx'
  cases hx'
  rw [hk] at hk'
  exact ⟨rfl, Option.some.inj hk'⟩

theorem Moved.shelters {hand : List Nat} (h : p.Moved q) (hp : p.thread.Steady n hand)
    (hn : n ≤ p.nextId) (hk : p.thread.Shelters r k) : q.thread.Shelters r k := by
  obtain ⟨y, hy⟩ := h.steady.toCounted.root_alive (h.root r (shelters_root hp.toRooted hk).1)
  obtain ⟨x, hx, hstack, hk⟩ := hk
  obtain ⟨x', hx', -, hs, hc⟩ := h.between (Nat.lt_of_lt_of_le (hp.below r x hx) hn) hy
  rw [hx] at hx'
  cases hx'
  exact ⟨y, hy, hs.trans hstack, hc.trans hk⟩

theorem Switch.keeps_shelters (h : p.Switch source home state q) (hs : r ≠ source)
    (hh : r ≠ home) (hk : p.thread.Shelters r k) : q.thread.Shelters r k := by
  obtain ⟨-, -, -, -, like, -, -⟩ := h
  obtain ⟨x, hx, hk⟩ := hk
  refine ⟨x, ?_, hk⟩
  simp [like.fibers, Thread.switch, Thread.handOver, Table.get?_set, hs, hh, hx]

/-- The program is not disturbed when other code resumes a fiber. -/
theorem Resumed.keeps_shelters (h : p.Resumed op frame rest f q)
    (hp : p.thread.Steady p.nextId []) (hk : p.thread.Shelters r k) : q.thread.Shelters r k := by
  obtain ⟨hmoved, -, hx, hready, hc, -, -, -, h⟩ := h
  have hk := hmoved.shelters hp (Nat.le_refl _) hk
  refine h.keeps_shelters (fun hf => ?_) (fun hf => ?_) hk
  · obtain ⟨x', hx', hstack, -⟩ := hk
    rw [hf, hx] at hx'
    cases hx'
    have := hmoved.steady.running _ _ hx hstack
    simp [hready] at this
  · exact (shelters_root hmoved.steady.toRooted hk).2 (hf ▸ hc)

theorem Renewed.keeps_shelters (h : p.Renewed f q) (hp : p.thread.Steady p.nextId [])
    (hk : p.thread.Shelters r k) : q.thread.Shelters r k := by
  obtain ⟨hmoved, hx, hstack, hterm, like, -, honward, hq⟩ := h
  have hk := hmoved.shelters hp (Nat.le_refl _) hk
  refine hq.shelters (steady_of_like like (steady_renew hmoved.steady hx hstack hterm)
    honward.nextId) (Nat.le_refl _) ?_
  obtain ⟨y, hy, hroot, hk⟩ := hk
  refine ⟨y, ?_, hroot, hk⟩
  have hne : r ≠ f := by
    rintro rfl
    rw [hx] at hy
    cases hy
    exact hstack hroot
  rw [like.fibers, Thread.get?_renew, if_neg hne, hy]

/-- What rests in a root stays there until the root goes on with it. -/
theorem Turn.keeps_shelters (h : p.Turn q) (hp : p.Ordered) {t : Thread} (ht : t ∈ p.threads)
    (hk : t.Shelters r k) : (∃ u ∈ q.threads, u.Shelters r k) ∨
      t = p.thread ∧ p.thread.Leaves ∧ q.thread.running = k ∧ q.thread.current = some r := by
  have hsteady := hp.thread.toSteady
  -- What happens on the executing thread alone leaves the others as they are.
  have hbeside (hq : p.Onward q) (h : t = p.thread → q.thread.Shelters r k ∨
      p.thread.Leaves ∧ q.thread.running = k ∧ q.thread.current = some r) :
      (∃ u ∈ q.threads, u.Shelters r k) ∨
        t = p.thread ∧ p.thread.Leaves ∧ q.thread.running = k ∧ q.thread.current = some r := by
    rcases List.mem_cons.mp ht with rfl | ht
    · exact (h rfl).imp (fun hk => ⟨_, List.mem_cons_self .., hk⟩) fun h => ⟨rfl, h⟩
    · rw [← hq.joining] at ht
      exact .inl ⟨t, List.mem_cons_of_mem _ ht, hk⟩
  have hback (hl : p.thread.Leaves)
      (h : ∃ r, p.thread.Shelters r q.thread.running ∧ q.thread.current = some r)
      (ht : t = p.thread) : q.thread.Shelters r k ∨
        p.thread.Leaves ∧ q.thread.running = k ∧ q.thread.current = some r := by
    obtain ⟨r', hk', hc⟩ := h
    obtain ⟨rfl, rfl⟩ := shelters_unique hsteady.toRooted hk' (ht ▸ hk)
    exact .inr ⟨hl, rfl, hc⟩
  cases h with
  | calm h =>
    exact hbeside h.onward fun ht => .inl (h.shelters hsteady (Nat.le_refl _) (ht ▸ hk))
  | resume _ _ _ h => exact hbeside h.onward fun ht => .inl (h.keeps_shelters hsteady (ht ▸ hk))
  | yield hop ha h =>
    refine hbeside h.onward (hback ?_ h.goes_back)
    rcases ha with ⟨ha, -⟩ | ⟨s, ha, -, hs⟩
    · exact .yield hop ha
    · exact .yieldOf hop ha hs
  | finish hcode h => exact hbeside h.onward (hback (.finish hcode) h.goes_back)
  | reset _ _ _ h => exact hbeside h.onward fun ht => .inl (h.keeps_shelters hsteady (ht ▸ hk))
  | @launch label program p₁ hmoved _ _ _ hj =>
    refine .inl ?_
    rcases List.mem_cons.mp ht with rfl | ht
    · refine ⟨p₁.thread, ?_, hmoved.shelters hsteady (Nat.le_refl _) hk⟩
      simp [Process.threads, hj]
    · refine ⟨t, ?_, hk⟩
      rw [← hmoved.onward.joining] at ht
      simp [Process.threads, hj, List.mem_map.mp ht]
  | @join joiner rest p₁ p₂ hclosed hj ht' hj' _ hid _ hq =>
    refine .inl ?_
    rcases List.mem_cons.mp ht with rfl | ht
    · -- A program that is over was executing, so that nothing rested in its root.
      obtain ⟨hr, hc⟩ := shelters_root hsteady.toRooted hk
      exact (hc ((hsteady.program_iff.mp hclosed.program).trans hr)).elim
    · have hmem : t = joiner.thread ∨ t ∈ rest.map Joiner.thread := by
        rw [← hclosed.onward.joining, hj] at ht
        exact List.mem_cons.mp ht
      rcases hmem with rfl | hmem
      · have hsteady₂ : p₂.thread.Steady p.nextId [] := by
          rw [ht']
          exact (hp _ (List.mem_cons_of_mem _ ht)).toSteady
        refine ⟨q.thread, List.mem_cons_self .., hq.shelters hsteady₂ ?_ (ht' ▸ hk)⟩
        rw [hid]
        exact hclosed.onward.nextId
      · refine ⟨t, List.mem_cons_of_mem _ ?_, hk⟩
        rwa [hq.onward.joining, hj']

/-! ### The root stays -/

theorem Switch.root (h : p.Switch source home state q) : q.thread.root = p.thread.root := by
  obtain ⟨-, -, -, -, like, -, -⟩ := h
  exact like.root

theorem Resumed.root (h : p.Resumed op frame rest f q) (hr : p.thread.root = some r) :
    q.thread.root = some r := by
  obtain ⟨hstill, -, -, -, -, -, -, -, h⟩ := h
  exact h.root.trans (hstill.root r hr)

theorem Yielded.root {named : Option Nat} (h : p.Yielded op frame rest named f q)
    (hr : p.thread.root = some r) : q.thread.root = some r := by
  obtain ⟨hstill, -, -, -, -, -, -, -, -, h⟩ := h
  exact h.root.trans (hstill.root r hr)

theorem Finished.root (h : p.Finished f q) (hr : p.thread.root = some r) :
    q.thread.root = some r := by
  obtain ⟨-, -, -, -, like, -, -, -, h⟩ := h
  exact h.root.trans (like.root.trans hr)

theorem Renewed.root (h : p.Renewed f q) (hr : p.thread.root = some r) :
    q.thread.root = some r := by
  obtain ⟨hstill, -, -, -, like, -, -, hq⟩ := h
  exact hq.root r (like.root.trans (hstill.root r hr))

/-- The root of the thread under which so many others wait or would wait: the first thread of
the process is at depth zero, and a thread it starts at depth one. -/
def rootAt (d : Nat) (p : Process) : Option Nat := p.threads.reverse[d]?.bind Thread.root

theorem rootAt_here (p : Process) : p.rootAt p.joining.length = p.thread.root := by
  simp [rootAt, threads]

theorem rootAt_below {d : Nat} (h : d < p.joining.length) :
    p.rootAt d = (p.joining.map Joiner.thread).reverse[d]?.bind Thread.root := by
  simp [rootAt, threads, List.getElem?_append, h]

theorem rootAt_push {t : Thread} {d : Nat} (h : q.threads = t :: p.threads)
    (hd : d ≤ p.joining.length) : q.rootAt d = p.rootAt d := by
  have hlen : d < p.threads.reverse.length := by
    simp [threads]
    omega
  rw [rootAt, h, List.reverse_cons, List.getElem?_append_left hlen]
  rfl

theorem depth_of_rootAt {d : Nat} (h : p.rootAt d = some r) : d ≤ p.joining.length := by
  by_cases hd : d < p.threads.reverse.length
  · simp [threads] at hd
    omega
  · simp [rootAt, List.getElem?_eq_none (Nat.le_of_not_lt hd)] at h

/-- What happens on the executing thread alone keeps the roots if that thread does. -/
theorem Onward.rootAt {d : Nat} (h : p.Onward q)
    (hroot : ∀ r, p.thread.root = some r → q.thread.root = some r) (hr : p.rootAt d = some r) :
    q.rootAt d = some r := by
  by_cases hd : d < p.joining.length
  · rw [rootAt_below hd] at hr
    rwa [rootAt_below (by rwa [h.joining]), h.joining]
  · obtain rfl : d = p.joining.length := by
      have := depth_of_rootAt hr
      omega
    rw [rootAt_here] at hr
    rw [← h.joining, rootAt_here]
    exact hroot r hr

theorem Turn.rootAt {d : Nat} (h : p.Turn q) (hd : d ≤ q.joining.length)
    (hr : p.rootAt d = some r) : q.rootAt d = some r := by
  cases h with
  | calm h => exact h.onward.rootAt h.root hr
  | resume _ _ _ h => exact h.onward.rootAt (fun _ => h.root) hr
  | yield _ _ h => exact h.onward.rootAt (fun _ => h.root) hr
  | finish _ h => exact h.onward.rootAt (fun _ => h.root) hr
  | reset _ _ _ h => exact h.onward.rootAt (fun _ => h.root) hr
  | @launch label program p₁ hstill ht _ _ hj =>
    have hr := hstill.onward.rootAt hstill.root hr
    rwa [rootAt_push (p := p₁) (by rw [Process.threads, hj]; rfl) (depth_of_rootAt hr)]
  | @join joiner rest p₁ p₂ hclosed hj ht hj' _ _ _ hq =>
    have hd : d ≤ p₂.joining.length := hq.onward.joining ▸ hd
    have hlt : d < p.joining.length := by
      rw [← hclosed.onward.joining, hj, List.length_cons, ← hj']
      omega
    -- The root that is given up is that of the thread above.
    have hr : p₁.rootAt d = some r := by
      rw [rootAt_below hlt] at hr
      rwa [rootAt_below (by rwa [hclosed.onward.joining]), hclosed.onward.joining]
    refine hq.onward.rootAt hq.root ?_
    rwa [← rootAt_push (p := p₂) (q := p₁)
      (by rw [Process.threads, Process.threads, hj, ht, hj']; rfl) hd]

/-- A thread that is started has no root yet. -/
theorem Turn.starts (h : p.Turn q) (hlt : p.joining.length < q.joining.length) :
    q.thread.root = none ∧ q.thread.current = none := by
  cases h with
  | launch _ ht =>
    rw [ht]
    exact ⟨rfl, rfl⟩
  | calm h => simp [h.onward.joining] at hlt
  | resume _ _ _ h => simp [h.onward.joining] at hlt
  | yield _ _ h => simp [h.onward.joining] at hlt
  | finish _ h => simp [h.onward.joining] at hlt
  | reset _ _ _ h => simp [h.onward.joining] at hlt
  | join hclosed hj _ hj' _ _ _ hq =>
    rw [← hclosed.onward.joining, hj, hq.onward.joining, hj', List.length_cons] at hlt
    omega

/-- A thread keeps its root as long as it lasts. -/
theorem Lawful.rootAt_run {d : Nat} (h : p.Lawful) (hr : p.rootAt d = some r)
    (hrun : p.run n = (none, q))
    (hlasts : ∀ m p', m ≤ n → p.run m = (none, p') → d ≤ p'.joining.length) :
    q.rootAt d = some r := by
  induction n generalizing p with
  | zero =>
    cases hrun
    exact hr
  | succ n ih =>
    rw [Process.run] at hrun
    split at hrun
    · next p' hs =>
      obtain ⟨hturn, hp'⟩ := h.step hs
      have hd := hlasts 1 p' (Nat.succ_le_succ (Nat.zero_le n)) (by rw [run_succ hs, Process.run])
      refine ih hp' (hturn.rootAt hd hr) hrun fun m p'' hm hrun' => ?_
      exact hlasts (m + 1) p'' (Nat.succ_le_succ hm) ((run_succ hs).trans hrun')
    · cases hrun

end Process

/-! ### All runs -/

theorem Scenario.Reaches.pending {s : Scenario} {p : Process} (h : s.Reaches p) : p.Pending := by
  obtain ⟨n, hrun⟩ := h
  have hboth : p.Lawful ∧ p.Pending := by
    refine Process.run_induction (P := fun p => p.Lawful ∧ p.Pending) (fun p q ⟨hp, h⟩ hq => ?_)
      ⟨s.lawful, fun t ht r k hk => ?_⟩ hrun
    · obtain ⟨hturn, hq⟩ := hp.step hq
      exact ⟨hq, h.turn hturn hp.ordered⟩
    · obtain rfl := List.mem_singleton.mp ht
      obtain ⟨_, hx, -⟩ := hk
      cases hx
  exact hboth.2

/-- What roots and current fibers are in a process, and what steps make of them. -/
structure Process.RootsHold (p : Process) : Prop where
  anchored : ∀ t ∈ p.threads, t.Anchored
  starts : ∀ q, Act.step p = .ok () q → p.joining.length < q.joining.length →
    q.thread.root = none ∧ q.thread.current = none
  /-- A thread keeps its root as long as it lasts. -/
  one : ∀ d r n q, p.rootAt d = some r → p.run n = (none, q) →
    (∀ m p', m ≤ n → p.run m = (none, p') → d ≤ p'.joining.length) → q.rootAt d = some r
  /-- What comes to rest in a root is a program, inside of the `resume` it just made. -/
  files : ∀ q, Act.step p = .ok () q → ∀ t ∈ q.threads, ∀ r k, t.Shelters r k →
    (∃ u ∈ p.threads, u.Shelters r k) ∨ p.Files k.code
  /-- It waits there until something leaves a fiber for the root. -/
  waits : ∀ q, Act.step p = .ok () q → ∀ t ∈ p.threads, ∀ r k, t.Shelters r k →
    (∃ u ∈ q.threads, u.Shelters r k) ∨
      t = p.thread ∧ p.thread.Leaves ∧ q.thread.running = k ∧ q.thread.current = some r
  /-- Whatever leaves a fiber continues the program, which returns from that `resume`. -/
  back : ∀ q, Act.step p = .ok () q → p.thread.Leaves → ∃ r,
    p.thread.Shelters r q.thread.running ∧ q.thread.root = some r ∧ q.thread.current = some r ∧
    ∃ (frame : Frame) (label : Label) (f : Nat) (rest : List Task),
      q.thread.running.code = .active {frame with todo := .resumed label f :: rest} ∧
      frame.origin = .program ∧ ∀ q', Act.step q = .ok () q' →
        ∃ state, q'.answers = (label, .state state) :: q.answers

/-- **The root and the current fiber.** In every process that a scenario comes to, every thread
has one root at most. It has a current fiber from when it has a root, and that fiber is alive
and runs. The program executes exactly while the root is current; otherwise it rests in the root,
inside of the one `resume` it has not returned from, and it goes on from there when a fiber is
left, however deep the resumes are nested. -/
theorem roots_hold (s : Scenario) {p : Process} (hp : s.Reaches p) : p.RootsHold where
  anchored t ht := (hp.lawful.ordered t ht).anchored (hp.pending t ht)
  starts _ hq := (hp.lawful.step hq).1.starts
  one _ _ _ _ hr hrun hlasts := hp.lawful.rootAt_run hr hrun hlasts
  files _ hq := (hp.lawful.step hq).1.sheltered
  waits _ hq _ ht _ _ hk := (hp.lawful.step hq).1.keeps_shelters hp.lawful.ordered ht hk
  back q hq hl := by
    obtain ⟨-, hlawful⟩ := hp.lawful.step hq
    obtain ⟨r, hk, hc⟩ := hp.lawful.step_leaves hl hq
    obtain ⟨frame, label, f, rest, hcode, ho, -⟩ := hp.pending _ (List.mem_cons_self ..) r _ hk
    obtain ⟨-, r', hr, hc'⟩ := Act.resumed_program hlawful.ordered hcode rfl
    obtain rfl : r = r' := Option.some.inj (hc.symm.trans hc')
    refine ⟨r, hk, hr, hc, frame, label, f, rest, hcode, ho, fun q' hq' => ?_⟩
    obtain ⟨-, -, x, -, -, -, hanswers⟩ :=
      (Act.step_resumed_leads hlawful.ordered hcode rfl hr).ok hq'
    exact ⟨x.state, hanswers⟩

/-- The callback of `k` is about to yield, two resumes deep. -/
def Process.relayed : Process := (Scenario.relay.process.run 7).2

open Process in
theorem relay_roots_hold : Scenario.relay.Reaches relayed ∧ relayed.thread.Leaves ∧
    relayed.thread.root = some 2 ∧ relayed.thread.current = some 0 ∧
    ∃ q, Act.step relayed = .ok () q ∧ relayed.thread.Shelters 2 q.thread.running ∧
      q.thread.current = some 2 := by
  have hp : Scenario.relay.Reaches relayed := Scenario.reaches_run (by decide +kernel)
  have hcode : relayed.thread.performs?.any
      (·.1.action.isYield) = true := by decide +kernel
  have hq : Act.step relayed = .ok () (relayed.run 1).2 := step_of_run (by decide +kernel)
  have hroot : relayed.thread.root = some 2 := by decide +kernel
  obtain ⟨⟨op, frame, rest⟩, hperforms, ha⟩ := (Option.any_eq_true ..).mp hcode
  have hleaves : relayed.thread.Leaves :=
    .yield (Thread.performs_of hperforms) (Action.of_isYield ha)
  have hholds := roots_hold _ hp
  obtain ⟨r, hk, -, hc, -⟩ := hholds.back _ hq hleaves
  obtain ⟨x, hx, hstack, -⟩ := id hk
  have hr := (hholds.anchored _ (List.mem_cons_self ..)).only r x hx hstack
  obtain rfl : r = 2 := Option.some.inj (hr.symm.trans hroot)
  exact ⟨hp, hleaves, hroot, by decide +kernel, _, hq, hk, hc⟩

end Fibers
