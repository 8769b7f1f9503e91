import Fibers.Proofs.Reach

/-! Starts.

A fiber that is made or reset is given a callback and a start, which resume enters and which takes
the callback. In between the two are together: the fiber has its callback exactly as long as its
start rests in it or executes (`Primed`). A start rests in no other fiber and is never lost. -/
namespace Fibers

namespace Thread

structure Primed (t : Thread) : Prop where
  /-- What a start rests in is its own fiber, ready to be resumed. -/
  rests : ∀ f x k g, t.fibers.get? f = some x → x.context = some k → k.code = .entry g →
    g = f ∧ x.state = .ready
  lost : ∀ k ∈ t.lost, ∀ f, k.code ≠ .entry f
  callback : ∀ f x, t.fibers.get? f = some x → (x.callback ≠ none ↔
    t.running.code = .entry f ∨ ∃ k, x.context = some k ∧ k.code = .entry f)

variable {t u : Thread} {f : Nat} {x : Fiber}

theorem primed_start (serial : Nat) (program : List Op) : (start serial program).Primed where
  rests _ _ _ _ h := nomatch h
  lost _ h := nomatch h
  callback _ _ h := nomatch h

theorem primed_of_like (h : t.Like u) (ht : t.Primed) : u.Primed where
  rests f x k g hx := ht.rests f x k g (h.fibers f ▸ hx)
  lost k hk := ht.lost k (h.lost ▸ hk)
  callback f x hx := by
    rw [h.running]
    exact ht.callback f x (h.fibers f ▸ hx)

/-- A fiber that is not ready is without its callback, unless its start executes. -/
theorem Primed.taken (h : t.Primed) (hx : t.fibers.get? f = some x) (hs : x.state ≠ .ready)
    (hrun : t.running.code ≠ .entry f) : x.callback = none := by
  by_contra hcallback
  rcases (h.callback f x hx).mp hcallback with hcode | ⟨k, hk, hcode⟩
  · exact hrun hcode
  · exact hs (h.rests f x k f hx hk hcode).2

/-- A fiber has one callback at most that is to begin or in progress. -/
theorem Sound.once {hand : List Nat} {k : Context} (h : t.Sound hand)
    (hrun : f ∈ t.running.code.unfinished) (hx : t.fibers.get? f = some x)
    (hk : x.context = some k) : f ∉ k.code.unfinished := by
  intro hmem
  have hu := h.unfinished f
  have hle := Table.le_total (Fiber.weigh fun k => k.code.unfinished.count f) hx
  have hdue : x.due ≤ 1 := by
    unfold Fiber.due
    split <;> omega
  rw [hx, Option.elim_some, Thread.unfinished, weigh] at hu
  rw [Fiber.weigh, hk, Option.elim_some] at hle
  have := List.count_pos_iff.mpr hrun
  have := List.count_pos_iff.mpr hmem
  omega

theorem primed_terminate {hand : List Nat} {outcome : Outcome} (h : t.Primed) (ht : t.Sound hand)
    (hcode : t.running.code = .returned (.callback f) outcome) (hx : t.fibers.get? f = some x) :
    (t.terminate f x).Primed where
  rests g y k e hy hk he := by
    obtain ⟨rfl, rfl⟩ | ⟨-, hy⟩ := Table.set_cases hy
    · obtain ⟨rfl, -⟩ := h.rests g x k e hx hk he
      refine (ht.once ?_ hx hk ?_).elim
      · rw [hcode]
        exact List.mem_singleton_self _
      · rw [he]
        exact List.mem_singleton_self _
    · exact h.rests g y k e hy hk he
  lost := h.lost
  callback g y hy := by
    have hspent : (t.terminate f x).running.code ≠ .entry g := fun he => nomatch he
    have hrun : t.running.code ≠ .entry g := by simp [hcode]
    rw [or_iff_right hspent]
    obtain ⟨rfl, rfl⟩ | ⟨-, hy⟩ := Table.set_cases hy
    · exact (h.callback g x hx).trans (or_iff_right hrun)
    · exact (h.callback g y hy).trans (or_iff_right hrun)

theorem primed_renew {serial : Nat} {callback : List Op} (h : t.Primed)
    (hx : t.fibers.get? f = some x) (hterm : x.state = .term) :
    (t.renew f x serial callback).Primed where
  rests g y k e hy hk he := by
    obtain ⟨rfl, rfl⟩ | ⟨-, hy⟩ := Table.set_cases hy
    · cases hk
      cases he
      exact ⟨rfl, rfl⟩
    · exact h.rests g y k e hy hk he
  lost k hk e he := by
    rcases List.mem_append.mp hk with hk | hk
    · have hready := (h.rests f x k e hx (Option.mem_toList.mp hk) he).2
      simp [hterm] at hready
    · exact h.lost k hk e he
  callback g y hy := by
    obtain ⟨rfl, rfl⟩ | ⟨-, hy⟩ := Table.set_cases hy
    · simp
    · exact h.callback g y hy

end Thread

namespace Process

variable {p q : Process} {source home f : Nat} {state : State} {x y : Fiber} {op : Op}
  {frame : Frame} {rest : List Task}

theorem Still.primed {hand hand' : List Nat} (h : p.Still q) (hp : p.thread.Steady p.nextId hand)
    (hq : q.thread.Steady q.nextId hand') (ht : p.thread.Primed) : q.thread.Primed where
  rests f y k g hy hk hcode := by
    rcases h.fibers f y hy with ⟨x, hx, hs, -, hc⟩ | hm
    · rw [hs]
      exact ht.rests f x k g hx (hc ▸ hk) hcode
    · obtain ⟨hstack, hstart⟩ := hm.start k hk
      rw [hstart] at hcode
      cases hcode
      exact ⟨rfl, hm.state.trans (if_neg hstack)⟩
  lost k hk g hcode := by
    rcases h.lost k hk with hk | ⟨f, x, hx, -, hterm, hk⟩
    · exact ht.lost k hk g hcode
    · have hready := (ht.rests f x k g hx hk hcode).2
      simp [hterm] at hready
  callback f y hy := by
    rcases h.fibers f y hy with ⟨x, hx, -, -, hc⟩ | hm
    · have hback := ht.callback f x hx
      rw [← hc] at hback
      rcases h.callback f x y hx hy with hsame | ⟨hcode, hnone, hgone⟩
      · -- A start that executes goes on only once it has taken the callback.
        rw [← hsame] at hback
        have hentry : q.thread.running.code = .entry f ↔ p.thread.running.code = .entry f := by
          refine ⟨h.entry f, fun hcode => ?_⟩
          rcases h.begun f x y hcode hx hy with hcode' | hnone
          · exact hcode'
          · exact (hback.mpr (.inl hcode) hnone).elim
        rw [hback, hentry]
      · have hrunning := hp.current_state (hp.starting f hcode) hx
        refine ⟨fun hcallback => (hcallback hnone).elim, ?_⟩
        rintro (hcode' | ⟨k, hk, hcode'⟩)
        · exact (hgone f hcode').elim
        · have hready := (ht.rests f x k f hx (hc ▸ hk) hcode').2
          simp [hrunning] at hready
    · have hfresh := fresh_of_low hp hm.low
      have hrun : q.thread.running.code ≠ .entry f := fun hcode => by
        obtain ⟨-, x, hx, -⟩ := hp.current_running (hp.starting f (h.entry f hcode))
        simp [hfresh] at hx
      rw [or_iff_right hrun, ne_eq, h.new f y hfresh hy]
      constructor
      · intro hstack
        obtain ⟨k, hk, -⟩ := hq.ready f y hy (hm.state.trans (if_neg hstack))
        exact ⟨k, hk, (hm.start k hk).2⟩
      · rintro ⟨k, hk, -⟩
        exact (hm.start k hk).1

theorem Moved.primed (h : p.Moved q) (hp : p.thread.Steady p.nextId []) (ht : p.thread.Primed) :
    q.thread.Primed :=
  h.toStill.primed hp h.steady ht

theorem Move.primed {hand hand' : List Nat} (h : Move hand p hand' q)
    (hp : p.thread.Steady p.nextId hand) (ht : p.thread.Primed) : q.thread.Primed :=
  (h.still hp).primed hp (h.steady hp) ht

/-- A thread that ends leaves its starts with their fibers. -/
theorem Closed.primed (h : p.Closed q) (ht : p.thread.Primed) : q.thread.Primed where
  rests f y k g hy hk hcode := by
    obtain ⟨n, hx⟩ := h.left f y hy
    exact ht.rests f {y with handles := n} k g hx hk hcode
  lost k hk := ht.lost k (h.lost ▸ hk)
  callback f y hy := by
    obtain ⟨n, hx⟩ := h.left f y hy
    rw [h.running]
    exact ht.callback f {y with handles := n} hx

/-- A switch from code that has begun leaves a fiber that is not ready. -/
theorem Switch.primed (h : p.Switch source home state q) (ht : p.thread.Primed)
    (hcode : ∀ g, p.thread.running.code ≠ .entry g)
    (hhome : ∀ y, p.thread.fibers.get? home = some y → y.state ≠ .ready) : q.thread.Primed := by
  obtain @⟨x, y, target, hx, hy, hne, htarget, like, -, -⟩ := h
  have hready := hhome y hy
  refine Thread.primed_of_like like ⟨fun f z k g hz hk he => ?_, fun k hk g he => ?_,
    fun f z hz => ?_⟩
  · obtain ⟨rfl, rfl⟩ | ⟨rfl, rfl⟩ | ⟨-, -, hz⟩ := Thread.switch_cases hz
    · cases hk
      exact (hcode g he).elim
    · cases hk
    · exact ht.rests f z k g hz hk he
  · rcases List.mem_append.mp hk with hk | hk
    · exact hready (ht.rests home y k g hy (Option.mem_toList.mp hk) he).2
    · exact ht.lost k hk g he
  · -- The start that is switched to, if it is one, is that of the fiber it rested in.
    have hsource {f : Nat} (he : target.code = .entry f) : f = source :=
      (ht.rests source x target f hx htarget he).1
    show _ ↔ target.code = .entry f ∨ _
    obtain ⟨rfl, rfl⟩ | ⟨rfl, rfl⟩ | ⟨-, hf, hz⟩ := Thread.switch_cases hz
    · have hnone := ht.taken hy hready (hcode f)
      refine ⟨fun h => (h hnone).elim, ?_⟩
      rintro (he | ⟨k, hk, he⟩)
      · exact (hne (hsource he)).elim
      · cases hk
        exact (hcode f he).elim
    · rw [ht.callback f x hx, htarget]
      simp [hcode f]
    · rw [ht.callback f z hz]
      rw [or_iff_right (hcode f), or_iff_right fun he => hf (hsource he)]

theorem Resumed.primed (h : p.Resumed op frame rest f q) (hp : p.Ordered)
    (ht : p.thread.Primed) : q.thread.Primed := by
  obtain ⟨hmoved, hcode, -, -, -, hy, hrunning, -, h⟩ := h
  apply h.primed (hmoved.primed hp.thread.toSteady ht) (by simp [hcode])
  intro y' hy'
  rw [hy] at hy'
  cases hy'
  simp [hrunning]

theorem Yielded.primed {named : Option Nat} (h : p.Yielded op frame rest named f q) (hp : p.Ordered)
    (ht : p.thread.Primed) : q.thread.Primed := by
  obtain ⟨hmoved, hcode, -, hx, -, hready, -, -, -, h⟩ := h
  apply h.primed (hmoved.primed hp.thread.toSteady ht) (by simp [hcode])
  intro x' hx'
  rw [hx] at hx'
  cases hx'
  exact hready

theorem Finished.primed {outcome : Outcome} (h : p.Finished f q) (hp : p.Ordered)
    (hcode : p.thread.running.code = .returned (.callback f) outcome) (ht : p.thread.Primed) :
    q.thread.Primed := by
  obtain ⟨hx, -, -, -, like, -, -, -, h⟩ := h
  apply h.primed (Thread.primed_of_like like
    (Thread.primed_terminate ht hp.thread.toSound hcode hx))
  · rw [like.running]
    exact fun _ he => nomatch he
  · intro x' hx'
    rw [like.fibers, Thread.get?_terminate, if_pos rfl] at hx'
    cases hx'
    simp

theorem Renewed.primed (h : p.Renewed f q) (hp : p.Ordered) (ht : p.thread.Primed) :
    q.thread.Primed := by
  obtain ⟨hmoved, hx, -, hterm, like, -, -, -, hsame⟩ := h
  rw [hsame]
  exact Thread.primed_of_like like
    (Thread.primed_renew (hmoved.primed hp.thread.toSteady ht) hx hterm)

/-- Callbacks wait with their starts on all threads, those that ended included. -/
def Primed (p : Process) : Prop := ∀ t ∈ p.everyThread, t.Primed

theorem Primed.thread (h : p.Primed) : p.thread.Primed := h _ (List.mem_cons_self ..)

theorem Primed.turn (h : p.Primed) (hp : p.Ordered) (ht : p.Turn q) : q.Primed := by
  have hthread := h.thread
  apply ht.everyThread h _ fun r hclosed => hclosed.primed hthread
  refine ht.threads (fun t hmem => h t (List.mem_append_left _ hmem)) Thread.primed_start
    (fun p₁ p₂ hmem hn hmoved => ?_) (fun _ _ _ _ _ _ _ _ hq => hq.primed hp hthread)
    (fun _ _ _ _ _ _ _ hq => hq.primed hp hthread)
    (fun _ _ hcode hq => hq.primed hp hcode hthread)
    fun _ _ _ _ _ _ _ _ _ hq => hq.primed hp hthread
  have hsteady := (hp _ hmem).toSteady
  exact hmoved.primed
    {hsteady with below := fun f x hx => Nat.lt_of_lt_of_le (hsteady.below f x hx) hn}
    (h _ (List.mem_append_left _ hmem))

/-- The process with the callback of a fiber begun, whose code keeps a handle of the fiber. -/
def begun (p : Process) (f : Nat) (x : Fiber) (callback : List Op) : Process :=
  {p with
    thread := (p.thread.setFiber f {x with handles := x.handles + 1, callback := none}).become
      (.active ⟨.callback f, [], Task.ofOps callback⟩)}

end Process

open Process in
/-- The step that begins a callback begins the one that was installed. -/
theorem Act.step_begin_leads {p : Process} {f : Nat} (hp : p.Ordered) (ht : p.thread.Primed)
    (hcode : p.thread.running.code = .entry f) :
    step.Leads p
      (fun _ q => ∃ x callback, p.thread.fibers.get? f = some x ∧ x.callback = some callback ∧
        (p.begun f x callback).Aside q)
      fun _ _ => False := by
  have hsteady := hp.thread.toSteady
  have hc := hsteady.starting f hcode
  obtain ⟨-, x, hx, -⟩ := hsteady.current_running hc
  obtain ⟨callback, hcallback⟩ := Option.ne_none_iff_exists'.mp
    ((ht.callback f x hx).mpr (.inl hcode))
  let y : Fiber := {x with handles := x.handles + 1}
  let q : Process := {p with thread := p.thread.setFiber f y}
  let r : Process := {q with thread := q.thread.begin f y callback}
  have hy : q.thread.fibers.get? f = some y := Thread.get?_setFiber.trans (if_pos rfl)
  have hretain : Move [] p [f] q := .retain hx (.refl _) (onward_of_names rfl rfl rfl rfl)
  have hbegin : Move [f] q [] r :=
    .begin (p := q) hcode hy hcallback (.refl _) (onward_of_names rfl rfl rfl rfl)
  have hr := (hretain.trans hbegin).steady hsteady
  have hr' : (p.begun f x callback).Aside r := by
    refine ⟨⟨fun g => ?_, rfl, rfl, rfl, rfl, rfl⟩, rfl, onward_of_names rfl rfl rfl rfl⟩
    show ((p.thread.fibers.set f y).set f _).get? g = (p.thread.fibers.set f _).get? g
    rw [Table.get?_set, Table.get?_set, Table.get?_set]
    split <;> rfl
  unfold step
  rw [leads_bind, leads_thread, hcode]
  dsimp only
  unfold enter currentFiber retain
  refine leads_bind.mpr (leads_bind.mpr (leads_thread.mpr ?_))
  rw [hc]
  refine leads_bind.mpr ((leads_modifyFiber hx).mpr (leads_pure.mpr ?_))
  refine leads_bind.mpr ((leads_fiber (p := q) hy).mpr ?_)
  rw [show y.callback = some callback from hcallback]
  refine leads_bind.mpr (leads_setFiber.mpr (leads_bind.mpr (leads_modifyThread.mpr ?_)))
  have hbegan : (do emit (.began (← status)) : Act Unit).Asides r :=
    (asides_status hr).bind fun _ _ _ => asides_emit _
  exact hbegan.mono (fun _ _ hq => ⟨x, callback, hx, hcallback, hr'.trans hq⟩) fun _ _ h => h

theorem Scenario.Reaches.primed {s : Scenario} {p : Process} (h : s.Reaches p) : p.Primed := by
  obtain ⟨n, hrun⟩ := h
  have hboth : p.Lawful ∧ p.Primed := by
    refine Process.run_induction (P := fun p => p.Lawful ∧ p.Primed) (fun p q ⟨hp, h⟩ hq => ?_)
      ⟨s.lawful, fun t ht => ?_⟩ hrun
    · obtain ⟨hturn, hq⟩ := hp.step hq
      exact ⟨hq, h.turn hp.ordered hturn⟩
    · obtain rfl := List.mem_singleton.mp ht
      exact Thread.primed_start ..
  exact hboth.2

end Fibers
