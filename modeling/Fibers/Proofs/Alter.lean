import Fibers.Proofs.Reach

/-! What a turn makes of a fiber.

A turn changes the state of a fiber and the context at rest in it, if at all, in one of the ways
that `Alters` lists: a switch enters one fiber and leaves another, a callback ends, a fiber is
reset. What a step does to fibers one by one is a case analysis over that list. -/
namespace Fibers.Process

/-- The fiber is alive on one of the threads, those that ended included. -/
def Has (p : Process) (f : Nat) (x : Fiber) : Prop :=
  ∃ t ∈ p.everyThread, t.fibers.get? f = some x

/-- What a fiber is like when it is new. -/
structure Newborn (p : Process) (f : Nat) (y : Fiber) : Prop where
  low : p.nextId ≤ f
  state : y.state = if y.stack = none then .running else .ready
  callback : y.callback = none ↔ y.stack = none
  /-- Its code is not at its end. -/
  unspent : ∀ k, y.context = some k → ∀ g, k.code ≠ .spent g

/-- What becomes of the state of a fiber and of its saved context. -/
inductive Alters (p q : Process) (f : Nat) (x y : Fiber) : Prop
  | stay (hstate : y.state = x.state) (hcontext : y.context = x.context)
  /-- It is resumed, and what rested in it executes. -/
  | enter {op : Op} {frame : Frame} {rest : List Task} {s : String}
    (hop : p.thread.Performs op frame rest) (ha : op.action = .resume s)
    (hs : p.thread.slots.get? s = some f) (hready : x.state = .ready)
    (hstate : y.state = .running) (hx : x.context = some q.thread.running)
    (hy : y.context = none) (hc : q.thread.current = some f)
  /-- It is the root that is switched to, and what rested in it executes. -/
  | back (hstate : y.state = x.state) (hx : x.context = some q.thread.running)
    (hy : y.context = none) (hc : q.thread.current = some f)
  /-- It was current, and its code comes to rest inside of a `resume`. -/
  | wait {serial g : Nat} {op : Op} {frame : Frame} {rest : List Task}
    (hop : p.thread.Performs op frame rest) (hc : p.thread.current = some f)
    (hstate : y.state = x.state)
    (hy : y.context = some ⟨serial, .active {frame with todo := .resumed op.label g :: rest}⟩)
  /-- It is yielded, and the code that does so comes to rest in it. -/
  | yield {serial : Nat} {op : Op} {frame : Frame} {rest : List Task} {named : Option Nat}
    (hop : p.thread.Performs op frame rest)
    (ha : op.action = .yield ∧ p.thread.current = some f ∨
      ∃ s, op.action = .yieldOf s ∧ p.thread.slots.get? s = some f)
    (hready : x.state ≠ .ready) (hstate : y.state = x.state.yielded)
    (hy : y.context = some ⟨serial, .active {frame with todo := .yielded op.label named :: rest}⟩)
  /-- Its callback has completed. It was running then, unless it was yielded from outside. -/
  | finish {serial : Nat} {outcome : Outcome}
    (hcode : p.thread.running.code = .returned (.callback f) outcome) (hterm : x.state ≠ .term)
    (hcurrent : p.thread.current = some f → x.state = .running) (hstate : y.state = .term)
    (hy : y.context = some ⟨serial, .spent f⟩)
  | reset {serial : Nat} {op : Op} {frame : Frame} {rest : List Task} {s : String} {script : Script}
    (hop : p.thread.Performs op frame rest)
    (ha : op.action = .reset s script ∨ op.action = .resetInPlace s script)
    (hs : p.thread.slots.get? s = some f) (hterm : x.state = .term) (hstate : y.state = .ready)
    (hy : y.context = some ⟨serial, .entry f⟩)

/-- What becomes of the callback of a fiber. -/
inductive Recalls (p : Process) (f : Nat) (x y : Fiber) : Prop
  | keep (h : y.callback = x.callback)
  /-- Its start, which executes, has taken the callback. -/
  | begin (hcode : p.thread.running.code = .entry f) (h : y.callback = none)
  /-- It is reset. -/
  | install (hterm : x.state = .term) (hready : y.state = .ready) (h : y.callback ≠ none)

/-- The fiber was there and came to be as it is, or it is new. -/
def Descends (p q : Process) (f : Nat) (y : Fiber) : Prop :=
  (∃ x, p.Has f x ∧ y.stack = x.stack ∧ p.Alters q f x y ∧ p.Recalls f x y) ∨ p.Newborn f y

variable {p q r : Process} {source home f g : Nat} {state : State} {x y z : Fiber} {op : Op}
  {frame : Frame} {rest : List Task}

theorem has_here (hx : p.thread.fibers.get? f = some x) : p.Has f x :=
  ⟨p.thread, List.mem_cons_self .., hx⟩

/-- Only states and contexts matter. -/
theorem Alters.congr {x' y' : Fiber} (h : p.Alters q f x y) (hx : x'.state = x.state)
    (hx' : x'.context = x.context) (hy : y'.state = y.state) (hy' : y'.context = y.context) :
    p.Alters q f x' y' := by
  obtain ⟨state, stack, context, callback, scheduled, handles⟩ := x
  obtain ⟨state', stack', context', callback', scheduled', handles'⟩ := y
  subst hx hx' hy hy'
  cases h with
  | stay hstate hcontext => exact .stay hstate hcontext
  | enter hop ha hs hready hstate hx hy hc => exact .enter hop ha hs hready hstate hx hy hc
  | back hstate hx hy hc => exact .back hstate hx hy hc
  | wait hop hc hstate hy => exact .wait hop hc hstate hy
  | yield hop ha hready hstate hy => exact .yield hop ha hready hstate hy
  | finish hcode hterm hcurrent hstate hy => exact .finish hcode hterm hcurrent hstate hy
  | reset hop ha hs hterm hstate hy => exact .reset hop ha hs hterm hstate hy

theorem Still.recalls (h : p.Still r) (hx : p.thread.fibers.get? f = some x)
    (hy : r.thread.fibers.get? f = some y) : p.Recalls f x y := by
  rcases h.callback f x y hx hy with hsame | ⟨hcode, hnone, -⟩
  · exact .keep hsame
  · exact .begin hcode hnone

/-- What is done to a callback after moves counts from before them. -/
theorem Still.recalls_after (h : p.Still r) (hx : p.thread.fibers.get? f = some x)
    (hy : r.thread.fibers.get? f = some y) (hstate : y.state = x.state) (hz : p.Recalls f y z) :
    p.Recalls f x z := by
  cases hz with
  | keep hsame =>
    cases h.recalls hx hy with
    | keep hsame' => exact .keep (hsame.trans hsame')
    | begin hcode hnone => exact .begin hcode (hsame.trans hnone)
    | install hterm hready => simp [hterm, hready] at hstate
  | begin hcode hnone => exact .begin hcode hnone
  | install hterm hready hnew => exact .install (hstate ▸ hterm) hready hnew

/-- What is done to a fiber after moves have led to it was done to it before them, or it is new. -/
theorem Still.descends_of {p₁ : Process} (h : p.Still p₁) (hp : p.thread.Steady p.nextId [])
    (hx : p₁.thread.fibers.get? f = some x) (hstack : y.stack = x.stack) (hy : p.Alters q f x y)
    (hcallback : p.Recalls f x y)
    (hnew : (x.state = if x.stack = none then .running else .ready) →
      y.state = x.state ∧ y.callback = x.callback ∧
        ∀ k, y.context = some k → x.context = some k ∨ ∀ g, k.code ≠ .spent g) :
    p.Descends q f y := by
  rcases h.fibers f x hx with ⟨w, hw, hs, hk, hc⟩ | hm
  · exact .inl ⟨w, has_here hw, hstack.trans hk, hy.congr hs.symm hc.symm rfl rfl,
      h.recalls_after hw hx hs hcallback⟩
  · obtain ⟨hstate, hsame, hcontext⟩ := hnew hm.state
    refine .inr ⟨hm.low, ?_, ?_, fun k hk g => ?_⟩
    · rw [hstate, hstack, hm.state]
    · rw [hsame, hstack]
      exact h.new f x (fresh_of_low hp hm.low) hx
    · rcases hcontext k hk with hk | hk
      · rw [(hm.start k hk).2]
        exact fun he => by cases he
      · exact hk g

theorem Still.descends (h : p.Still r) (hp : p.thread.Steady p.nextId [])
    (hy : r.thread.fibers.get? f = some y) : p.Descends q f y :=
  h.descends_of hp hy rfl (.stay rfl rfl) (.keep rfl) fun _ => ⟨rfl, rfl, fun _ => .inl⟩

theorem Closed.descends (h : p.Closed r) (hy : r.thread.fibers.get? f = some y) :
    p.Descends q f y := by
  obtain ⟨n, hx⟩ := h.left f y hy
  exact .inl ⟨_, has_here hx, rfl, .stay rfl rfl, .keep rfl⟩

/-- Fibers of threads that do not execute are left alone. -/
theorem Onward.descends (hr : p.Onward r)
    (h : ∀ f y, r.thread.fibers.get? f = some y → p.Descends q f y) (hy : r.Has f y) :
    p.Descends q f y := by
  obtain ⟨t, ht, hy⟩ := hy
  rcases List.mem_cons.mp ht with rfl | ht
  · exact h f y hy
  · rw [hr.joining, hr.ended] at ht
    exact .inl ⟨y, ⟨t, List.mem_cons_of_mem _ ht, hy⟩, rfl, .stay rfl rfl, .keep rfl⟩

theorem Switch.current (h : p.Switch source home state q) : q.thread.current = some source := by
  obtain ⟨-, -, -, -, like, -, -⟩ := h
  exact like.current

/-- A switch changes the fiber it enters and the fiber it leaves. -/
theorem Switch.descends {p₁ : Process} (h : p₁.Switch source home state q)
    (hother : ∀ f z, f ≠ home → p₁.thread.fibers.get? f = some z → p.Descends q f z)
    (hsource : ∀ z, p₁.thread.fibers.get? source = some z → z.context = some q.thread.running →
      p.Descends q source {z with state := .running, context := none})
    (hhome : ∀ z, p₁.thread.fibers.get? home = some z → p.Descends q home
      {z with state, context := some ⟨p₁.nextSerial, p₁.thread.running.code⟩})
    (hy : q.thread.fibers.get? f = some y) : p.Descends q f y := by
  obtain @⟨x, z, target, hx, hz, -, ht, like, -, -⟩ := h
  rw [like.fibers] at hy
  obtain ⟨rfl, rfl⟩ | ⟨rfl, rfl⟩ | ⟨hf, -, hy⟩ := Thread.switch_cases hy
  · exact hhome z hz
  · exact hsource x hx (by rw [ht, like.running]; rfl)
  · exact hother f y hf hy

theorem Resumed.descends {s : String} (h : p.Resumed op frame rest f q) (hp : p.Ordered)
    (hop : p.thread.Performs op frame rest) (ha : op.action = .resume s)
    (hs : p.thread.slots.get? s = some f) (hy : q.thread.fibers.get? g = some y) :
    p.Descends q g y := by
  have hsteady := hp.thread.toSteady
  obtain @⟨c, x, z, p₁, hmoved, hcode, hx, hready, hc, hz, hrunning, -, h⟩ := h
  apply h.descends (fun g y _ hy => hmoved.descends hsteady hy) _ _ hy
  · intro x' hx' hk
    rw [hx] at hx'
    cases hx'
    obtain ⟨w, hw⟩ := hp.slot_alive hs
    obtain ⟨w', hw', hstate, hstack, hcontext⟩ := hmoved.between (hsteady.below f w hw) hx
    rw [hw] at hw'
    cases hw'
    exact .inl ⟨w, has_here hw, hstack, .enter hop ha hs (hstate ▸ hready) rfl (hcontext ▸ hk) rfl
      h.current, hmoved.recalls_after hw hx hstate (.keep rfl)⟩
  · intro z' hz'
    rw [hz] at hz'
    cases hz'
    rw [hcode]
    rcases hmoved.fibers c z hz with ⟨w, hw, hstate, hstack, -⟩ | hm
    · have hcurrent := hmoved.current_of hsteady (Nat.le_refl _) hw hc
      exact .inl ⟨w, has_here hw, hstack, .wait hop hcurrent (hrunning ▸ hstate) rfl,
        hmoved.recalls_after hw hz hstate (.keep rfl)⟩
    · have hfresh := fresh_of_low hsteady hm.low
      refine .inr ⟨hm.low, hrunning ▸ hm.state, hmoved.new c z hfresh hz, fun k hk g he => ?_⟩
      cases hk
      cases he

theorem Yielded.descends {named : Option Nat} (h : p.Yielded op frame rest named f q)
    (hp : p.thread.Steady p.nextId []) (hop : p.thread.Performs op frame rest)
    (ha : op.action = .yield ∧ p.thread.current = some f ∨
      ∃ s, op.action = .yieldOf s ∧ p.thread.slots.get? s = some f)
    (hy : q.thread.fibers.get? g = some y) : p.Descends q g y := by
  obtain @⟨r, x, z, p₁, hmoved, hcode, -, hx, hstack, hready, hz, -, hrunning, h⟩ := h
  apply h.descends (fun g y _ hy => hmoved.descends hp hy) _ _ hy
  · intro z' hz' hk
    rw [hz] at hz'
    cases hz'
    exact hmoved.descends_of hp hz rfl (.back hrunning.symm hk rfl h.current) (.keep rfl)
      fun _ => ⟨hrunning.symm, rfl, fun _ hk => by cases hk⟩
  · intro x' hx'
    rw [hx] at hx'
    cases hx'
    rw [hcode]
    refine hmoved.descends_of hp hx rfl (.yield hop ha hready rfl rfl) (.keep rfl) fun hnew => ?_
    rw [if_neg hstack] at hnew
    exact (hready hnew).elim

theorem Finished.descends {outcome : Outcome} (h : p.Finished f q) (hp : p.Ordered)
    (hcode : p.thread.running.code = .returned (.callback f) outcome)
    (hy : q.thread.fibers.get? g = some y) : p.Descends q g y := by
  obtain @⟨r, x, z, p₁, hx, hstack, hterm, -, like, hz, hroot, hrunning, h⟩ := h
  have hother {g : Nat} {y : Fiber} (hg : g ≠ f) (hy : p₁.thread.fibers.get? g = some y) :
      p.thread.fibers.get? g = some y := by
    rwa [like.fibers, Thread.get?_terminate, if_neg hg] at hy
  apply h.descends _ _ _ hy
  · intro g y hg hy
    exact .inl ⟨y, has_here (hother hg hy), rfl, .stay rfl rfl, .keep rfl⟩
  · intro z' hz' hk
    rw [hz] at hz'
    cases hz'
    have hne : r ≠ f := by
      rintro rfl
      rw [like.fibers, Thread.get?_terminate, if_pos rfl] at hz
      cases hz
      exact hstack hroot
    exact .inl ⟨z, has_here (hother hne hz), rfl, .back hrunning.symm hk rfl h.current, .keep rfl⟩
  · intro x' hx'
    rw [like.fibers, Thread.get?_terminate, if_pos rfl] at hx'
    cases hx'
    have hspent : p₁.thread.running.code = .spent f := by
      rw [like.running]
      rfl
    rw [hspent]
    exact .inl ⟨x, has_here hx, rfl,
      .finish hcode hterm (fun hc => hp.thread.current_state hc hx) rfl rfl, .keep rfl⟩

theorem Renewed.descends {s : String} {script : Script} (h : p.Renewed f q)
    (hp : p.thread.Steady p.nextId []) (hop : p.thread.Performs op frame rest)
    (ha : op.action = .reset s script ∨ op.action = .resetInPlace s script)
    (hs : p.thread.slots.get? s = some f) (hy : q.thread.fibers.get? g = some y) :
    p.Descends q g y := by
  obtain @⟨x, callback, p₁, p₂, hmoved, hx, hstack, hterm, like, -, -, -, hsame⟩ := h
  rw [hsame, like.fibers] at hy
  obtain ⟨rfl, rfl⟩ | ⟨-, hy⟩ := Table.set_cases hy
  · refine hmoved.descends_of hp hx rfl (.reset hop ha hs hterm rfl rfl)
      (.install hterm rfl (by simp)) fun hnew => ?_
    simp [hstack, hterm] at hnew
  · exact hmoved.descends hp hy

/-- Every fiber there is after a turn was there before, and was altered as it may be, or is
new. -/
theorem Turn.descends (h : p.Turn q) (hp : p.Ordered) (hy : q.Has f y) : p.Descends q f y := by
  have hsteady := hp.thread.toSteady
  cases h with
  | calm h => exact h.onward.descends (fun _ _ => h.descends hsteady) hy
  | resume hop ha hs h => exact h.onward.descends (fun _ _ => h.descends hp hop ha hs) hy
  | yield hop ha h =>
    refine h.onward.descends (fun _ _ => h.descends hsteady hop ?_) hy
    exact ha.imp (fun ha => ⟨ha.1, ha.2.2⟩) fun ⟨s, ha, _, hs⟩ => ⟨s, ha, hs⟩
  | finish hcode h => exact h.onward.descends (fun _ _ => h.descends hp hcode) hy
  | reset hop ha hs h => exact h.onward.descends (fun _ _ => h.descends hsteady hop ha hs) hy
  | @launch label program p₁ hmoved ht _ _ hj he =>
    obtain ⟨t, hmem, hy⟩ := hy
    rcases List.mem_cons.mp hmem with rfl | hmem
    · rw [ht] at hy
      cases hy
    · apply hmoved.onward.descends (fun _ _ => hmoved.descends hsteady) ⟨t, _, hy⟩
      rwa [hj, he] at hmem
  | @join joiner rest p₁ p₂ hclosed hj ht hj' he _ _ hq hsame =>
    obtain ⟨t, hmem, hy⟩ := hy
    rw [hq.onward.everyThread hsame, mem_everyThread_join hj ht hj' he] at hmem
    exact hclosed.onward.descends (fun _ _ => hclosed.descends) ⟨t, hmem, hy⟩

/-- A fiber lives on one thread, under an id that was given before. -/
theorem Lawful.has_unique (h : p.Lawful) (hx : p.Has f x) (hy : p.Has f y) :
    x = y ∧ f < p.nextId := by
  obtain ⟨t, ht, hx⟩ := hx
  obtain ⟨u, hu, hy⟩ := hy
  have hlives {t : Thread} {x : Fiber} (hx : t.fibers.get? f = some x) : 0 < t.lives f := by
    rw [Thread.lives, hx]
    exact Nat.one_pos
  obtain ⟨rfl, -, hlt⟩ := h.ids.same ht hu (hlives hx) (hlives hy)
  rw [hx] at hy
  exact ⟨Option.some.inj hy, hlt⟩

/-- Roots run, those left behind on threads that ended included. -/
theorem Lawful.root_running (h : p.Lawful) (hx : p.Has f x) (hroot : x.stack = none) :
    x.state = .running := by
  obtain ⟨t, ht, hx⟩ := hx
  rcases List.mem_append.mp ht with ht | ht
  · exact (h.ordered t ht).running f x hx hroot
  · exact h.roots t ht f x hx hroot

/-- The end of a fiber's code rests in no other fiber. -/
def Resigned (p : Process) : Prop :=
  ∀ f x k g, p.Has f x → x.context = some k → k.code = .spent g → g = f

theorem Resigned.turn (h : p.Resigned) (hp : p.Ordered) (ht : p.Turn q) : q.Resigned := by
  intro f y k g hy hk hcode
  have hother {serial : Nat} {code : Code} (hrests : y.context = some ⟨serial, code⟩)
      (hne : code ≠ .spent g) : g = f := by
    rw [hrests] at hk
    cases hk
    exact (hne hcode).elim
  rcases ht.descends hp hy with ⟨x, hx, -, halters, -⟩ | hnew
  · cases halters with
    | stay _ hcontext => exact h f x k g hx (hcontext ▸ hk) hcode
    | enter _ _ _ _ _ _ hempty => simp [hempty] at hk
    | back _ _ hempty => simp [hempty] at hk
    | wait _ _ _ hrests => exact hother hrests fun he => by cases he
    | yield _ _ _ _ hrests => exact hother hrests fun he => by cases he
    | finish _ _ _ _ hspent =>
      rw [hspent] at hk
      cases hk
      cases hcode
      rfl
    | reset _ _ _ _ _ hrests => exact hother hrests fun he => by cases he
  · exact (hnew.unspent k hk g hcode).elim

/-- What a step makes of a fiber that is there before and after. -/
theorem Lawful.step_alters (h : p.Lawful) (hq : Act.step p = .ok () q) (hx : p.Has f x)
    (hy : q.Has f y) : y.stack = x.stack ∧ p.Alters q f x y ∧ p.Recalls f x y := by
  rcases (h.step hq).1.descends h.ordered hy with ⟨x', hx', ha⟩ | ⟨hlow, -⟩
  · rwa [(h.has_unique hx hx').1]
  · have := (h.has_unique hx hx).2
    omega

end Fibers.Process
