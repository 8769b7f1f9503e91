import Fibers.Proofs.Alter
import Fibers.Proofs.Home
import Fibers.Proofs.Report
import Fibers.Proofs.Root

/-! What rests in fibers.

As long as no code yields a fiber other than the current one, the place for a context in a fiber
is empty exactly while the fiber is current, and what rests there otherwise is the fiber's own:
its start while it has not begun, its code at a yield while it is ready, its code inside of a
`resume` while it is parked as running, and the end of its code once it has terminated. So a
context is never overwritten but by a reset, and then it is one that is past its end. -/
namespace Fibers

/-- What rests in a fiber that is not current, by the state of the fiber. -/
inductive Fiber.Rests (f : Nat) (x : Fiber) : Code → Prop
  | start (hs : x.state = .ready) : Rests f x (.entry f)
  /-- The code is the fiber's own, about to return from a yield. -/
  | yielded {frame : Frame} {label : Label} {named : Option Nat} {rest : List Task}
    (hs : x.state = .ready) (ho : frame.origin = .callback f) :
    Rests f x (.active {frame with todo := .yielded label named :: rest})
  /-- The code is the fiber's own, inside of a `resume`. -/
  | resumed {frame : Frame} {label : Label} {g : Nat} {rest : List Task}
    (hs : x.state = .running) (ho : frame.origin = x.owner f) :
    Rests f x (.active {frame with todo := .resumed label g :: rest})
  | spent (hs : x.state = .term) : Rests f x (.spent f)

namespace Thread

structure Slotted (t : Thread) : Prop where
  /-- The place of a task fiber is empty exactly while it is current. -/
  empty : ∀ f x, t.fibers.get? f = some x → x.stack ≠ none →
    (x.context = none ↔ t.current = some f)
  rests : ∀ f x k, t.fibers.get? f = some x → x.context = some k → x.Rests f k.code
  /-- No context was lost but past its end. -/
  lost : ∀ k ∈ t.lost, ∃ f, k.code = .spent f

theorem slotted_start (serial : Nat) (program : List Op) : (start serial program).Slotted where
  empty _ _ h := nomatch h
  rests _ _ _ h := nomatch h
  lost _ h := nomatch h

end Thread

theorem Fiber.Rests.congr {f : Nat} {x y : Fiber} {code : Code} (h : x.Rests f code)
    (hstate : y.state = x.state) (hstack : y.stack = x.stack) : y.Rests f code := by
  have howner : y.owner f = x.owner f := by
    rw [Fiber.owner, hstack]
    rfl
  cases h with
  | start hs => exact .start (hstate.trans hs)
  | yielded hs ho => exact .yielded (hstate.trans hs) ho
  | resumed hs ho => exact .resumed (hstate.trans hs) (ho.trans howner.symm)
  | spent hs => exact .spent (hstate.trans hs)

theorem Fiber.Rests.of_term {f : Nat} {x : Fiber} {code : Code} (h : x.Rests f code)
    (hs : x.state = .term) : code = .spent f := by
  cases h with
  | spent => rfl
  | start hs' => simp [hs] at hs'
  | yielded hs' => simp [hs] at hs'
  | resumed hs' => simp [hs] at hs'

namespace Process

variable {p q : Process} {source home f n : Nat} {state : State} {x : Fiber} {op : Op}
  {frame : Frame} {rest : List Task}

/-- All threads that may go on keep in each fiber what belongs there. -/
def Slotted (p : Process) : Prop := ∀ t ∈ p.threads, t.Slotted

theorem Slotted.thread (h : p.Slotted) : p.thread.Slotted := h _ (List.mem_cons_self ..)

theorem slotted_of_like {t u : Thread} (h : t.Like u) (ht : t.Slotted) : u.Slotted where
  empty f x hx := by
    rw [h.current]
    exact ht.empty f x (h.fibers f ▸ hx)
  rests f x k hx := ht.rests f x k (h.fibers f ▸ hx)
  lost k hk := ht.lost k (h.lost ▸ hk)

theorem Moved.slotted (h : p.Moved q) (hp : p.thread.Steady n []) (hn : n ≤ p.nextId)
    (ht : p.thread.Slotted) : q.thread.Slotted where
  empty f y hy hstack := by
    rcases h.fibers f y hy with ⟨x, hx, -, hk, hc⟩ | hm
    · rw [hc, ht.empty f x hx (hk ▸ hstack)]
      exact ⟨h.current f, h.current_of hp hn hx⟩
    · -- A new task has its start, and a fiber that is current runs.
      refine ⟨fun hc => ?_, fun hc => ?_⟩
      · have hready := hm.state
        rw [if_neg hstack] at hready
        obtain ⟨k, hk, -⟩ := h.steady.ready f y hy hready
        simp [hc] at hk
      · have hs := h.steady.current_state hc hy
        simp [hm.state, hstack] at hs
  rests f y k hy hk := by
    rcases h.fibers f y hy with ⟨x, hx, hs, hstack, hc⟩ | hm
    · exact (ht.rests f x k hx (hc ▸ hk)).congr hs hstack
    · obtain ⟨hstack, hcode⟩ := hm.start k hk
      rw [hcode]
      exact .start (by simp [hm.state, hstack])
  lost k hk := by
    rcases h.lost k hk with hk | ⟨f, x, hx, -, hterm, hk⟩
    · exact ht.lost k hk
    · exact ⟨f, (ht.rests f x k hx hk).of_term hterm⟩

/-- Nothing rests in the current fiber. -/
theorem vacant_current {t : Thread} (ht : t.Slotted) (hr : t.Rooted) (hc : t.current = some f)
    (hx : t.fibers.get? f = some x) : x.context = none := by
  by_cases hstack : x.stack = none
  · exact (hr.away f x hx hstack).mpr hc
  · exact (ht.empty f x hx hstack).mpr hc

/-- A switch out of the current fiber fills its empty place. -/
theorem Switch.slotted (h : p.Switch source home state q) (ht : p.thread.Slotted)
    (hc : p.thread.current = some home)
    (hrests : ∀ y, p.thread.fibers.get? home = some y →
      y.context = none ∧ Fiber.Rests home {y with state} p.thread.running.code) :
    q.thread.Slotted := by
  obtain @⟨x, y, target, hx, hy, hne, -, like, -, -⟩ := h
  obtain ⟨hempty, hrests⟩ := hrests y hy
  refine slotted_of_like like ⟨fun f z hz hstack => ?_, fun f z k hz hk => ?_, fun k hk => ?_⟩
  · show z.context = none ↔ some source = some f
    obtain ⟨rfl, rfl⟩ | ⟨rfl, rfl⟩ | ⟨hf, hf', hz⟩ := Thread.switch_cases hz
    · simp [Ne.symm hne]
    · simp
    · rw [ht.empty f z hz hstack, hc]
      simp [Ne.symm hf, Ne.symm hf']
  · obtain ⟨rfl, rfl⟩ | ⟨rfl, rfl⟩ | ⟨-, -, hz⟩ := Thread.switch_cases hz
    · cases hk
      exact hrests.congr rfl rfl
    · cases hk
    · exact ht.rests f z k hz hk
  · have hlost :
        (p.thread.switch source x target home y state p.nextSerial).lost = p.thread.lost := by
      simp [Thread.switch, Thread.handOver, hempty]
    exact ht.lost k (hlost ▸ hk)

theorem Resumed.slotted (h : p.Resumed op frame rest f q) (hp : p.Ordered)
    (hhome : p.thread.Homed) (ht : p.thread.Slotted) : q.thread.Slotted := by
  obtain ⟨hmoved, hcode, -, -, hc, -, -, -, h⟩ := h
  have hrooted := hmoved.steady.toRooted
  have ht := hmoved.slotted hp.thread.toSteady (Nat.le_refl _) ht
  apply h.slotted ht hc
  intro y hy
  have ho := (hmoved.homed hhome).executing hrooted hc hy
  rw [hcode] at ho ⊢
  exact ⟨vacant_current ht hrooted hc hy, .resumed rfl ho⟩

theorem Yielded.slotted {named : Option Nat} (h : p.Yielded op frame rest named f q)
    (hp : p.Ordered) (hhome : p.thread.Homed) (ht : p.thread.Slotted)
    (hc : p.thread.current = some f) : q.thread.Slotted := by
  obtain ⟨hmoved, hcode, -, hx, hstack, -, -, -, -, h⟩ := h
  have hrooted := hmoved.steady.toRooted
  have hc := hmoved.current f hc
  have ht := hmoved.slotted hp.thread.toSteady (Nat.le_refl _) ht
  apply h.slotted ht hc
  intro x' hx'
  have hempty := vacant_current ht hrooted hc hx'
  have ho := (hmoved.homed hhome).executing hrooted hc hx'
  rw [hx] at hx'
  cases hx'
  rw [Fiber.owner_task hstack] at ho
  have hrunning := hmoved.steady.current_state hc hx
  rw [hcode] at ho ⊢
  exact ⟨hempty, .yielded (by simp [State.yielded, hrunning]) ho⟩

theorem slotted_terminate {t : Thread} (h : t.Slotted) (hx : t.fibers.get? f = some x)
    (hempty : x.context = none) : (t.terminate f x).Slotted where
  empty g y hy hs := by
    obtain ⟨rfl, rfl⟩ | ⟨-, hy⟩ := Table.set_cases hy
    · exact h.empty g x hx hs
    · exact h.empty g y hy hs
  rests g y k hy hk := by
    obtain ⟨rfl, rfl⟩ | ⟨-, hy⟩ := Table.set_cases hy
    · simp [hempty] at hk
    · exact h.rests g y k hy hk
  lost := h.lost

theorem Finished.slotted {outcome : Outcome} (h : p.Finished f q) (hp : p.Ordered)
    (hhome : p.thread.Homed) (ht : p.thread.Slotted)
    (hcode : p.thread.running.code = .returned (.callback f) outcome) : q.thread.Slotted := by
  obtain ⟨hx, -, -, -, like, -, -, -, h⟩ := h
  have hc : p.thread.current = some f := hhome.running f (by rw [hcode]; rfl)
  have hempty := vacant_current ht hp.thread.toRooted hc hx
  apply h.slotted (slotted_of_like like (slotted_terminate ht hx hempty)) (like.current.trans hc)
  intro x' hx'
  rw [like.fibers, Thread.get?_terminate, if_pos rfl] at hx'
  cases hx'
  rw [like.running]
  exact ⟨hempty, .spent rfl⟩

theorem slotted_renew {t : Thread} {serial : Nat} {callback : List Op} (h : t.Slotted)
    (hx : t.fibers.get? f = some x) (hterm : x.state = .term) (hc : t.current ≠ some f) :
    (t.renew f x serial callback).Slotted where
  empty g y hy hs := by
    obtain ⟨rfl, rfl⟩ | ⟨-, hy⟩ := Table.set_cases hy
    · simp [Thread.renew, hc]
    · exact h.empty g y hy hs
  rests g y k hy hk := by
    obtain ⟨rfl, rfl⟩ | ⟨-, hy⟩ := Table.set_cases hy
    · cases hk
      exact .start rfl
    · exact h.rests g y k hy hk
  lost k hk := by
    rcases List.mem_append.mp hk with hk | hk
    · exact ⟨f, (h.rests f x k hx (Option.mem_toList.mp hk)).of_term hterm⟩
    · exact h.lost k hk

theorem Renewed.slotted (h : p.Renewed f q) (hp : p.Ordered) (ht : p.thread.Slotted) :
    q.thread.Slotted := by
  obtain ⟨hmoved, hx, hstack, hterm, like, -, honward, hq⟩ := h
  have hp₁ := hmoved.steady
  have ht := hmoved.slotted hp.thread.toSteady (Nat.le_refl _) ht
  apply hq.slotted (steady_of_like like (steady_renew hp₁ hx hstack hterm) honward.nextId)
    (Nat.le_refl _) (slotted_of_like like (slotted_renew ht hx hterm _))
  intro hc
  have hrunning := hp₁.current_state hc hx
  simp [hterm] at hrunning

/-- Turns keep in each fiber what belongs there, as long as no code yields away. -/
theorem Slotted.turn (h : p.Slotted) (hp : p.Ordered) (hhome : p.Homed) (ht : p.Turn q)
    (haway : ¬p.YieldsAway) : q.Slotted := by
  have hthread := h.thread
  have hhome := hhome.thread
  exact ht.threads h Thread.slotted_start
    (fun p₁ p₂ hmem hn hmoved => hmoved.slotted (hp _ hmem).toSteady hn (h _ hmem))
    (fun _ _ _ _ _ _ _ _ hq => hq.slotted hp hhome hthread)
    (fun _ _ _ _ _ hop ha hq =>
      hq.slotted hp hhome hthread (current_of_yields haway hop ha))
    (fun _ _ hcode hq => hq.slotted hp hhome hthread hcode)
    fun _ _ _ _ _ _ _ _ _ hq => hq.slotted hp hthread

/-! ### What steps do to what rests in a fiber -/

/-- How the place for a context in a fiber changes. -/
inductive Refills (p q : Process) (f : Nat) : Option Context → Option Context → Prop
  | stay (context : Option Context) : Refills p q f context context
  /-- What rested there executes, and the fiber is current. -/
  | take (hc : q.thread.current = some f) : Refills p q f (some q.thread.running) none
  /-- The fiber was current, and its code that executed comes to rest. -/
  | file {k : Context} (hc : p.thread.current = some f)
    (ho : k.code.origin = p.thread.running.code.origin) : Refills p q f none (some k)
  /-- The fiber is reset: a start takes the place of the end of its code. -/
  | reset {old new : Nat} {op : Op} {frame : Frame} {rest : List Task} {s : String}
    {script : Script} (hop : p.thread.Performs op frame rest)
    (ha : op.action = .reset s script ∨ op.action = .resetInPlace s script)
    (hs : p.thread.slots.get? s = some f) :
    Refills p q f (some ⟨old, .spent f⟩) (some ⟨new, .entry f⟩)

variable {y : Fiber}

/-- The current fiber of the thread that executes. -/
theorem Lawful.current_vacant (h : p.Lawful) (ht : p.Slotted) (hc : p.thread.current = some f)
    (hx : p.Has f x) : x.context = none := by
  obtain ⟨-, x', hx', -⟩ := h.ordered.thread.current_running hc
  rw [(h.has_unique hx (has_here hx')).1]
  exact vacant_current ht.thread h.ordered.thread.toRooted hc hx'

theorem Alters.refills (h : p.Alters q f x y) (hp : p.Lawful) (hhome : p.Homed) (ht : p.Slotted)
    (haway : ¬p.YieldsAway) (hx : p.Has f x) : p.Refills q f x.context y.context := by
  have hfile {serial : Nat} {code : Code} (hc : p.thread.current = some f)
      (ho : code.origin = p.thread.running.code.origin) (hy : y.context = some ⟨serial, code⟩) :
      p.Refills q f x.context y.context := by
    rw [hp.current_vacant ht hc hx, hy]
    exact .file hc ho
  cases h with
  | stay _ hcontext => exact hcontext ▸ .stay _
  | enter _ _ _ _ _ hk hy hc =>
    rw [hk, hy]
    exact .take hc
  | back _ hk hy hc =>
    rw [hk, hy]
    exact .take hc
  | wait hop hc _ hy => exact hfile hc (by rw [hop.code]; rfl) hy
  | yield hop ha _ _ hy =>
    exact hfile (current_of_yields haway hop ha) (by rw [hop.code]; rfl) hy
  | finish hcode _ _ _ hy =>
    exact hfile (hhome.thread.running f (by rw [hcode]; rfl)) (by rw [hcode]; rfl) hy
  | reset hop ha hs hterm _ hy =>
    obtain ⟨x', hx'⟩ := hp.ordered.slot_alive hs
    obtain ⟨rfl, -⟩ := hp.has_unique hx (has_here hx')
    -- What has terminated is not current, so that its place is filled.
    have hfilled : x.context ≠ none := fun hempty => by
      have hstack : x.stack ≠ none := fun hn => by
        simp [hp.ordered.thread.running f x hx' hn] at hterm
      have hc := (ht.thread.empty f x hx' hstack).mp hempty
      have hrunning := hp.ordered.thread.current_state hc hx'
      simp [hterm] at hrunning
    obtain ⟨⟨old, code⟩, hk⟩ := Option.ne_none_iff_exists'.mp hfilled
    obtain rfl : code = .spent f := (ht.thread.rests f x _ hx' hk).of_term hterm
    rw [hk, hy]
    exact .reset hop ha hs

/-- Who reports is at home. -/
theorem Reports.owned (h : p.Reports q) (hhome : p.thread.Homed) (hq : q.thread.Homed) :
    q.reports = p.reports ∨ ∃ event status, q.reports = event :: p.reports ∧
      event.status? = some status ∧ ∀ f, (p.thread.running.code.origin = .callback f →
        status.current = f) ∧ ∀ outcome, p.thread.running.code = .returned .program outcome →
          q.thread.running.code.origin = .callback f → status.current = f := by
  cases h with
  | nothing h => exact .inl h
  | ended hcode h =>
    refine .inr ⟨_, _, h, rfl, fun f => ⟨fun ho => ?_, fun _ hcode' => ?_⟩⟩
    · simp [hhome.running f ho]
    · simp [hcode] at hcode'
  | report h hevent horigin =>
    have hcurrent {f : Nat} (ho : q.thread.running.code.origin = .callback f) :
        q.thread.current.getD 0 = f := by
      simp [hq.running f ho]
    refine .inr ⟨_, _, h, hevent, fun f => ⟨fun ho => ?_, fun _ _ ho => hcurrent ho⟩⟩
    rcases horigin with hsame | hprogram
    · exact hcurrent (hsame.trans ho)
    · simp [hprogram] at ho

end Process

/-! ### All runs at home -/

theorem Scenario.ReachesAtHome.slotted {s : Scenario} {p : Process} (h : s.ReachesAtHome p) :
    p.Slotted := by
  have hstart : s.process.Homed ∧ s.process.Slotted := by
    constructor <;> intro t ht <;> obtain rfl := List.mem_singleton.mp ht
    · exact Thread.homed_start ..
    · exact Thread.slotted_start ..
  exact (h.induction (P := fun p => p.Homed ∧ p.Slotted) hstart fun p q hp h haway ht =>
    ⟨h.1.turn ht haway, h.2.turn hp.ordered h.1 ht haway⟩).2.2

/-- Where contexts rest in a process, and what a step that does not yield away makes of them. -/
structure Process.SlotsHold (p : Process) : Prop where
  /-- On a thread with a root, the code of the current fiber executes. -/
  executing : ∀ t ∈ p.threads, ∀ r, t.root = some r → ∃ c x, t.current = some c ∧
    t.fibers.get? c = some x ∧ t.running.code.origin = x.owner c
  /-- Nothing rests in a fiber exactly while it is current. -/
  empty : ∀ t ∈ p.threads, ∀ f x, t.fibers.get? f = some x →
    (x.context = none ↔ t.current = some f)
  /-- What rests in a fiber is its own start, or its own code as it was suspended. -/
  rests : ∀ t ∈ p.threads, ∀ f x k, t.fibers.get? f = some x → x.context = some k →
    x.Rests f k.code
  /-- No context was overwritten, or went with its fiber, but past its end. -/
  lost : ∀ t ∈ p.threads, ∀ k ∈ t.lost, ∃ f, k.code = .spent f
  refills : ¬p.YieldsAway → ∀ q, Act.step p = .ok () q → ∀ f x y, p.Has f x → q.Has f y →
    p.Refills q f x.context y.context
  /-- What the code of a callback reports, it reports with its fiber as the current one, also
  that a thread it waited for has ended. -/
  reports : ¬p.YieldsAway → ∀ q, Act.step p = .ok () q → q.reports = p.reports ∨
    ∃ event status, q.reports = event :: p.reports ∧ event.status? = some status ∧
      ∀ f, (p.thread.running.code.origin = .callback f → status.current = f) ∧
        ∀ outcome, p.thread.running.code = .returned .program outcome →
          q.thread.running.code.origin = .callback f → status.current = f
  /-- The same of a step that halts. -/
  parting : ∀ halt q, Act.step p = .error halt q → q.reports = p.reports ∨
    ∃ status, q.reports = .ended status :: p.reports ∧
      ∀ f, p.thread.running.code.origin = .callback f → status.current = f

/-- **What rests in fibers.** In every process that a scenario comes to without any code having
yielded a fiber other than the current one, the code of the current fiber executes, and every
other fiber keeps its own start or its own suspended code. No step overwrites a context but the
end of its code in a fiber that is reset, and whatever a callback reports names its fiber. -/
theorem slots_hold (s : Scenario) {p : Process} (hp : s.ReachesAtHome p) : p.SlotsHold := by
  have hlawful : p.Lawful := hp.elim fun _ h => s.lawful.run h.1
  have hhome := hp.homed
  have hslotted := hp.slotted
  exact {
    executing := fun t ht r hr => by
      have hordered := hlawful.ordered t ht
      obtain ⟨c, x, hc, hx, -⟩ := hordered.toAttended.current r hr
      exact ⟨c, x, hc, hx, (hhome t ht).executing hordered.toRooted hc hx⟩
    empty := fun t ht f x hx => by
      by_cases hstack : x.stack = none
      · exact (hlawful.ordered t ht).away f x hx hstack
      · exact (hslotted t ht).empty f x hx hstack
    rests := fun t ht => (hslotted t ht).rests
    lost := fun t ht => (hslotted t ht).lost
    refills := fun haway q hq f x y hx hy =>
      (hlawful.step_alters hq hx hy).2.1.refills hlawful hhome hslotted haway hx
    reports := fun haway q hq =>
      ((Act.step_effects hlawful.ordered).ok hq).reports.owned hhome.thread
        (hhome.turn (hlawful.step hq).1 haway).thread
    parting := fun halt q hq => by
      rcases ((Act.step_effects hlawful.ordered).error hq).reports with h | ⟨_, _, _, h⟩
      · exact .inl h
      · exact .inr ⟨_, h, fun f ho => by simp [hhome.thread.running f ho]⟩ }

open Process in
/-- The callback of `g` is parked inside of a `resume` while that of `k` executes, and the step
that yields `k` puts the code of its callback where its start was. -/
theorem relay_slots_hold : Scenario.relay.ReachesAtHome relayed ∧
    (∃ x k, relayed.thread.fibers.get? 1 = some x ∧ x.context = some k ∧ x.state = .running ∧
      x.Rests 1 k.code) ∧
    ∃ q x y, Act.step relayed = .ok () q ∧ relayed.Has 0 x ∧ q.Has 0 y ∧
      relayed.Refills q 0 x.context y.context ∧ x.context = none ∧ y.context ≠ none := by
  have hp : Scenario.relay.ReachesAtHome relayed :=
    Scenario.reachesAtHome_run (n := 7) (by decide +kernel) (by decide +kernel)
  have hholds := slots_hold _ hp
  have here : relayed.thread ∈ relayed.threads := List.mem_cons_self ..
  have hg : (relayed.thread.fibers.get? 1).any (fun x => x.state = .running ∧ x.context.isSome) =
      true := by decide +kernel
  obtain ⟨x, hx, hparked⟩ := (Option.any_eq_true ..).mp hg
  obtain ⟨hrunning, hfilled⟩ := of_decide_eq_true hparked
  obtain ⟨k, hk⟩ := Option.isSome_iff_exists.mp hfilled
  have haway : ¬relayed.YieldsAway := fun h => by
    have := h.named
    revert this
    decide +kernel
  have hq : Act.step relayed = .ok () (relayed.run 1).2 := step_of_run (by decide +kernel)
  have hcurrent : relayed.thread.current = some 0 := by decide +kernel
  have hk' : ((relayed.run 1).2.thread.fibers.get? 0).any (fun y => y.context.isSome) = true := by
    decide +kernel
  obtain ⟨y, hy, hfiled⟩ := (Option.any_eq_true ..).mp hk'
  have halive : (relayed.thread.fibers.get? 0).isSome = true := by decide +kernel
  obtain ⟨z, hz⟩ := Option.isSome_iff_exists.mp halive
  have hempty := (hholds.empty _ here 0 z hz).mpr hcurrent
  exact ⟨hp, ⟨x, k, hx, hk, hrunning, hholds.rests _ here 1 x k hx hk⟩, _, z, y, hq, has_here hz,
    has_here hy, hholds.refills haway _ hq 0 z y (has_here hz) (has_here hy), hempty,
    Option.isSome_iff_ne_none.mp hfiled⟩

end Fibers
