import Fibers.Proofs.Reach

/-! Code at home.

The code of a fiber's callback is at home while it executes with that fiber current, and rests
nowhere but in that fiber. There is one way to leave home: to yield a fiber other than the
current one, which parks the code that does so in a foreign fiber. Without that all code is at
home at all times (`ReachesAtHome.homed`). -/
namespace Fibers

/-- The slot whose fiber an action yields by name. -/
def Action.yields? : Action → Option String
  | .yieldOf s => some s
  | _ => none

/-- Whose code belongs in a fiber. -/
def Fiber.owner (f : Nat) (x : Fiber) : Origin := if x.stack = none then .program else .callback f

structure Thread.Homed (t : Thread) : Prop where
  running : ∀ f, t.running.code.origin = .callback f → t.current = some f
  resting : ∀ f x k, t.fibers.get? f = some x → x.context = some k → k.code.origin = x.owner f

theorem Fiber.owner_task {f : Nat} {x : Fiber} (h : x.stack ≠ none) : x.owner f = .callback f :=
  if_neg h

/-- The code that executes is that of the current fiber. -/
theorem Thread.Homed.executing {t : Thread} {c : Nat} {x : Fiber} (h : t.Homed) (hr : t.Rooted)
    (hc : t.current = some c) (hx : t.fibers.get? c = some x) :
    t.running.code.origin = x.owner c := by
  unfold Fiber.owner
  split
  · next hstack => rw [hr.program_iff, hc, (hr.root_iff c x hx).mp hstack]
  · next hstack =>
    cases ho : t.running.code.origin with
    | program =>
      have hroot := hr.program_iff.mp ho
      exact (hstack ((hr.root_iff c x hx).mpr (hroot.symm.trans hc))).elim
    | callback f => rw [Option.some.inj ((h.running f ho).symm.trans hc)]

theorem Thread.homed_start (serial : Nat) (program : List Op) : (start serial program).Homed where
  running _ h := nomatch h
  resting _ _ _ h := nomatch h

namespace Process

/-- All code that may go on is at home. -/
def Homed (p : Process) : Prop := ∀ t ∈ p.threads, t.Homed

/-- The executing code is about to yield a fiber other than the current one. -/
def YieldsAway (p : Process) : Prop :=
  ∃ op frame rest s f, p.thread.Performs op frame rest ∧ op.action = .yieldOf s ∧
    p.thread.slots.get? s = some f ∧ p.thread.current ≠ some f

/-- The executing code is about to yield a fiber by name. -/
def yieldsNamed (p : Process) : Bool :=
  p.thread.performs?.any fun (op, _) => op.action.yields?.isSome

variable {p q : Process} {source home f : Nat} {state : State} {op : Op} {frame : Frame}
  {rest : List Task}

theorem YieldsAway.named (h : p.YieldsAway) : p.yieldsNamed = true := by
  obtain ⟨op, frame, rest, s, f, hop, ha, -⟩ := h
  simp [yieldsNamed, Thread.performs?, hop.code, hop.todo, Action.yields?, ha]

/-- What is yielded is the current fiber, unless it is another one by name. -/
theorem current_of_yields (h : ¬p.YieldsAway) (hop : p.thread.Performs op frame rest)
    (ha : op.action = .yield ∧ p.thread.current = some f ∨
      ∃ s, op.action = .yieldOf s ∧ p.thread.slots.get? s = some f) :
    p.thread.current = some f := by
  rcases ha with ⟨-, hc⟩ | ⟨s, ha, hs⟩
  · exact hc
  · exact Decidable.byContradiction fun hc => h ⟨op, frame, rest, s, f, hop, ha, hs, hc⟩

theorem Homed.thread (h : p.Homed) : p.thread.Homed := h _ (List.mem_cons_self ..)

theorem homed_of_like {t u : Thread} (h : t.Like u) (ht : t.Homed) : u.Homed where
  running f hf := by
    rw [h.running] at hf
    rw [h.current]
    exact ht.running f hf
  resting f x k hx hk := ht.resting f x k (h.fibers f ▸ hx) hk

theorem Calm.homed (h : p.Calm q) (hp : p.thread.Homed) : q.thread.Homed where
  running f hf := (h.home f hf).2 (hp.running f (h.home f hf).1)
  resting f y k hy hk := by
    rcases h.fibers f y hy with ⟨x, hx, -, hs, hc⟩ | hm
    · rw [hp.resting f x k hx (hc ▸ hk), Fiber.owner, Fiber.owner, hs]
    · obtain ⟨hstack, hk⟩ := hm.start k hk
      rw [hk, Fiber.owner_task hstack]
      rfl

/-- A switch keeps code at home if it leaves the executing code where that belongs. -/
theorem Switch.homed (h : p.Switch source home state q) (hp : p.thread.Homed)
    (hhome : ∀ y, p.thread.fibers.get? home = some y →
      p.thread.running.code.origin = y.owner home) : q.thread.Homed := by
  obtain @⟨x, y, target, hx, hy, -, ht, like, -, -⟩ := h
  refine homed_of_like like ⟨fun f hf => ?_, fun f z k hz hk => ?_⟩
  · have ho := (hp.resting source x target hx ht).symm.trans hf
    unfold Fiber.owner at ho
    split at ho
    · cases ho
    · cases ho
      rfl
  · obtain ⟨rfl, rfl⟩ | ⟨rfl, rfl⟩ | ⟨-, -, hz⟩ := Thread.switch_cases hz
    · cases hk
      exact hhome y hy
    · cases hk
    · exact hp.resting f z k hz hk

theorem homed_terminate {t : Thread} {x : Fiber} {outcome : Outcome} (h : t.Homed)
    (hcode : t.running.code = .returned (.callback f) outcome)
    (hx : t.fibers.get? f = some x) : (t.terminate f x).Homed where
  running g hg := by
    cases hg
    exact h.running f (by rw [hcode]; rfl)
  resting g y k hy hk := by
    obtain ⟨rfl, rfl⟩ | ⟨-, hy⟩ := Table.set_cases hy
    · exact h.resting g x k hx hk
    · exact h.resting g y k hy hk

theorem homed_renew {t : Thread} {x : Fiber} {serial : Nat} {callback : List Op} (h : t.Homed)
    (hstack : x.stack ≠ none) : (t.renew f x serial callback).Homed where
  running := h.running
  resting g y k hy hk := by
    obtain ⟨rfl, rfl⟩ | ⟨-, hy⟩ := Table.set_cases hy
    · cases hk
      exact (Fiber.owner_task hstack).symm
    · exact h.resting g y k hy hk

/-- The code that resumes a fiber comes to rest in its own. -/
theorem Resumed.homed (h : p.Resumed op frame rest f q) (hp : p.thread.Homed) :
    q.thread.Homed := by
  obtain ⟨hmoved, -, -, -, hc, -, -, -, h⟩ := h
  have hp₁ := hmoved.homed hp
  exact h.homed hp₁ fun y hy => hp₁.executing hmoved.steady.toRooted hc hy

/-- So does the code that yields the current fiber. -/
theorem Yielded.homed {named : Option Nat} (h : p.Yielded op frame rest named f q)
    (hp : p.thread.Homed) (hc : p.thread.current = some f) : q.thread.Homed := by
  obtain ⟨hmoved, -, -, -, -, -, -, -, -, h⟩ := h
  have hp₁ := hmoved.homed hp
  exact h.homed hp₁ fun x hx => hp₁.executing hmoved.steady.toRooted (hmoved.current f hc) hx

theorem Finished.homed {outcome : Outcome} (h : p.Finished f q) (hp : p.thread.Homed)
    (hcode : p.thread.running.code = .returned (.callback f) outcome) : q.thread.Homed := by
  obtain @⟨r, x, z, p₁, hx, hstack, -, -, ht, -, -, -, h⟩ := h
  apply h.homed (homed_of_like ht (homed_terminate hp hcode hx))
  intro x' hx'
  rw [ht.fibers, Thread.get?_terminate, if_pos rfl] at hx'
  cases hx'
  show p₁.thread.running.code.origin = x.owner f
  rw [Fiber.owner_task hstack, ht.running]
  rfl

theorem Renewed.homed (h : p.Renewed f q) (hp : p.thread.Homed) : q.thread.Homed := by
  obtain ⟨hstill, -, hstack, -, like, -, -, hq⟩ := h
  exact hq.homed (homed_of_like like (homed_renew (hstill.homed hp) hstack))

/-- Only a yield of another fiber takes code away from home. -/
theorem Homed.turn (h : p.Homed) (ht : p.Turn q) (hhome : ¬p.YieldsAway) : q.Homed := by
  have hp := h.thread
  exact ht.threads h Thread.homed_start
    (fun p₁ p₂ hmem _ hstill => hstill.homed (h _ hmem)) (fun _ _ _ _ _ _ _ _ hq => hq.homed hp)
    (fun _ _ _ _ _ hop ha hq => hq.homed hp (current_of_yields hhome hop ha))
    (fun _ _ hcode hq => hq.homed hp hcode) fun _ _ _ _ _ _ _ _ _ hq => hq.homed hp

end Process

/-- The processes a scenario comes to without any code having yielded a fiber other than the
current one. -/
def Scenario.ReachesAtHome (s : Scenario) (p : Process) : Prop :=
  ∃ n, s.process.run n = (none, p) ∧
    ∀ m q, m < n → s.process.run m = (none, q) → ¬q.YieldsAway

/-- What every step over lawful processes keeps, as long as the code does not yield away, holds of
all of them. -/
theorem Scenario.ReachesAtHome.induction {s : Scenario} {p : Process} {P : Process → Prop}
    (h : s.ReachesAtHome p) (hstart : P s.process)
    (hstep : ∀ p q, p.Lawful → P p → ¬p.YieldsAway → p.Turn q → P q) : p.Lawful ∧ P p := by
  obtain ⟨n, hrun, hhome⟩ := h
  apply Process.run_induction_along (P := fun p => p.Lawful ∧ P p) _ ⟨s.lawful, hstart⟩ hhome hrun
  rintro p q ⟨hp, h⟩ haway hq
  obtain ⟨ht, hq⟩ := hp.step hq
  exact ⟨hq, hstep p q hp h haway ht⟩

theorem Scenario.ReachesAtHome.homed {s : Scenario} {p : Process} (h : s.ReachesAtHome p) :
    p.Homed := by
  refine (h.induction (fun t ht => ?_) fun p q _ hp haway ht => hp.turn ht haway).2
  obtain rfl := List.mem_singleton.mp ht
  exact Thread.homed_start ..

/-- A run in which no code yields a fiber by name stays at home. -/
theorem Scenario.reachesAtHome_run {s : Scenario} {n : Nat} (h : (s.process.run n).1 = none)
    (hnamed : ∀ m < n, (s.process.run m).2.yieldsNamed = false) :
    s.ReachesAtHome (s.process.run n).2 := by
  refine ⟨n, Prod.ext h rfl, fun m q hm hq haway => ?_⟩
  have := hnamed m hm
  rw [hq, haway.named] at this
  cases this

end Fibers
