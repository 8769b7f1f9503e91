import Fibers.Proofs.Alter
import Fibers.Proofs.Home

/-! The states a fiber goes through.

`Passes` lists what a step may do to the state of a task fiber, and by what. Roots run as long
as they are there. A callback may complete while its fiber is ready: that of a fiber which was
yielded from outside while its own code was parked elsewhere. Then the fiber terminates without
having run again. -/
namespace Fibers.Process

/-- What a step may do to the state of a fiber. -/
inductive Passes (p : Process) (f : Nat) : State → State → Prop
  | stay (state : State) : Passes p f state state
  /-- It is resumed. -/
  | resume {op : Op} {frame : Frame} {rest : List Task} {s : String}
    (hop : p.thread.Performs op frame rest) (ha : op.action = .resume s)
    (hs : p.thread.slots.get? s = some f) : Passes p f .ready .running
  /-- It is yielded, as the current fiber or by name. -/
  | yield {op : Op} {frame : Frame} {rest : List Task} (hop : p.thread.Performs op frame rest)
    (ha : op.action = .yield ∧ p.thread.current = some f ∨
      ∃ s, op.action = .yieldOf s ∧ p.thread.slots.get? s = some f) : Passes p f .running .ready
  /-- Its callback has completed. It was running then, unless it was yielded from outside. -/
  | finish {state : State} {outcome : Outcome}
    (hcode : p.thread.running.code = .returned (.callback f) outcome) (hterm : state ≠ .term)
    (hcurrent : p.thread.current = some f → state = .running) : Passes p f state .term
  /-- It is reset. -/
  | reset {op : Op} {frame : Frame} {rest : List Task} {s : String} {script : Script}
    (hop : p.thread.Performs op frame rest)
    (ha : op.action = .reset s script ∨ op.action = .resetInPlace s script)
    (hs : p.thread.slots.get? s = some f) : Passes p f .term .ready

variable {p q : Process} {f : Nat} {x y : Fiber}

theorem Alters.passes (h : p.Alters q f x y) : p.Passes f x.state y.state := by
  cases h with
  | stay hstate => exact hstate ▸ .stay _
  | back hstate => exact hstate ▸ .stay _
  | wait _ _ hstate => exact hstate ▸ .stay _
  | enter hop ha hs hready hstate =>
    rw [hready, hstate]
    exact .resume hop ha hs
  | yield hop ha hready hstate =>
    rw [hstate]
    cases hs : x.state with
    | ready => exact (hready hs).elim
    | running => exact .yield hop ha
    | term => exact .stay _
  | finish hcode hterm hcurrent hstate => exact hstate ▸ .finish hcode hterm hcurrent
  | reset hop ha hs hterm hstate =>
    rw [hterm, hstate]
    exact .reset hop ha hs

end Fibers.Process

namespace Fibers
open Process

/-- **The lifecycle of fibers.** In every step of every run a fiber that was there before keeps
its stack and changes its state, if at all, in one of the ways that `Passes` lists, and a new
one is a ready task or a running root. Roots run. When a callback has completed its fiber
terminates, from whatever state it is in: that is running as long as no code has yielded a fiber
other than the current one, and may be ready after that. -/
theorem lifecycle (s : Scenario) {p q : Process} (hp : s.Reaches p) (hq : Act.step p = .ok () q) :
    (∀ f x y, p.Has f x → q.Has f y → y.stack = x.stack ∧ p.Passes f x.state y.state) ∧
    (∀ f y, q.Has f y → (∃ x, p.Has f x) ∨ y.state = if y.stack = none then .running else .ready) ∧
    (∀ f x, p.Has f x → x.stack = none → x.state = .running) ∧
    ∀ f outcome, p.thread.running.code = .returned (.callback f) outcome → ∃ x y,
      p.Has f x ∧ x.state ≠ .term ∧ q.Has f y ∧ y.state = .term ∧
      (s.ReachesAtHome p → x.state = .running) := by
  have hlawful := hp.lawful
  have hordered := hlawful.ordered
  obtain ⟨hturn, hq'⟩ := hlawful.step hq
  refine ⟨fun f x y hx hy => ?_, fun f y hy => ?_, fun f x => hlawful.root_running,
    fun f outcome hcode => ?_⟩
  · obtain ⟨hstack, ha, -⟩ := hlawful.step_alters hq hx hy
    exact ⟨hstack, ha.passes⟩
  · rcases hturn.descends hordered hy with ⟨x, hx, -⟩ | hnew
    · exact .inl ⟨x, hx⟩
    · exact .inr hnew.state
  · obtain ⟨x, hx, hstack, hterm⟩ := hordered.thread.toSound.returned hcode
    obtain ⟨-, hfinished, -⟩ := (Act.step_finish_leads hordered hcode hx).ok hq
    obtain ⟨y, hy, hyterm, -⟩ := hfinished.left hx
    refine ⟨x, y, has_here hx, hterm, has_here hy, hyterm, fun hhome => ?_⟩
    obtain ⟨-, x', hx', hrunning⟩ := hordered.thread.current_running
      (hhome.homed.thread.running f (by rw [hcode]; rfl))
    rw [hx] at hx'
    cases hx'
    exact hrunning

/-- A callback that yields is resumed. -/
def Scenario.pause : Scenario where
  program := [
    .on "new" "k" (.create "k" (.inline [.mk ⟨"yield", none⟩ .yield]) 16384 false none),
    .on "resume" "k" (.resume "k")]

/-- The program is about to resume it. -/
def Process.pausing : Process := (Scenario.pause.process.run 2).2

theorem pause_lifecycle : Scenario.pause.Reaches pausing ∧ ∃ q x y, Act.step pausing = .ok () q ∧
    pausing.Has 0 x ∧ q.Has 0 y ∧ x.state = .ready ∧ y.state = .running ∧
    pausing.Passes 0 .ready .running := by
  have hp : Scenario.pause.Reaches pausing := Scenario.reaches_run (by decide +kernel)
  have hq : Act.step pausing = .ok () (pausing.run 1).2 := step_of_run (by decide +kernel)
  have hx : (pausing.thread.fibers.get? 0).map Fiber.state = some .ready := by decide +kernel
  have hy : ((pausing.run 1).2.thread.fibers.get? 0).map Fiber.state = some .running := by
    decide +kernel
  obtain ⟨x, hx, hready⟩ := Option.map_eq_some_iff.mp hx
  obtain ⟨y, hy, hrunning⟩ := Option.map_eq_some_iff.mp hy
  have hpasses := ((lifecycle _ hp hq).1 0 x y (has_here hx) (has_here hy)).2
  rw [hready, hrunning] at hpasses
  exact ⟨hp, _, x, y, hq, has_here hx, has_here hy, hready, hrunning, hpasses⟩

/-- The callback of `f` is parked in `g`, and then `f` is yielded by the callback of `h`.
Resuming `g` continues the callback of `f`, which completes. -/
def Scenario.strayReady : Scenario where
  program := [
    .on "new" "k" (.create "k" (.inline [.mk ⟨"yield", none⟩ .yield]) 65536 false none),
    .on "new" "g" (.create "g" (.inline [.on "resume" "k" (.resume "k")]) 65536 false none),
    .on "resume" "g" (.resume "g"),
    .on "new" "f" (.create "f" (.inline [.on "yield_of" "g" (.yieldOf "g")]) 65536 false none),
    .on "resume" "f" (.resume "f"),
    .on "new" "h" (.create "h" (.inline [.on "yield_of" "f" (.yieldOf "f")]) 65536 false none),
    .on "resume" "h" (.resume "h"),
    .on "state" "f" (.state "f"),
    .on "resume" "g" (.resume "g"),
    .on "state" "f" (.state "f")]

/-- The callback of `f` has completed. -/
def Process.strayed : Process := (Scenario.strayReady.process.run 24).2

/-- A ready fiber terminates without having run again. -/
theorem strayReady_lifecycle : Scenario.strayReady.Reaches strayed ∧
    Act.step strayed = .ok () (strayed.run 1).2 ∧
    (strayed.thread.fibers.get? 3).map Fiber.state = some .ready ∧
    ((strayed.run 1).2.thread.fibers.get? 3).map Fiber.state = some .term :=
  ⟨Scenario.reaches_run (by decide +kernel), step_of_run (by decide +kernel), by decide +kernel,
    by decide +kernel⟩

end Fibers
