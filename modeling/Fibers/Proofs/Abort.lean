import Fibers.Proofs.Reach

/-! When switching aborts.

`resumeRefusal?` and `yieldRefusal?` say in which cases, and in which order, the two switches
refuse a fiber. `switch_aborts` is that they do so in these cases and never halt in another
way, from any code and in every process that a scenario comes to. -/
namespace Fibers

/-- The halt that an action comes to, if it does not answer. -/
def Act.halt? {α : Type} (act : Act α) (p : Process) : Option Halt :=
  match act p with
  | .ok .. => none
  | .error halt _ => some halt

/-- Why a fiber cannot be resumed. -/
def Thread.resumeRefusal? (t : Thread) (f : Nat) (x : Fiber) : Option Violation :=
  if x.state ≠ .ready then some (.resumedWhile f x.state)
  else if x.scheduled = true ∧ t.hub = some f then some (.anchorsItself f)
  else none

/-- Why a fiber cannot be yielded. -/
def Thread.yieldRefusal? (t : Thread) (f : Nat) (x : Fiber) : Option Violation :=
  if x.state = .ready then some (.yieldedWhile f .ready)
  else if x.stack = none then some (.rootYielded f)
  else if t.running.code.origin = .program then t.root.map .noContext
  else none

namespace Act
open Process

variable {α : Type} {act : Act α} {p q : Process} {f : Nat} {x : Fiber}

theorem Leads.halt? {reason : Option Violation} {Q : α → Process → Prop}
    {E : Halt → Process → Prop} (h : act.Leads p Q E) (hQ : ∀ a q, Q a q → reason = none)
    (hE : ∀ halt q, E halt q → reason.map .aborted = some halt) :
    act.halt? p = reason.map .aborted := by
  unfold Leads at h
  unfold Act.halt?
  cases hact : act p with
  | ok a q =>
    rw [hact] at h
    rw [hQ a q h]
    rfl
  | error halt q =>
    rw [hact] at h
    exact (hE halt q h).symm

theorem resumeRefusal?_none {t : Thread} (hs : x.state = .ready)
    (ha : ¬(x.scheduled = true ∧ t.hub = some f)) : t.resumeRefusal? f x = none := by
  rw [Thread.resumeRefusal?, if_neg (not_not_intro hs), if_neg ha]

theorem resumeRefusal?_some {t : Thread} {halt : Halt} (h : t.ResumeHalts f x halt) :
    (t.resumeRefusal? f x).map .aborted = some halt := by
  rcases h with ⟨hs, rfl⟩ | ⟨hs, ha, rfl⟩
  · rw [Thread.resumeRefusal?, if_pos hs]
    rfl
  · rw [Thread.resumeRefusal?, if_neg (not_not_intro hs), if_pos ha]
    rfl

theorem yieldRefusal?_none {t : Thread} (hs : x.state ≠ .ready) (hstack : x.stack ≠ none)
    (ho : t.running.code.origin ≠ .program) : t.yieldRefusal? f x = none := by
  rw [Thread.yieldRefusal?, if_neg hs, if_neg hstack, if_neg ho]

theorem yieldRefusal?_some {t : Thread} {halt : Halt} (h : t.YieldHalts f x halt) :
    (t.yieldRefusal? f x).map .aborted = some halt := by
  rcases h with ⟨hs, rfl⟩ | ⟨hs, hstack, rfl⟩ | ⟨hs, hstack, ho, r, hr, rfl⟩
  · rw [Thread.yieldRefusal?, if_pos hs, hs]
    rfl
  · rw [Thread.yieldRefusal?, if_neg hs, if_pos hstack]
    rfl
  · rw [Thread.yieldRefusal?, if_neg hs, if_neg hstack, if_pos ho, hr]
    rfl

theorem resume_halt? {hand : List Nat} (hp : p.thread.Steady p.nextId hand)
    (hx : p.thread.fibers.get? f = some x) :
    (resume f).halt? p = (p.thread.resumeRefusal? f x).map .aborted :=
  (resume_leads hp hx).halt? (fun _ _ h => resumeRefusal?_none h.1 h.2.1)
    fun _ _ h => resumeRefusal?_some h

theorem yieldFiber_halt? {hand : List Nat} (hp : p.thread.Sound hand)
    (hx : p.thread.fibers.get? f = some x) :
    (yieldFiber f).halt? p = (p.thread.yieldRefusal? f x).map .aborted :=
  (yieldFiber_leads hp hx).halt? (fun _ _ h => yieldRefusal?_none h.1 h.2.1 h.2.2.1)
    fun _ _ h => yieldRefusal?_some h

/-! ### Operations -/

variable {op : Op} {frame : Frame} {rest : List Task} {s : String}

theorem step_resume_halt? (hp : p.Ordered) (hop : p.thread.Performs op frame rest)
    (ha : op.action = .resume s) (hs : p.thread.slots.get? s = some f)
    (hx : p.thread.fibers.get? f = some x) :
    step.halt? p = (p.thread.resumeRefusal? f x).map .aborted :=
  (step_resume_leads hp hop ha hs hx).halt? (fun _ _ h => resumeRefusal?_none h.1 h.2.1)
    fun _ _ h => resumeRefusal?_some h

theorem step_yieldOf_halt? (hp : p.Ordered) (hop : p.thread.Performs op frame rest)
    (ha : op.action = .yieldOf s) (hs : p.thread.slots.get? s = some f)
    (hx : p.thread.fibers.get? f = some x) :
    step.halt? p = (p.thread.yieldRefusal? f x).map .aborted := by
  refine (step_yieldOf_leads hp hop ha hs hx).halt? (fun _ _ h => ?_)
    fun _ _ h => yieldRefusal?_some h
  refine yieldRefusal?_none h.1 h.2.1 ?_
  rw [hop.code]
  exact h.2.2.1

theorem step_yield_halt? (hp : p.Ordered) (hop : p.thread.Performs op frame rest)
    (ha : op.action = .yield) (hc : p.thread.current = some f)
    (hx : p.thread.fibers.get? f = some x) :
    step.halt? p = (p.thread.yieldRefusal? f x).map .aborted := by
  have ht := hp.thread
  have hrunning := ht.current_state hc hx
  have hs : x.state ≠ .ready := by simp [hrunning]
  -- The program executes exactly while the current fiber is the root.
  have horigin : frame.origin = .program ↔ x.stack = none := by
    rw [ht.root_iff f x hx, ← hc, eq_comm (a := p.thread.root), ← ht.program_iff, hop.code]
    exact Iff.rfl
  refine (step_yield_leads hp hop ha).halt? (fun _ _ h => ?_) fun halt _ h => ?_
  · have hstack : x.stack ≠ none := fun hn => h.1 (horigin.mpr hn)
    refine yieldRefusal?_none hs hstack ?_
    rw [hop.code]
    exact h.1
  · obtain ⟨ho, r, rfl, hr⟩ := h
    rw [hr f hc]
    exact yieldRefusal?_some (.inr (.inl ⟨hs, horigin.mp ho, rfl⟩))

end Act

/-! ### All runs -/

open Act in
/-- **When switching aborts.** In every process that a scenario comes to, and whatever code
executes, `resume` of a live fiber halts exactly as `resumeRefusal?` says and a yield of it
exactly as `yieldRefusal?` says, taken as actions and as steps of code that performs them.
The program executes exactly while the root is current, a fiber that is not ready has a root on
its thread, and only a root is ever reported to have no saved context. -/
theorem switch_aborts (s : Scenario) :
    (∀ p, s.Reaches p →
      (p.thread.running.code.origin = .program ↔ p.thread.current = p.thread.root) ∧
      ∀ f x, p.thread.fibers.get? f = some x →
        (x.state ≠ .ready → ∃ r, p.thread.root = some r) ∧
        (resume f).halt? p = (p.thread.resumeRefusal? f x).map .aborted ∧
        (yieldFiber f).halt? p = (p.thread.yieldRefusal? f x).map .aborted ∧
        ∀ op frame rest, p.thread.Performs op frame rest →
          (∀ slot, p.thread.slots.get? slot = some f →
            (op.action = .resume slot →
              step.halt? p = (p.thread.resumeRefusal? f x).map .aborted) ∧
            (op.action = .yieldOf slot →
              step.halt? p = (p.thread.yieldRefusal? f x).map .aborted)) ∧
          (op.action = .yield → p.thread.current = some f →
            step.halt? p = (p.thread.yieldRefusal? f x).map .aborted)) ∧
    (∀ n f q, s.process.run n = (some (.aborted (.noContext f)), q) →
      ∃ p x, s.Reaches p ∧ p.thread.root = some f ∧ p.thread.fibers.get? f = some x ∧
        x.stack = none) ∧
    ∀ f state,
      (Violation.resumedWhile f state).message = s!"fiber {f} resumed while {state.name}" ∧
      (Violation.anchorsItself f).message = s!"fiber {f} cannot anchor its own resume" ∧
      (Violation.yieldedWhile f state).message = s!"fiber {f} yielded while {state.name}" ∧
      (Violation.rootYielded f).message = s!"root fiber {f} cannot yield" ∧
      (Violation.noContext f).message = s!"fiber {f} has no saved context" := by
  refine ⟨fun p hp => ?_, fun n f q hrun => ?_, fun f state => ⟨rfl, rfl, rfl, rfl, rfl⟩⟩
  · have hordered := hp.lawful.ordered
    have ht := hordered.thread
    refine ⟨ht.program_iff, fun f x hx => ⟨fun hs => ?_, resume_halt? ht.toSteady hx,
      yieldFiber_halt? ht.toSound hx, fun op frame rest hop => ⟨fun slot hs => ⟨fun ha => ?_,
        fun ha => ?_⟩, fun ha hc => ?_⟩⟩⟩
    · exact Option.ne_none_iff_exists'.mp fun hr => hs ((ht.unrooted hr).2 f x hx)
    · exact step_resume_halt? hordered hop ha hs hx
    · exact step_yieldOf_halt? hordered hop ha hs hx
    · exact step_yield_halt? hordered hop ha hc hx
  · obtain ⟨m, p, hm, hstep⟩ := Process.run_halts hrun
    have hp : s.Reaches p := ⟨m, hm⟩
    have hroot := (hp.lawful.halt hstep).2 f rfl
    have ht := hp.lawful.ordered.thread
    obtain ⟨x, hx⟩ := ht.toCounted.root_alive hroot
    exact ⟨p, x, hp, hroot, hx, (ht.root_iff f x hx).mpr hroot⟩

/-- A fiber is resumed once more than it can be. -/
def Scenario.again : Scenario where
  program := [
    .on "new" "f" (.create "f" (.inline []) 16384 false none),
    .on "resume" "f" (.resume "f"),
    .on "resume" "f" (.resume "f")]

/-- The program is about to resume the fiber again. -/
def Process.resuming : Process := (Scenario.again.process.run 8).2

open Process in
theorem again_switch_aborts : Scenario.again.Reaches resuming ∧
    Act.step.halt? resuming = some (.aborted (.resumedWhile 0 .term)) := by
  have hp : Scenario.again.Reaches resuming := Scenario.reaches_run (by decide +kernel)
  have hcode : resuming.thread.performs?.any
      (fun e => e.1.action.resumes? = some "f") = true := by decide +kernel
  have hslot : resuming.thread.slots.get? "f" = some 0 := by decide +kernel
  have hx : (resuming.thread.fibers.get? 0).map Fiber.state = some .term := by decide +kernel
  obtain ⟨⟨op, frame, rest⟩, hperforms, haction⟩ := (Option.any_eq_true ..).mp hcode
  obtain ⟨x, hx, hterm⟩ := Option.map_eq_some_iff.mp hx
  have ha := Action.of_resumes? (of_decide_eq_true haction)
  obtain ⟨-, h⟩ := (switch_aborts Scenario.again).1 resuming hp
  obtain ⟨-, -, -, h⟩ := h 0 x hx
  have hhalt := ((h op frame rest (Thread.performs_of hperforms)).1 "f" hslot).1 ha
  rw [Thread.resumeRefusal?, hterm] at hhalt
  exact ⟨hp, hhalt⟩

end Fibers
