import Fibers.Proofs.Release
import Fibers.Proofs.Return

/-! Contexts and callbacks are used once.

No two contexts of a process have the same serial number, wherever they are, and a context that
was continued never rests again (`Lawful.spent_context`). A callback stays with its fiber, which
waits, until the fiber is resumed; the step after that takes it, and from then on the fiber has
none until it is reset (`Lawful.waits_run`, `Lawful.taken_run`). -/
namespace Fibers
namespace Thread

/-- All contexts a thread ever had: the one that executes, those that rest in fibers and those that
are lost. -/
def contexts (t : Thread) : List Context :=
  t.running :: t.fibers.values.filterMap Fiber.context ++ t.lost

theorem count_resting (s : Nat) (xs : List Fiber) :
    ((xs.filterMap Fiber.context).map Context.serial).count s =
      (xs.map (Fiber.weigh fun k => [k.serial].count s)).sum := by
  induction xs with
  | nil => rfl
  | cons x xs ih =>
    rw [List.map_cons, List.sum_cons, ← ih, Fiber.weigh]
    cases hx : x.context with
    | none => rw [List.filterMap_cons_none hx, Option.elim_none, Nat.zero_add]
    | some k =>
      rw [List.filterMap_cons_some hx, Option.elim_some, List.map_cons, ← List.singleton_append,
        List.count_append]

/-- Serial numbers are counted over the contexts. -/
theorem count_contexts (t : Thread) (s : Nat) :
    (t.contexts.map Context.serial).count s = t.numbered s := by
  have hlost : (t.lost.map Context.serial).count s =
      (t.lost.map fun k => [k.serial].count s).sum := by
    induction t.lost with
    | nil => rfl
    | cons k lost ih =>
      rw [List.map_cons, ← List.singleton_append, List.count_append, ih, List.map_cons,
        List.sum_cons]
  rw [contexts, List.cons_append, List.map_cons, List.map_append, ← List.singleton_append,
    List.count_append, List.count_append, count_resting, hlost, ← Nat.add_assoc]
  rfl

end Thread

namespace Process

/-- All contexts of all threads. -/
def contexts (p : Process) : List Context := p.everyThread.flatMap Thread.contexts

/-- The context rests in the fiber, on whatever thread that is. -/
def Rests (p : Process) (f : Nat) (k : Context) : Prop := ∃ x, p.Has f x ∧ x.context = some k

/-- The executing code is about to resume the fiber. -/
def Calls (p : Process) (f : Nat) : Prop :=
  ∃ op frame rest s, p.thread.Performs op frame rest ∧ op.action = .resume s ∧
    p.thread.slots.get? s = some f

/-- The executing code is about to reset the fiber. -/
def Resets (p : Process) (f : Nat) : Prop :=
  ∃ op frame rest s script, p.thread.Performs op frame rest ∧
    (op.action = .reset s script ∨ op.action = .resetInPlace s script) ∧
    p.thread.slots.get? s = some f

/-- The executing code is the start of the fiber, about to take its callback. -/
def Begins (p : Process) (f : Nat) : Prop := p.thread.running.code = .entry f

variable {p q r : Process} {source home f n : Nat} {state : State} {x y : Fiber} {k : Context}

/-! ### No context rests twice -/

/-- What rests afterwards rested before, or is new. -/
structure Reposes (p q : Process) : Prop where
  nextSerial : p.nextSerial ≤ q.nextSerial
  rests : ∀ f k, q.Rests f k → p.Rests f k ∨ p.nextSerial ≤ k.serial

theorem Reposes.trans (h : p.Reposes q) (h' : q.Reposes r) : p.Reposes r where
  nextSerial := Nat.le_trans h.nextSerial h'.nextSerial
  rests f k hk := by
    rcases h'.rests f k hk with hk | hk
    · exact h.rests f k hk
    · exact .inr (Nat.le_trans h.nextSerial hk)

theorem Reposes.of_thread (hq : p.Onward q) (h : ∀ f x k, q.thread.fibers.get? f = some x →
    x.context = some k → (∃ x, p.thread.fibers.get? f = some x ∧ x.context = some k) ∨
      p.nextSerial ≤ k.serial) : p.Reposes q where
  nextSerial := hq.nextSerial
  rests f k := by
    rintro ⟨x, ⟨t, ht, hx⟩, hk⟩
    rcases List.mem_cons.mp ht with rfl | ht
    · exact (h f x k hx hk).imp_left fun ⟨x, hx, hk⟩ => ⟨x, has_here hx, hk⟩
    · rw [hq.joining, hq.ended] at ht
      exact .inl ⟨x, ⟨t, List.mem_cons_of_mem _ ht, hx⟩, hk⟩

theorem Calm.reposes (h : p.Calm q) : p.Reposes q := by
  refine .of_thread h.onward fun f y k hy hk => ?_
  rcases h.fibers f y hy with ⟨x, hx, -, -, hcontext⟩ | hm
  · exact .inl ⟨x, hx, hcontext ▸ hk⟩
  · exact .inr (hm.context k hk).1

theorem Switch.reposes (h : p.Switch source home state q) : p.Reposes q := by
  obtain ⟨-, -, -, -, like, -, onward⟩ := h
  refine .of_thread onward fun f z k hz hk => ?_
  rw [like.fibers] at hz
  obtain ⟨rfl, rfl⟩ | ⟨rfl, rfl⟩ | ⟨-, -, hz⟩ := Thread.switch_cases hz
  · cases hk
    exact .inr (Nat.le_refl _)
  · cases hk
  · exact .inl ⟨z, hz, hk⟩

theorem terminate_reposes (hx : p.thread.fibers.get? f = some x)
    (like : (p.thread.terminate f x).Like q.thread) (hq : p.Onward q) : p.Reposes q := by
  refine .of_thread hq fun g y k hy hk => .inl ?_
  rw [like.fibers] at hy
  obtain ⟨rfl, rfl⟩ | ⟨-, hy⟩ := Table.set_cases hy
  · exact ⟨x, hx, hk⟩
  · exact ⟨y, hy, hk⟩

theorem renew_reposes {callback : List Op}
    (like : (p.thread.renew f x p.nextSerial callback).Like q.thread) (hq : p.Onward q) :
    p.Reposes q := by
  refine .of_thread hq fun g y k hy hk => ?_
  rw [like.fibers] at hy
  obtain ⟨rfl, rfl⟩ | ⟨-, hy⟩ := Table.set_cases hy
  · cases hk
    exact .inr (Nat.le_refl _)
  · exact .inl ⟨y, hy, hk⟩

theorem Change.reposes (h : p.Change q) : p.Reposes q := by
  induction h with
  | calm h => exact h.reposes
  | switch _ _ h => exact h.reposes
  | terminate hx ht hq => exact terminate_reposes hx ht hq
  | renew _ ht _ hq => exact renew_reposes ht hq
  | @launch p q label program ht hserial hid hj he =>
    refine ⟨by omega, fun f k ⟨x, ⟨t, hmem, hx⟩, hk⟩ => ?_⟩
    rcases List.mem_cons.mp hmem with rfl | hmem
    · rw [ht] at hx
      cases hx
    · rw [hj, he] at hmem
      exact .inl ⟨x, ⟨t, hmem, hx⟩, hk⟩
  | @join p q joiner rest hj ht hj' he hid hserial =>
    refine ⟨Nat.le_of_eq hserial.symm, fun f k ⟨x, ⟨t, hmem, hx⟩, hk⟩ => ?_⟩
    exact .inl ⟨x, ⟨t, (mem_everyThread_join hj ht hj' he).mp hmem, hx⟩, hk⟩
  | trans _ _ ih ih' => exact ih.trans ih'

/-- No two contexts have the same serial number. -/
theorem Lawful.nodup_contexts (h : p.Lawful) : (p.contexts.map Context.serial).Nodup := by
  rw [List.nodup_iff_count_le_one]
  intro s
  have hsum : (p.contexts.map Context.serial).count s = p.sum (Thread.numbered s) := by
    unfold contexts sum
    induction p.everyThread with
    | nil => rfl
    | cons t ts ih =>
      rw [List.flatMap_cons, List.map_append, List.count_append, ih, Thread.count_contexts,
        List.map_cons, List.sum_cons]
  have honce := h.serials s
  rw [hsum]
  split at honce <;> omega

/-- The context that executes does not rest as well, and its serial number is taken. -/
theorem Lawful.running_awake (h : p.Lawful) :
    p.thread.running.serial < p.nextSerial ∧
      ∀ f k, p.Rests f k → k.serial ≠ p.thread.running.serial := by
  have hmem : p.thread ∈ p.everyThread := List.mem_cons_self ..
  have hrun := numbered_continuable (t := p.thread) (s := p.thread.running.serial) (.inl rfl)
  refine ⟨(h.serials.same hmem hmem hrun hrun).2.2, fun f k ⟨x, ⟨t, ht, hx⟩, hk⟩ hs => ?_⟩
  have hrest := numbered_resting hx hk
  rw [hs] at hrest
  obtain ⟨rfl, hle, -⟩ := h.serials.same hmem ht hrun hrest
  have hsum := numbered_eq p.thread p.thread.running.serial
  have hshare := Table.le_total
    (Fiber.weigh fun k => [k.serial].count p.thread.running.serial) hx
  rw [Fiber.weigh, hk, Option.elim_some, hs, List.count_singleton_self] at hshare
  rw [List.count_singleton_self] at hsum
  omega

/-- What executes never rests again under the same serial number. -/
theorem Lawful.spent_context (h : p.Lawful) (hrun : p.run n = (none, q)) (hk : q.Rests f k) :
    k.serial ≠ p.thread.running.serial := by
  have hgone : q.Lawful ∧ p.thread.running.serial < q.nextSerial ∧
      ∀ f k, q.Rests f k → k.serial ≠ p.thread.running.serial := by
    refine run_induction (P := fun q => q.Lawful ∧ p.thread.running.serial < q.nextSerial ∧
      ∀ f k, q.Rests f k → k.serial ≠ p.thread.running.serial)
      (fun p' q ⟨hp, hlt, hgone⟩ hstep => ?_) ⟨h, h.running_awake⟩ hrun
    obtain ⟨hturn, hq⟩ := hp.step hstep
    have hreposes := hturn.change.reposes
    refine ⟨hq, Nat.lt_of_lt_of_le hlt hreposes.nextSerial, fun f k hk hs => ?_⟩
    rcases hreposes.rests f k hk with hk | hk
    · exact hgone f k hk hs
    · omega
  exact hgone.2.2 f k hk

/-! ### Callbacks begin once -/

/-- The code that a fiber starts with is that of a current fiber, which runs. -/
theorem Lawful.begins_running (h : p.Lawful) (hf : p.Begins f) (hx : p.Has f x) :
    x.state = .running := by
  have ht := h.ordered.thread
  obtain ⟨-, y, hy, hrunning⟩ := ht.current_running (ht.starting f hf)
  rw [(h.has_unique hx (has_here hy)).1, hrunning]

/-- A fiber that waits goes on waiting, with the same callback and the same start, until it is
resumed. -/
theorem Lawful.waits_step (h : p.Lawful) (hp : p.Upheld) (hq : Act.step p = .ok () q)
    (hx : p.Has f x) (hw : x.Waits) (hc : ¬p.Calls f) :
    ∃ y, q.Has f y ∧ y.Waits ∧ y.callback = x.callback ∧ y.context = x.context := by
  have hready : ¬x.state = .running ∧ ¬x.state = .term := by simp [hw.ready]
  obtain ⟨hturn, hlawful⟩ := h.step hq
  obtain ⟨y, hy⟩ := hturn.stays hx hw.task hready.2
  obtain ⟨hstack, ha, hcallback⟩ := h.step_alters hq hx hy
  have hsame : y.callback = x.callback := by
    cases hcallback with
    | keep h => exact h
    | begin hcode => exact (hready.1 (h.begins_running hcode hx)).elim
    | install hterm => exact (hready.2 hterm).elim
  have hstay : y.state = x.state ∧ y.context = x.context := by
    cases ha with
    | stay hstate hcontext => exact ⟨hstate, hcontext⟩
    | enter hop ha hs => exact (hc ⟨_, _, _, _, hop, ha, hs⟩).elim
    | back hstate _ _ hc =>
      obtain ⟨-, z, hz, hrunning⟩ := hlawful.ordered.thread.current_running hc
      rw [← (hlawful.has_unique hy (has_here hz)).1, hstate] at hrunning
      exact (hready.1 hrunning).elim
    | wait _ hc =>
      obtain ⟨-, z, hz, hrunning⟩ := h.ordered.thread.current_running hc
      rw [← (h.has_unique hx (has_here hz)).1] at hrunning
      exact (hready.1 hrunning).elim
    | yield _ _ hne => exact (hne hw.ready).elim
    | finish hcode =>
      have hunder : p.Underway f := ⟨p.thread, List.mem_cons_self .., p.thread.running, .running,
        by rw [hcode]; exact List.mem_singleton_self f⟩
      obtain ⟨z, hz, hstarted⟩ := hp.underway_iff.mp hunder
      rw [(h.has_unique hz hx).1] at hstarted
      exact (hw.untaken hstarted.taken).elim
    | reset _ _ _ hterm => exact (hready.2 hterm).elim
  exact ⟨y, hy, ⟨hstack ▸ hw.task, hstay.1.trans hw.ready, hsame ▸ hw.untaken⟩, hsame, hstay.2⟩

/-- The fiber that is resumed first begins next, with what it was given, as the current fiber. -/
theorem Lawful.calls_step (h : p.Lawful) (hprimed : p.Primed) (hq : Act.step p = .ok () q)
    (hx : p.Has f x) (hw : x.Waits) (hc : p.Calls f) :
    q.Begins f ∧ q.thread.current = some f ∧ x.context = some q.thread.running ∧
      ∃ y, q.thread.fibers.get? f = some y ∧ y.callback = x.callback := by
  obtain ⟨op, frame, rest, s, hop, ha, hs⟩ := hc
  obtain ⟨x', hx'⟩ := h.ordered.slot_alive hs
  cases (h.has_unique hx (has_here hx')).1
  obtain ⟨-, -, p₁, c, hground, -, hswitch⟩ :=
    (Act.step_resume_switches h.ordered hop ha hs hx').ok hq
  obtain ⟨-, -, hx₁⟩ := h.ordered.inside (.resumed op.label f) hop hx' rfl
  have hx₂ := hground.fibers f _ hx₁
  have hrun : x.context = some q.thread.running :=
    hswitch.running (x := {x with handles := x.handles + 1}) hx₂
  refine ⟨?_, hswitch.current, hrun, _, hswitch.entered hx₂, rfl⟩
  rcases (hprimed.thread.callback f x hx').mp hw.untaken with hcode | ⟨k, hk, hcode⟩
  · rw [hop.code] at hcode
    cases hcode
  · cases hrun.symm.trans hk
    exact hcode

/-- A fiber without a callback has none after a step either, unless it is reset. -/
theorem Lawful.taken_step (h : p.Lawful) (hq : Act.step p = .ok () q) (hf : f < p.nextId)
    (hx : ∀ x, p.Has f x → x.callback = none) (hr : ¬p.Resets f) (hy : q.Has f y) :
    y.callback = none := by
  rcases (h.step hq).1.descends h.ordered hy with ⟨x, hx', -, ha, hcallback⟩ | hnew
  · cases hcallback with
    | keep h => exact h.trans (hx x hx')
    | begin _ h => exact h
    | install hterm hready =>
      cases ha with
      | stay hstate | back hstate | wait _ _ hstate => simp [hready, hterm] at hstate
      | enter _ _ _ hready' => simp [hterm] at hready'
      | yield _ _ _ hstate => simp [hready, hterm, State.yielded] at hstate
      | finish _ hterm' => exact (hterm' hterm).elim
      | reset hop ha hs => exact (hr ⟨_, _, _, _, _, hop, ha, hs⟩).elim
  · exact (Nat.not_le_of_lt hf hnew.low).elim

/-- What begins has its callback. -/
theorem Primed.begins_untaken (h : p.Primed) (hp : p.Lawful) (hf : p.Begins f) :
    ∃ x, p.Has f x ∧ x.callback ≠ none := by
  have ht := hp.ordered.thread
  obtain ⟨-, x, hx, -⟩ := ht.current_running (ht.starting f hf)
  exact ⟨x, has_here hx, (h.thread.callback f x hx).mpr (.inl hf)⟩

/-- A thread ends in the code of its program. -/
def EndedProgram (p : Process) : Prop := ∀ t ∈ p.ended, t.running.code.origin = .program

theorem EndedProgram.turn (h : p.EndedProgram) (ht : p.Turn q) : q.EndedProgram := by
  rcases ht.ended_cases with he | ⟨r, hclosed, he⟩
  · exact fun t hmem => h t (he ▸ hmem)
  · intro t hmem
    rw [he] at hmem
    rcases List.mem_cons.mp hmem with rfl | hmem
    · rw [hclosed.running]
      exact hclosed.program
    · exact h t hmem

/-- A start rests in a fiber exactly while that waits. -/
theorem Primed.start_iff (h : p.Primed) (hp : p.Lawful) (hended : p.EndedProgram)
    (hx : p.Has f x) :
    (∃ k, x.context = some k ∧ k.code = .entry f) ↔ x.state = .ready ∧ x.callback ≠ none := by
  obtain ⟨t, ht, hx⟩ := hx
  have hprimed := h t ht
  constructor
  · rintro ⟨k, hk, hcode⟩
    exact ⟨(hprimed.rests f x k f hx hk hcode).2,
      (hprimed.callback f x hx).mpr (.inr ⟨k, hk, hcode⟩)⟩
  · rintro ⟨hready, hcallback⟩
    refine ((hprimed.callback f x hx).mp hcallback).resolve_left fun hcode => ?_
    rcases List.mem_append.mp ht with ht | ht
    · have hsteady := (hp.ordered t ht).toSteady
      have hrunning := hsteady.current_state (hsteady.starting f hcode) hx
      simp [hready] at hrunning
    · have hprogram := hended t ht
      rw [hcode] at hprogram
      cases hprogram

/-- What contexts and callbacks do in a process, and what becomes of them. -/
structure UsedOnce (p : Process) : Prop where
  /-- The contexts that execute, rest or are lost are all different. -/
  distinct : (p.contexts.map Context.serial).Nodup
  /-- A context that rested and is continued never rests again, so that no step continues it a
  second time. -/
  context : ∀ f k q, p.Rests f k → Act.step p = .ok () q → q.thread.running = k →
    ∀ n q', q.run n = (none, q') → ∀ g k', q'.Rests g k' → k'.serial ≠ k.serial
  /-- A start rests in no fiber but its own. -/
  own : ∀ f k g, p.Rests f k → k.code = .entry g → g = f
  /-- It does so exactly while the fiber is ready with a callback that has not begun. -/
  start : ∀ f x, p.Has f x → ((∃ k, x.context = some k ∧ k.code = .entry f) ↔
    x.state = .ready ∧ x.callback ≠ none)
  /-- A fiber that is made waits to begin. -/
  made : ∀ q, Act.step p = .ok () q → ∀ f y, q.Has f y → y.stack ≠ none → (¬∃ x, p.Has f x) →
    y.Waits
  /-- So does a terminated fiber that is ready again, which takes a reset. -/
  renewed : ∀ q, Act.step p = .ok () q → ∀ f x y, p.Has f x → q.Has f y → x.state = .term →
    y.state = .ready → p.Resets f ∧ y.Waits
  /-- It waits with what it was given until it is resumed. -/
  waits : ∀ n q, p.run n = (none, q) → ∀ f x, p.Has f x → x.Waits →
    (∀ m p', m < n → p.run m = (none, p') → ¬p'.Calls f) →
    ¬q.Begins f ∧ ∃ y, q.Has f y ∧ y.Waits ∧ y.callback = x.callback ∧ y.context = x.context
  /-- The first `resume` continues its start, with the fiber current. -/
  calls : ∀ q, Act.step p = .ok () q → ∀ f x, p.Has f x → x.Waits → p.Calls f →
    q.Begins f ∧ q.thread.current = some f ∧ x.context = some q.thread.running ∧
      ∃ y, q.thread.fibers.get? f = some y ∧ y.callback = x.callback
  /-- The start takes the callback and becomes its code. -/
  begins : ∀ f, p.Begins f → p.thread.current = some f ∧ ∃ x callback q,
    p.thread.fibers.get? f = some x ∧ x.callback = some callback ∧ Act.step p = .ok () q ∧
    q.thread.running.code = .active ⟨.callback f, [], Task.ofOps callback⟩ ∧
    q.thread.current = some f ∧ ∃ y, q.thread.fibers.get? f = some y ∧ y.callback = none
  /-- A fiber whose callback was taken does not begin again before it is reset. -/
  taken : ∀ n q, p.run n = (none, q) → ∀ f x, p.Has f x → x.callback = none →
    (∀ m p', m < n → p.run m = (none, p') → ¬p'.Resets f) →
    ¬q.Begins f ∧ ∀ y, q.Has f y → y.callback = none

end Process

/-- What a scenario comes to is lawful, with callbacks kept by starts and by their code, and with
threads that ended in their programs. -/
theorem Scenario.Reaches.prepared {s : Scenario} {p : Process} (h : s.Reaches p) :
    p.Upheld ∧ p.Primed ∧ p.EndedProgram := by
  obtain ⟨n, hrun⟩ := id h
  have hended : p.Lawful ∧ p.EndedProgram := by
    refine Process.run_induction (P := fun p => p.Lawful ∧ p.EndedProgram)
      (fun p q ⟨hp, hended⟩ hq => ?_) ⟨s.lawful, fun _ hmem => nomatch hmem⟩ hrun
    obtain ⟨hturn, hq⟩ := hp.step hq
    exact ⟨hq, hended.turn hturn⟩
  exact ⟨h.upheld, h.primed, hended.2⟩

open Process in
/-- **Contexts and callbacks are used once.** In every process that a scenario comes to, no two
contexts are the same, and one that is continued never rests again. A start rests in its own
fiber, as long as that is ready with a callback that has not begun. The first `resume` of the
fiber continues the start, which takes the callback with the fiber as the current one, and the
fiber begins nothing else until it is reset. -/
theorem used_once (s : Scenario) {p : Process} (hp : s.Reaches p) : p.UsedOnce := by
  have hlawful := hp.lawful
  obtain ⟨hupheld, hprimed, hended⟩ := hp.prepared
  refine ⟨hlawful.nodup_contexts, fun f k q _ hq hrun n q' hrun' g k' hk' => ?_,
    fun f k g ⟨x, ⟨t, ht, hx⟩, hk⟩ hcode => ((hprimed t ht).rests f x k g hx hk hcode).1,
    fun f x hx => hprimed.start_iff hlawful hended hx, fun q hq f y hy hstack hnew => ?_,
    fun q hq f x y hx hy hterm hready => ?_, fun n q hrun f x hx hw hcalls => ?_,
    fun q hq f x => hlawful.calls_step hprimed hq, fun f hf => ?_,
    fun n q hrun f x hx hcallback hresets => ?_⟩
  · exact hrun ▸ (hp.step hq).lawful.spent_context hrun' hk'
  · obtain ⟨x, hx, -⟩ | hm := (hlawful.step hq).1.descends hlawful.ordered hy
    · exact (hnew ⟨x, hx⟩).elim
    · exact ⟨hstack, by rw [hm.state, if_neg hstack], fun h => hstack (hm.callback.mp h)⟩
  · have hq' := hp.step hq
    obtain ⟨-, hprimed', hended'⟩ := hq'.prepared
    obtain ⟨hstack, ha, -⟩ := hlawful.step_alters hq hx hy
    have htask : y.stack ≠ none := fun hroot => by
      have := hq'.lawful.root_running hy hroot
      simp [hready] at this
    cases ha with
    | stay hstate | back hstate | wait _ _ hstate => simp [hready, hterm] at hstate
    | enter _ _ _ hready' => simp [hterm] at hready'
    | yield _ _ _ hstate => simp [hready, hterm, State.yielded] at hstate
    | finish _ hterm' => exact (hterm' hterm).elim
    | reset hop ha hs _ _ hk =>
      exact ⟨⟨_, _, _, _, _, hop, ha, hs⟩, htask, hready,
        ((hprimed'.start_iff hq'.lawful hended' hy).mp ⟨_, hk, rfl⟩).2⟩
  · have hstays : s.Reaches q ∧ ∃ y, q.Has f y ∧ y.Waits ∧ y.callback = x.callback ∧
        y.context = x.context := by
      refine run_induction_along (P := fun q => s.Reaches q ∧ ∃ y, q.Has f y ∧ y.Waits ∧
        y.callback = x.callback ∧ y.context = x.context) (R := fun p' => ¬p'.Calls f)
        (fun p' q h hcall hq => ?_) ⟨hp, x, hx, hw, rfl, rfl⟩ hcalls hrun
      obtain ⟨hp', y, hy, hw, hsame, hrest⟩ := h
      obtain ⟨z, hz, hw', hsame', hrest'⟩ := hp'.lawful.waits_step hp'.upheld hq hy hw hcall
      exact ⟨hp'.step hq, z, hz, hw', hsame'.trans hsame, hrest'.trans hrest⟩
    obtain ⟨hq, y, hy, hw', h⟩ := hstays
    refine ⟨fun hbegins => ?_, y, hy, hw', h⟩
    have := hq.lawful.begins_running hbegins hy
    simp [hw'.ready] at this
  · have hc := hlawful.ordered.thread.starting f hf
    obtain ⟨_, q, hq, x, callback, hx, hcallback, haside⟩ :=
      (Act.step_begin_leads hlawful.ordered hprimed.thread hf).answers
    refine ⟨hc, x, callback, q, hx, hcallback, hq, ?_, haside.like.current.trans hc, _,
      (haside.like.fibers f).trans (Thread.get?_setFiber.trans (if_pos rfl)), rfl⟩
    rw [haside.like.running]
    rfl
  · have hstays : s.Reaches q ∧ f < q.nextId ∧ ∀ y, q.Has f y → y.callback = none := by
      refine run_induction_along (P := fun q => s.Reaches q ∧ f < q.nextId ∧
        ∀ y, q.Has f y → y.callback = none) (R := fun p' => ¬p'.Resets f)
        (fun p' q h hreset hq => ?_)
        ⟨hp, (hlawful.has_unique hx hx).2, fun y hy => (hlawful.has_unique hx hy).1 ▸ hcallback⟩
        hresets hrun
      obtain ⟨hp', hlt, hnone⟩ := h
      have hmono := (hp'.lawful.step hq).1.change.grows_lives.mono
      exact ⟨hp'.step hq, Nat.lt_of_lt_of_le hlt hmono,
        fun y hy => hp'.lawful.taken_step hq hlt hnone hreset hy⟩
    obtain ⟨hq, -, hnone⟩ := hstays
    refine ⟨fun hbegins => ?_, hnone⟩
    obtain ⟨y, hy, huntaken⟩ := hq.primed.begins_untaken hq.lawful hbegins
    exact huntaken (hnone y hy)

open Process in
/-- The callback of `g` resumes `k` for the first time, two resumes deep. -/
theorem relay_used_once : Scenario.relay.Reaches relaying ∧ relaying.Calls 0 ∧
    ∃ x k q r, relaying.Has 0 x ∧ x.Waits ∧ relaying.Rests 0 k ∧ k.code = .entry 0 ∧
      Act.step relaying = .ok () q ∧ q.thread.running = k ∧ q.thread.current = some 0 ∧
      Act.step q = .ok () r ∧ r.thread.current = some 0 ∧
      ∀ n r', q.run n = (none, r') → ∀ f k', r'.Rests f k' → k'.serial ≠ k.serial := by
  have hp : Scenario.relay.Reaches relaying := Scenario.reaches_run (by decide +kernel)
  have hq : Act.step relaying = .ok () (relaying.run 1).2 := step_of_run (by decide +kernel)
  have hcode : relaying.thread.performs?.any
      (fun e => e.1.action.resumes? = some "k") = true := by decide +kernel
  have hslot : relaying.thread.slots.get? "k" = some 0 := by decide +kernel
  have hwaits : (relaying.thread.fibers.get? 0).any (fun x => decide x.Waits) = true := by
    decide +kernel
  obtain ⟨⟨op, frame, rest⟩, hperforms, haction⟩ := (Option.any_eq_true ..).mp hcode
  obtain ⟨x, hx, hw⟩ := (Option.any_eq_true ..).mp hwaits
  have hw := of_decide_eq_true hw
  have hcalls : relaying.Calls 0 := ⟨op, frame, rest, "k", Thread.performs_of hperforms,
    Action.of_resumes? (of_decide_eq_true haction), hslot⟩
  have hused := used_once _ hp
  obtain ⟨hbegins, hcurrent, hk, -⟩ := hused.calls _ hq 0 x (has_here hx) hw hcalls
  obtain ⟨k, hk', hentry⟩ := (hused.start 0 x (has_here hx)).mpr ⟨hw.ready, hw.untaken⟩
  cases hk.symm.trans hk'
  obtain ⟨-, -, -, r, -, -, hr, -, hcurrent', -⟩ := (used_once _ (hp.step hq)).begins 0 hbegins
  exact ⟨hp, hcalls, x, _, _, r, has_here hx, hw, ⟨x, has_here hx, hk⟩, hentry, hq, rfl, hcurrent,
    hr, hcurrent', hused.context 0 _ _ ⟨x, has_here hx, hk⟩ hq rfl⟩

end Fibers
