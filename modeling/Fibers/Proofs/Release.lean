import Fibers.Proofs.Underway

/-! Giving handles back.

Whoever gives back a handle, a script that drops it, a slot that is filled again, a frame that
is left or a `resume` that returns, the process aborts over it in one case: the handle is the
last one of a fiber that waits to begin. What has begun keeps itself until it completes, and no
fiber is ever destroyed while it runs (`underway_holds`). -/
namespace Fibers

/-- The slot whose handle an action drops. -/
def Action.drops? : Action → Option String
  | .drop s => some s
  | _ => none

theorem Action.of_drops? {action : Action} {s : String} (h : action.drops? = some s) :
    action = .drop s := by
  unfold Action.drops? at h
  split at h
  · cases h
    rfl
  · cases h

instance (x : Fiber) : Decidable x.Waits :=
  decidable_of_iff (x.stack ≠ none ∧ x.state = .ready ∧ x.callback ≠ none)
    ⟨fun ⟨hstack, hready, huntaken⟩ => ⟨hstack, hready, huntaken⟩,
      fun h => ⟨h.task, h.ready, h.untaken⟩⟩

/-- Why a handle of a fiber cannot be given back. -/
def Fiber.releaseRefusal? (f : Nat) (x : Fiber) : Option Violation :=
  if x.handles = 1 ∧ x.Waits then some (.destroyedWhile f .ready) else none

theorem Violation.early_message (f : Nat) :
    (destroyedWhile f .ready).message = s!"fiber {f} destroyed while Ready" := by
  show "fiber " ++ toString f ++ " destroyed while " ++ "Ready" =
    "fiber " ++ toString f ++ " destroyed while Ready"
  rw [String.append_assoc]
  congr 1

namespace Act
open Process

variable {p : Process} {hand : List Nat} {f n : Nat} {x : Fiber} {op : Op} {frame : Frame}
  {rest : List Task} {s : String}

/-- With its last handle a fiber is destroyed, or it has not begun yet and the process aborts. -/
theorem release_last (hp : p.thread.Steady n (f :: hand)) (ht : p.thread.Primed)
    (hx : p.thread.fibers.get? f = some x) (hn : x.handles ≤ 1) :
    (release f).Leads p (fun _ q => x.state = .term ∧ q.thread.fibers.get? f = none)
      fun halt _ => x.Waits ∧ halt = .aborted (.destroyedWhile f .ready) := by
  unfold release
  refine leads_bind.mpr ((leads_fiber hx).mpr ?_)
  rw [if_pos hn]
  have hstack := hp.toSound.last_task hx hn
  by_cases hterm : x.state = .term
  · exact (destroy_leads hstack hterm).mono (fun _ _ hgone => ⟨hterm, hgone⟩) fun _ _ h => h
  · have hwaits := hp.stranded ht hx hn hterm
    obtain ⟨stack, hstack⟩ := Option.ne_none_iff_exists'.mp hstack
    unfold destroy
    rw [hstack]
    simp only [leads_bind, leads_log, leads_modify, leads_ensure]
    exact ⟨fun h => (hterm h).elim, fun _ => ⟨hwaits, by rw [hwaits.ready]⟩⟩

theorem release_refuses (hp : p.thread.Steady n (f :: hand)) (ht : p.thread.Primed)
    (hx : p.thread.fibers.get? f = some x) :
    (release f).Leads p (fun _ _ => x.releaseRefusal? f = none)
      fun halt _ => (x.releaseRefusal? f).map .aborted = some halt := by
  by_cases hn : x.handles ≤ 1
  · have hone : x.handles = 1 := Nat.le_antisymm hn (hp.positive f x hx)
    refine (release_last hp ht hx hn).mono (fun _ _ h => if_neg fun hlast => ?_) fun _ _ h => ?_
    · have hready := hlast.2.ready
      simp [h.1] at hready
    · obtain ⟨hwaits, rfl⟩ := h
      rw [Fiber.releaseRefusal?, if_pos ⟨hone, hwaits⟩]
      rfl
  · unfold release
    refine leads_bind.mpr ((leads_fiber hx).mpr ?_)
    rw [if_neg hn]
    exact if_neg fun h => hn (Nat.le_of_eq h.1)

/-- A handle in hand is given back, or the process aborts because it is the last one of a fiber
that waits to begin. -/
theorem release_halt? (hp : p.thread.Steady n (f :: hand)) (ht : p.thread.Primed)
    (hx : p.thread.fibers.get? f = some x) :
    (release f).halt? p = (x.releaseRefusal? f).map .aborted :=
  (release_refuses hp ht hx).halt? (fun _ _ h => h) fun _ _ h => h

/-- The step that drops the handle in a slot. -/
theorem step_drop_halt? (hp : p.Ordered) (ht : p.thread.Primed)
    (hop : p.thread.Performs op frame rest) (ha : op.action = .drop s)
    (hs : p.thread.slots.get? s = some f) (hx : p.thread.fibers.get? f = some x) :
    step.halt? p = (x.releaseRefusal? f).map .aborted := by
  let q : Process := {p.takeUp frame rest with
    thread := {(p.takeUp frame rest).thread with
      slots := (p.takeUp frame rest).thread.slots.erase s}}
  have htake := hp.takeUp hop.code hop.todo
  have hmove : Move [] p [f] q :=
    htake.trans (.take hs (.refl _) (onward_of_names rfl rfl rfl rfl))
  have hq := hmove.steady hp.thread.toSteady
  have hprimed := hmove.primed hp.thread.toSteady ht
  have hleads : step.Leads p (fun _ _ => x.releaseRefusal? f = none)
      fun halt _ => (x.releaseRefusal? f).map .aborted = some halt := by
    rw [leads_step hop]
    unfold perform drop onSlot
    rw [ha]
    simp only [leads_bind, leads_slot?]
    rw [show (p.takeUp frame rest).thread.slots.get? s = some f from hs]
    simp only [leads_bind, emptySlot, leads_modifyThread, leads_pure]
    have hmoves : (release f).Moves [f] (fun _ => []) q := moves_release f
    have hrelease := (release_refuses hq hprimed hx).and hmoves
    refine hrelease.mono (fun _ r hr => ?_) fun _ _ h => h.1
    exact (asides_answer (hr.2.steady hq) op.label .nothing).mono (fun _ _ _ => hr.1)
      fun _ _ h => h.elim
  exact hleads.halt? (fun _ _ h => h) fun _ _ h => h

/-- The step that begins a callback. -/
theorem step_entry_leads (hp : p.Ordered) (ht : p.thread.Primed)
    (hcode : p.thread.running.code = .entry f) :
    step.Leads p (fun _ q => q.thread.Underway f) fun _ _ => False := by
  apply (step_begin_leads hp ht hcode).mono _ fun _ _ h => h
  rintro _ q ⟨x, callback, -, -, hq⟩
  refine ⟨_, .running, ?_⟩
  rw [hq.like.running]
  exact List.mem_singleton_self f

end Act

namespace Process

variable {p q : Process} {halt : Halt}

/-- Halts over a fiber that goes too early are over one that waits to begin. -/
theorem Lawful.halts_early (h : p.Lawful) (ht : p.thread.Primed)
    (hq : Act.step p = .error halt q) :
    (∀ f state, halt = .aborted (.destroyedWhile f state) →
      state = .ready ∧ p.Strands [] f Fiber.Waits) ∧
    (∀ f, halt ≠ .aborted (.rootHoldsCallback f)) ∧
    ∀ f state, halt ≠ .aborted (.rootDestroyedWhile f state) := by
  have hfair := h.halt hq
  have hsteady := h.ordered.thread.toSteady
  refine ⟨fun f state he => ?_, fun f he => ?_, hfair.rootRuns⟩
  · obtain ⟨hterm, rest, r, x, hmove, hx, hn, -, hstate⟩ := hfair.early f state he
    have hr := hmove.steady hsteady
    have hprimed := hmove.primed hsteady ht
    have hwaits := hr.stranded hprimed hx hn (hstate ▸ hterm)
    exact ⟨hstate.symm.trans hwaits.ready, rest, r, x, hmove, hx, hn, hwaits⟩
  · obtain ⟨x, hx, hstack, huntaken⟩ := hfair.rootHolds f he
    exact huntaken (hsteady.root_taken ht hx hstack)

/-- What becomes of callbacks and of the fibers they belong to. -/
structure UnderwayHolds (p : Process) : Prop where
  /-- Callbacks are underway on the fibers that are tasks, had their callback taken and have not
  terminated. -/
  started : ∀ t ∈ p.everyThread, ∀ f, t.Underway f ↔ ∃ x, t.fibers.get? f = some x ∧ x.Started
  /-- A callback that is underway keeps a handle of its fiber. -/
  keeps : ∀ t ∈ p.everyThread, ∀ f, t.Underway f → ∃ k, t.Contains k ∧ f ∈ k.code.handles
  /-- Every fiber there is counts as alive. -/
  counted : p.live = p.sum Thread.population
  /-- The stack of every fiber lies in a region that is reserved. -/
  reserved : ∀ t ∈ p.everyThread, ∀ f x stack, t.fibers.get? f = some x → x.stack = some stack →
    ∃ r, t.region? stack = some r ∧ r.Holds stack.block stack.size ∧ r ∈ p.memory.reserved
  /-- A new task has a callback. -/
  made : ∀ q, Act.step p = .ok () q → ∀ f y, q.Has f y → (¬∃ x, p.Has f x) → y.stack ≠ none →
    y.callback ≠ none
  /-- Callbacks are taken by the starts that execute, and given to what had terminated. -/
  callbacks : ∀ q, Act.step p = .ok () q → ∀ f x y, p.Has f x → q.Has f y → p.Recalls f x y
  begins : ∀ f, p.thread.running.code = .entry f → ∃ q, Act.step p = .ok () q ∧ q.Underway f
  begun : ∀ q, Act.step p = .ok () q → ∀ f, q.Underway f →
    p.Underway f ∨ p.thread.running.code = .entry f
  /-- What is underway stays so, on its stack, as long as it does not complete. -/
  lasts : ∀ n q, p.run n = (none, q) → ∀ f x, p.Has f x → x.Started →
    (∀ m p', m < n → p.run m = (none, p') → ¬p'.Completes f) →
    q.Underway f ∧ ∃ y, q.Has f y ∧ y.Started ∧ y.stack = x.stack
  /-- No step destroys a task fiber that has not terminated. -/
  stays : ∀ q, Act.step p = .ok () q → ∀ f x, p.Has f x → x.stack ≠ none → x.state ≠ .term →
    ∃ y, q.Has f y
  /-- Wherever in a step a handle is given back, that aborts exactly if `releaseRefusal?` says. -/
  releases : ∀ f hand q, Move [] p (f :: hand) q → ∃ x, q.thread.fibers.get? f = some x ∧
    (Act.release f).halt? q = (x.releaseRefusal? f).map .aborted
  drops : ∀ op frame rest s f x, p.thread.Performs op frame rest → op.action = .drop s →
    p.thread.slots.get? s = some f → p.thread.fibers.get? f = some x →
    Act.step.halt? p = (x.releaseRefusal? f).map .aborted
  /-- There is no other way for a handle to bring a step to a halt. -/
  halts : ∀ halt q, Act.step p = .error halt q →
    (∀ f state, halt = .aborted (.destroyedWhile f state) →
      state = .ready ∧ p.Strands [] f Fiber.Waits) ∧
    (∀ f, halt ≠ .aborted (.rootHoldsCallback f)) ∧
    ∀ f state, halt ≠ .aborted (.rootDestroyedWhile f state)

theorem Books.reserves (h : p.Books) {t : Thread} {f : Nat} {x : Fiber} {stack : Memory.Stack}
    (ht : t ∈ p.everyThread) (hx : t.fibers.get? f = some x) (hstack : x.stack = some stack) :
    ∃ r, t.region? stack = some r ∧ r.Holds stack.block stack.size ∧ r ∈ p.memory.reserved := by
  obtain ⟨r, hr, hholds⟩ := (h.housed t ht).fibers f x stack hx hstack
  have hlies : 0 < x.stack.elim 0 (t.lies r) := by
    rw [hstack, Option.elim_some, Thread.lies_eq hr, List.count_singleton_self]
    exact Nat.one_pos
  have hfiber := Table.le_total (fun x : Fiber => x.stack.elim 0 (t.lies r)) hx
  have hstacks : 0 < t.stacksIn r :=
    Nat.lt_of_lt_of_le hlies (Nat.le_trans hfiber (Nat.le_add_right _ _))
  have hsum : t.stacksIn r ≤ p.sum (Thread.stacksIn r) :=
    List.single_le_sum (fun _ _ => Nat.zero_le _) _ (List.mem_map_of_mem ht)
  refine ⟨r, hr, hholds, List.count_pos_iff.mp ?_⟩
  rw [h.reserved r]
  exact Nat.lt_of_lt_of_le hstacks hsum

end Process

theorem Scenario.Reaches.upheld {s : Scenario} {p : Process} (h : s.Reaches p) : p.Upheld := by
  obtain ⟨n, hrun⟩ := h
  have hall : p.Lawful ∧ p.Primed ∧ p.Upheld := by
    refine Process.run_induction (P := fun p => p.Lawful ∧ p.Primed ∧ p.Upheld)
      (fun p q ⟨hp, hprimed, h⟩ hq => ?_) ⟨s.lawful, fun t ht => ?_, fun t ht => ?_⟩ hrun
    · obtain ⟨hturn, hq⟩ := hp.step hq
      have hprimed := hprimed.turn hp.ordered hturn
      exact ⟨hq, hprimed, h.turn hp.ordered hturn hq.ordered hprimed⟩
    · obtain rfl := List.mem_singleton.mp ht
      exact Thread.primed_start ..
    · obtain rfl := List.mem_singleton.mp ht
      exact fun f => Thread.underway_iff (s.lawful.ordered _ (List.mem_cons_self ..)).toSound
        (Thread.primed_start ..)
  exact hall.2.2

open Process in
/-- **Callbacks that are underway.** In every process that a scenario comes to, and on all its
threads, a fiber whose callback has begun and has not completed is alive, on a stack that is
reserved, and stays so until its callback completes, whoever lets go of it. Giving back a handle
brings the process to a halt exactly if it is the last one of a task fiber which is ready and
whose callback has never begun. -/
theorem underway_holds (s : Scenario) :
    (∀ p, s.Reaches p → p.UnderwayHolds) ∧
    (∀ n f state q, s.process.run n = (some (.aborted (.destroyedWhile f state)), q) →
      state = .ready) ∧
    ∀ f, (Violation.destroyedWhile f .ready).message = s!"fiber {f} destroyed while Ready" := by
  refine ⟨fun p hp => ?_, fun n f state q hrun => ?_, Violation.early_message⟩
  · have hlawful := hp.lawful
    have hordered := hlawful.ordered
    have hsteady := hordered.thread.toSteady
    have hprimed := hp.primed
    exact {
      started := hp.upheld
      keeps := fun t _ f hf => by
        obtain ⟨k, hk, hf⟩ := hf
        refine ⟨k, hk, List.count_pos_iff.mp ?_⟩
        exact Nat.lt_of_lt_of_le (List.count_pos_iff.mpr hf) (k.code.count_amid f)
      counted := hp.books.live
      reserved := fun t ht f x stack => hp.books.reserves ht
      made := fun q hq f y hy hnew hstack => by
        rcases (hlawful.step hq).1.descends hordered hy with ⟨x, hx, -⟩ | hborn
        · exact (hnew ⟨x, hx⟩).elim
        · exact fun htaken => hstack (hborn.callback.mp htaken)
      callbacks := fun q hq f x y hx hy => (hlawful.step_alters hq hx hy).2.2
      begins := fun f hcode => by
        have hleads := Act.step_entry_leads hordered hprimed.thread hcode
        cases hq : Act.step p with
        | ok _ q => exact ⟨q, rfl, q.thread, List.mem_cons_self .., hleads.ok hq⟩
        | error halt q => exact (hleads.error hq).elim
      begun := fun q hq f hf =>
        hlawful.begun_step hp.upheld hq (hp.step hq).primed (hp.step hq).upheld hf
      lasts := fun n q hrun f x hx hs hc => by
        obtain ⟨y, hy, hstarted, hstack⟩ := hlawful.started_run hx hs hrun hc
        exact ⟨(hp.run hrun).upheld.underway_iff.mpr ⟨y, hy, hstarted⟩, y, hy, hstarted, hstack⟩
      stays := fun q hq f x => (hlawful.step hq).1.stays
      releases := fun f hand q hmove => by
        have hq := hmove.steady hsteady
        have hqprimed := (hmove.still hsteady).primed hsteady hq hprimed.thread
        obtain ⟨x, hx⟩ := hq.toCounted.alive (f := f) (by simp)
        exact ⟨x, hx, Act.release_halt? hq hqprimed hx⟩
      drops := fun op frame rest s f x hop ha hs hx =>
        Act.step_drop_halt? hordered hprimed.thread hop ha hs hx
      halts := fun halt q hq => hlawful.halts_early hprimed.thread hq }
  · obtain ⟨m, p, hm, hstep⟩ := Process.run_halts hrun
    have hp : s.Reaches p := ⟨m, hm⟩
    exact ((hp.lawful.halts_early hp.primed.thread hstep).1 f state rfl).1

/-- The callback of `k` yields, and then `k` is dropped; `f` is dropped before it was resumed. -/
def Scenario.forsake : Scenario where
  program := [
    .on "new" "k" (.create "k" (.inline [.mk ⟨"yield", none⟩ .yield]) 16384 false none),
    .on "resume" "k" (.resume "k"),
    .on "drop" "k" (.drop "k"),
    .on "new" "f" (.create "f" (.inline []) 16384 false none),
    .on "drop" "f" (.drop "f")]

/-- The program is about to drop `f`. -/
def Process.forsaking : Process := (Scenario.forsake.process.run 8).2

open Process in
theorem forsake_underway_holds : Scenario.forsake.Reaches forsaking ∧
    forsaking.thread.slots.get? "k" = none ∧ forsaking.thread.Underway 0 ∧
    Act.step.halt? forsaking = some (.aborted (.destroyedWhile 2 .ready)) := by
  have hp : Scenario.forsake.Reaches forsaking := Scenario.reaches_run (by decide +kernel)
  have hholds := (underway_holds Scenario.forsake).1 forsaking hp
  have hk : (forsaking.thread.fibers.get? 0).map (fun x =>
      (x.stack.isSome, x.state, x.callback.isNone)) = some (true, .ready, true) := by
    decide +kernel
  have hf : (forsaking.thread.fibers.get? 2).map (fun x =>
      decide (x.handles = 1 ∧ x.Waits)) = some true := by decide +kernel
  have hcode : forsaking.thread.performs?.any
      (fun e => e.1.action.drops? = some "f") = true := by decide +kernel
  have hslot : forsaking.thread.slots.get? "f" = some 2 := by decide +kernel
  obtain ⟨x, hx, hstarted⟩ := Option.map_eq_some_iff.mp hk
  obtain ⟨y, hy, hwaits⟩ := Option.map_eq_some_iff.mp hf
  obtain ⟨⟨op, frame, rest⟩, hperforms, haction⟩ := (Option.any_eq_true ..).mp hcode
  have hhalt := hholds.drops op frame rest "f" 2 y (Thread.performs_of hperforms)
    (Action.of_drops? (of_decide_eq_true haction)) hslot hy
  rw [Fiber.releaseRefusal?, if_pos (of_decide_eq_true hwaits)] at hhalt
  refine ⟨hp, by decide +kernel, ?_, hhalt⟩
  rw [hholds.started _ (List.mem_cons_self ..)]
  simp only [Prod.mk.injEq, Option.isNone_iff_eq_none] at hstarted
  exact ⟨x, hx, Option.isSome_iff_ne_none.mp hstarted.1, by simp [hstarted.2.1], hstarted.2.2⟩

end Fibers
