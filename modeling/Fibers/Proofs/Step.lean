import Fibers.Proofs.Turn

/-! Every step is a turn.

A step of a script in progress takes up one thing to do. Those that switch put what they do on
return before the rest of the script and then switch, as do the end of a callback and, between
threads, the start and end of a program; all other steps only move. `step_leads` puts this
together: from an orderly process every step is a turn to an orderly one, or halts fairly. -/
namespace Fibers

/-- Halts that a step may come to: never past the end of code, over a missing context only if
it is the root's, over a fiber that goes too early only with the last handle of it, and over a
root that goes only if it was given a callback. -/
structure Halt.Fair (p : Process) (halt : Halt) : Prop where
  spent : ∀ f, halt ≠ .fault (.spent f)
  noContext : ∀ f, halt = .aborted (.noContext f) → p.thread.root = some f
  early : ∀ f state, halt = .aborted (.destroyedWhile f state) →
    state ≠ .term ∧ p.Strands [] f (Fiber.TaskIn state)
  rootHolds : ∀ f, halt = .aborted (.rootHoldsCallback f) →
    ∃ x, p.thread.fibers.get? f = some x ∧ x.stack = none ∧ x.callback ≠ none
  rootRuns : ∀ f state, halt ≠ .aborted (.rootDestroyedWhile f state)

theorem Halt.Ordinary.fair {halt : Halt} (h : halt.Ordinary) (p : Process) : halt.Fair p where
  spent f he := by
    subst he
    exact h
  noContext f he := by
    subst he
    exact h.elim
  early f state he := by
    subst he
    exact h.elim
  rootHolds f he := by
    subst he
    exact h.elim
  rootRuns f state he := by
    subst he
    exact h

theorem Process.Stops.fair {p : Process} {halt : Halt} (h : p.Stops [] halt)
    (hp : p.thread.Steady p.nextId []) : halt.Fair p := by
  cases h with
  | ordinary h => exact h.fair p
  | early hterm h =>
    refine ⟨fun _ h => (nomatch h), fun _ h => (nomatch h), fun g state he => ?_,
      fun _ h => (nomatch h), fun _ _ h => nomatch h⟩
    cases he
    exact ⟨hterm, h⟩
  | root h =>
    -- The thread keeps a handle of its root.
    obtain ⟨rest, q, x, hq, hx, hn, hstack⟩ := h
    exact ((hq.steady hp).toSound.last_task hx hn hstack).elim

namespace Act
open Process

variable {p : Process} {op : Op} {frame : Frame} {rest : List Task} {s : String} {f : Nat}
  {x : Fiber}

/-- A step of a script in progress takes up the next thing to do. -/
theorem leads_task {task : Task} {Q : Unit → Process → Prop} {E : Halt → Process → Prop}
    (hcode : p.thread.running.code = .active frame) (htodo : frame.todo = task :: rest) :
    step.Leads p Q E ↔ (carryOut task).Leads (p.takeUp frame rest) Q E := by
  unfold step
  rw [leads_bind, leads_thread, hcode]
  dsimp only
  rw [htodo]
  dsimp only
  rw [leads_bind, leads_modifyThread]
  exact Iff.rfl

/-- A step of code that is about to perform an operation. -/
theorem leads_step {Q : Unit → Process → Prop} {E : Halt → Process → Prop}
    (hop : p.thread.Performs op frame rest) :
    step.Leads p Q E ↔ (perform op).Leads (p.takeUp frame rest) Q E :=
  leads_task hop.code hop.todo

theorem leads_holding {task : Task} {next : Act Unit} {Q : Unit → Process → Prop}
    {E : Halt → Process → Prop} (hx : p.thread.fibers.get? f = some x) :
    (holding f task next).Leads (p.takeUp frame rest) Q E ↔
      next.Leads (p.inside f x task frame rest) Q E := by
  unfold holding
  rw [leads_bind, retain,
    leads_modifyFiber (show (p.takeUp frame rest).thread.fibers.get? f = some x from hx),
    leads_bind, defer, leads_modifyThread]
  exact Iff.rfl

/-- The step that resumes the fiber in a slot switches into it from the current fiber. -/
theorem step_resume_switches (hp : p.Ordered) (hop : p.thread.Performs op frame rest)
    (ha : op.action = .resume s) (hs : p.thread.slots.get? s = some f)
    (hx : p.thread.fibers.get? f = some x) :
    step.Leads p
      (fun _ q => x.state = .ready ∧ ¬(x.scheduled = true ∧ p.thread.hub = some f) ∧
        ∃ p₁ c, (p.inside f x (.resumed op.label f) frame rest).Grounded p₁ ∧
          p₁.thread.current = some c ∧ p₁.Switch f c .running q)
      (fun halt _ => p.thread.ResumeHalts f x halt) := by
  obtain ⟨hq₂, -, hx₂⟩ := hp.inside (.resumed op.label f) hop hx rfl
  rw [leads_step hop, perform_resume ha]
  refine (leads_throughSlot (p := p.takeUp frame rest) hs).mpr ((leads_holding hx).mpr ?_)
  exact (resume_leads hq₂ hx₂).mono (fun _ _ hq => hq) fun _ _ h => h

/-- Resuming the fiber in a slot leaves the process in order. -/
theorem step_resume_leads (hp : p.Ordered) (hop : p.thread.Performs op frame rest)
    (ha : op.action = .resume s) (hs : p.thread.slots.get? s = some f)
    (hx : p.thread.fibers.get? f = some x) :
    step.Leads p
      (fun _ q => x.state = .ready ∧ ¬(x.scheduled = true ∧ p.thread.hub = some f) ∧
        p.Resumed op frame rest f q ∧ q.Ordered)
      (fun halt _ => p.thread.ResumeHalts f x halt) := by
  have hplain := hp.rest_plain hop.code hop.todo
  obtain ⟨hq₂, hstill, hx₂⟩ := hp.inside (.resumed op.label f) hop hx rfl
  refine (step_resume_switches hp hop ha hs hx).mono (fun _ q hq => ?_) fun _ _ h => h
  obtain ⟨hready, hanchor, p₁, c, hground, hc, hswitch⟩ := hq
  have hp₁ := (hground.move []).steady hq₂
  have hstill₁ := hstill.trans hp.thread.toSteady ((hground.move []).still hq₂)
  have hx₁ := hground.fibers f _ hx₂
  obtain ⟨-, y, hy, hrunning⟩ := hp₁.current_running hc
  have hcode : p₁.thread.running.code =
      .active {frame with todo := .resumed op.label f :: rest} := by
    rw [hground.running]
    rfl
  have horderly : q.thread.Orderly q.nextId := by
    refine hswitch.orderly hp₁.toSound hp₁.below (fun x' y' k hx' hy' hne hk => ?_)
      (.inr ⟨(fun h => nomatch h), by rw [hcode]; rfl⟩)
    rw [hx₁] at hx'
    cases hx'
    rw [hy] at hy'
    cases hy'
    refine ⟨Thread.fits_resume hp₁.toSound hc hx₁ hready hy hrunning hne hk ?_ ?_, ?_⟩
    · rw [hcode]
      exact fun _ h => by cases h
    · rw [hcode]
      exact fun ho => Code.awake_push {frame with todo := rest} hplain
        fun hne => (hne ho).elim
    · obtain ⟨k', hk', hawake⟩ := hp₁.ready f _ hx₁ hready
      rw [hk] at hk'
      cases hk'
      exact hawake
  have hprogram : y.stack = none ↔ frame.origin = .program := by
    rw [hp₁.root_iff c y hy, ← hc, eq_comm, ← hp₁.program_iff, hcode]
    exact Iff.rfl
  exact ⟨hready, hanchor, .intro ⟨hstill₁, hp₁⟩ hcode hx₁ hready hc hy hrunning hprogram hswitch,
    hp.onward (hstill₁.onward.trans hswitch.onward) horderly⟩

/-- A yield once its second half was put before what is left to do. -/
theorem yielded_leads {p₁ : Process} (named : Option Nat) (hp : p.Ordered)
    (hop : p.thread.Performs op frame rest)
    (hstill : p.Still p₁) (hp₁ : p₁.thread.Steady p₁.nextId [])
    (hcode : p₁.thread.running.code = .active {frame with todo := .yielded op.label named :: rest})
    (hx : p₁.thread.fibers.get? f = some x) :
    (yieldFiber f).Leads p₁
      (fun _ q => x.state ≠ .ready ∧ x.stack ≠ none ∧ frame.origin ≠ .program ∧
        p.Yielded op frame rest named f q ∧ q.Ordered)
      (fun halt _ => p₁.thread.YieldHalts f x halt) := by
  have horigin : p₁.thread.running.code.origin = frame.origin := by rw [hcode]; rfl
  refine (yieldFiber_leads hp₁.toSound hx).mono (fun _ q hq => ?_) fun _ _ h => h
  obtain ⟨hready, hstack, hprogram, r, hr, hswitch⟩ := hq
  obtain ⟨z, hz⟩ := hp₁.toCounted.root_alive hr
  have hzroot := (hp₁.root_iff r z hz).mpr hr
  have horderly : q.thread.Orderly q.nextId := by
    refine hswitch.orderly hp₁.toSound hp₁.below (fun z' x' k hz' hx' hne hk => ?_) (.inl hr)
    rw [hz] at hz'
    cases hz'
    rw [hx] at hx'
    cases hx'
    refine ⟨Thread.fits_yield hp₁.toSound hr hz hx hstack hne hk ?_ ?_ fun _ => ?_,
      (hp₁.program r z k hz hzroot hk).2⟩
    · unfold State.yielded
      split <;> simp_all
    · rw [hcode]
      exact fun _ h => by cases h
    · rw [hcode]
      exact Code.awake_push {frame with todo := rest} (hp.rest_plain hop.code hop.todo)
        fun _ => rfl
  have ho : frame.origin ≠ .program := horigin ▸ hprogram
  exact ⟨hready, hstack, ho, .intro ⟨hstill, hp₁⟩ hcode ho hx hstack hready hz hzroot
    (hp₁.running r z hz hzroot) hswitch, hp.onward (hstill.onward.trans hswitch.onward) horderly⟩

/-- The step that yields the fiber in a slot. -/
theorem step_yieldOf_leads (hp : p.Ordered) (hop : p.thread.Performs op frame rest)
    (ha : op.action = .yieldOf s) (hs : p.thread.slots.get? s = some f)
    (hx : p.thread.fibers.get? f = some x) :
    step.Leads p
      (fun _ q => x.state ≠ .ready ∧ x.stack ≠ none ∧ frame.origin ≠ .program ∧
        p.Yielded op frame rest (some f) f q ∧ q.Ordered)
      (fun halt _ => p.thread.YieldHalts f x halt) := by
  obtain ⟨hq₂, hstill, hx₂⟩ := hp.inside (.yielded op.label (some f)) hop hx rfl
  rw [leads_step hop, perform_yieldOf ha]
  refine (leads_throughSlot (p := p.takeUp frame rest) hs).mpr ((leads_holding hx).mpr ?_)
  apply (yielded_leads _ hp hop hstill hq₂ rfl hx₂).mono (fun _ _ h => h)
  intro _ _ h
  rw [Thread.YieldHalts, hop.code]
  exact h

/-- The step that yields the current fiber. -/
theorem step_yield_leads (hp : p.Ordered) (hop : p.thread.Performs op frame rest)
    (ha : op.action = .yield) :
    step.Leads p
      (fun _ q => frame.origin ≠ .program ∧
        (∃ c, p.thread.current = some c ∧ p.Yielded op frame rest none c q) ∧ q.Ordered)
      (fun halt _ => frame.origin = .program ∧
        ∃ r, halt = .aborted (.rootYielded r) ∧ ∀ c, p.thread.current = some c → r = c) := by
  have htake := hp.takeUp hop.code hop.todo
  let q₁ : Process := (p.takeUp frame rest).pushed (.yielded op.label none) frame rest
  have hq₁ : q₁.thread.Steady q₁.nextId [] :=
    steady_push (p := p.takeUp frame rest) (.yielded op.label none)
      (htake.steady hp.thread.toSteady) rfl
  have hstill : p.Still q₁ := (htake.still hp.thread.toSteady).trans hp.thread.toSteady
    (still_push (p := p.takeUp frame rest) rfl)
  rw [leads_step hop, perform_yield ha]
  refine leads_bind.mpr (leads_modifyThread.mpr ?_)
  refine Leads.bind (lent_currentFiber (p := q₁) hq₁)
    fun c q₂ ⟨p₁, hground, hc, hroot, hlent⟩ => ?_
  have hp₁ := (hground.move []).steady hq₁
  obtain ⟨-, y, hy, hrunning⟩ := hp₁.current_running hc
  apply Leads.bind (lent_release hlent hy (hp₁.positive c y hy))
  intro _ q₃ hlent
  have hquiet : Move [] p₁ [] q₃ := .quiet hlent.like hlent.onward
  have hcode : q₃.thread.running.code =
      .active {frame with todo := .yielded op.label none :: rest} := by
    rw [hlent.running, hground.running]
    rfl
  -- A current fiber that was there is the one that yields; otherwise the root was just made.
  have hsame {c' : Nat} (hc' : p.thread.current = some c') : c = c' := by
    have hq₁ : p₁ = q₁ := hground.settled (by
      rw [show q₁.thread.current = some c' from hc']
      exact Option.some_ne_none c')
    rw [hq₁] at hc
    exact Option.some.inj (hc.symm.trans hc')
  have hcurrent (hstack : y.stack ≠ none) : p.thread.current = some c := by
    cases hcur : p.thread.current with
    | none =>
      have hfresh := hground.fresh hcur
      rw [hc] at hfresh
      exact (hstack ((hp₁.root_iff c y hy).mpr hfresh.symm)).elim
    | some c' => rw [hsame hcur]
  have hrootless : y.stack = none ↔ q₃.thread.running.code.origin = .program := by
    rw [hp₁.root_iff c y hy, ← hc, eq_comm, ← hp₁.program_iff, hlent.running]
  have hyield := yielded_leads none hp hop
    (hstill.trans hp.thread.toSteady (((hground.move []).trans hquiet).still hq₁))
    (hquiet.steady hp₁) hcode ((hlent.like.fibers c).trans hy)
  refine hyield.mono (fun _ q ⟨_, hstack, ho, hq, hordered⟩ =>
    ⟨ho, ⟨c, hcurrent hstack, hq⟩, hordered⟩) fun halt q hq => ?_
  rcases hq with ⟨hready, -⟩ | ⟨-, hstack, he⟩ | ⟨-, hstack, horigin, -⟩
  · simp [hrunning] at hready
  · have ho := hrootless.mp hstack
    rw [hcode] at ho
    exact ⟨ho, c, he, fun c' hc' => hsame hc'⟩
  · exact (hstack (hrootless.mpr horigin)).elim

/-- A task fiber that yields itself while it runs switches to the root, and is ready. -/
theorem step_yield_switches (hp : p.Ordered) (hop : p.thread.Performs op frame rest)
    (ha : op.action = .yield) (hc : p.thread.current = some f)
    (hx : p.thread.fibers.get? f = some x) (hstack : x.stack ≠ none) :
    step.Leads p
      (fun _ q => ∃ p₁ r, (p.pushed (.yielded op.label none) frame rest).Aside p₁ ∧
        p₁.thread.root = some r ∧ p₁.Switch r f .ready q)
      fun _ _ => False := by
  let q₁ : Process := p.pushed (.yielded op.label none) frame rest
  have hq₁ : q₁.thread.Steady q₁.nextId [] :=
    steady_push (p := p.takeUp frame rest) (.yielded op.label none)
      ((hp.takeUp hop.code hop.todo).steady hp.thread.toSteady) rfl
  have hrunning := hp.thread.current_state hc hx
  rw [leads_step hop, perform_yield ha]
  refine leads_bind.mpr (leads_modifyThread.mpr ?_)
  refine Leads.bind (lent_currentFiber (p := q₁) hq₁) fun c q₂ ⟨p₁, hground, hc', _, hlent⟩ => ?_
  have hsame : p₁ = q₁ := hground.settled (by
    rw [show q₁.thread.current = some f from hc]
    exact Option.some_ne_none f)
  rw [hsame] at hc' hlent
  cases hc.symm.trans hc'
  apply Leads.bind (lent_release hlent hx (hp.thread.positive f x hx))
  intro _ q₃ hlent
  have haside : q₁.Aside q₃ := ⟨hlent.like, hlent.hub, hlent.onward⟩
  have hprogram : q₃.thread.running.code.origin ≠ .program := by
    rw [hlent.running, ne_eq, hq₁.program_iff]
    show p.thread.current ≠ p.thread.root
    rw [hc]
    exact fun hr => hstack ((hp.thread.root_iff f x hx).mpr hr.symm)
  refine (yieldFiber_leads (haside.like.sound hq₁.toSound)
    ((haside.like.fibers f).trans hx)).mono (fun _ q hq => ?_) fun _ _ he => ?_
  · obtain ⟨-, -, -, r, hr, hswitch⟩ := hq
    rw [hrunning] at hswitch
    exact ⟨q₃, r, haside, hr, hswitch⟩
  · rcases he with ⟨hready, -⟩ | ⟨-, hnone, -⟩ | ⟨-, -, ho, -⟩
    · simp [hrunning] at hready
    · exact hstack hnone
    · exact hprogram ho

/-! ### The end of a callback -/

/-- The step after a callback has returned ends the code of its fiber. -/
theorem leads_finish {outcome : Outcome} {Q : Unit → Process → Prop} {E : Halt → Process → Prop}
    (hcode : p.thread.running.code = .returned (.callback f) outcome) :
    step.Leads p Q E ↔ (finish f).Leads p Q E := by
  unfold step
  rw [leads_bind, leads_thread, hcode]

/-- The step that ends the code of a fiber. -/
theorem step_finish_leads {outcome : Outcome} (hp : p.Ordered)
    (hcode : p.thread.running.code = .returned (.callback f) outcome)
    (hx : p.thread.fibers.get? f = some x) :
    step.Leads p
      (fun _ q => 1 < x.handles ∧ p.Finished f q ∧ q.Ordered)
      (fun halt q => x.handles = 1 ∧ halt = .aborted (.rootYielded f) ∧
        q.thread.fibers.get? f = none) := by
  have ht := hp.thread
  obtain ⟨x', hx', hstack, hterm⟩ := ht.toSound.returned hcode
  rw [hx] at hx'
  cases hx'
  refine (leads_finish hcode).mpr ?_
  refine (finish_leads ht.toSound hcode hx).mono (fun _ q hq => ?_) fun _ _ h => h
  obtain ⟨hn, p₁, r, honward, hlike, -, hr, hswitch⟩ := hq
  have hp₁ : p₁.thread.Sound [] :=
    hlike.sound (ht.toSound.terminate hcode hx hstack hterm hn)
  have hx₁ : p₁.thread.fibers.get? f = some {x with state := .term, handles := x.handles - 1} := by
    rw [hlike.fibers, Thread.get?_terminate, if_pos rfl]
  have hbelow : ∀ g y, p₁.thread.fibers.get? g = some y → g < p₁.nextId := fun g y hy => by
    rw [hlike.fibers] at hy
    refine Nat.lt_of_lt_of_le ?_ honward.nextId
    obtain ⟨rfl, -⟩ | ⟨-, hy⟩ := Table.set_cases hy
    · exact ht.below g x hx
    · exact ht.below g y hy
  have hspent : p₁.thread.running.code = .spent f := by
    rw [hlike.running]
    rfl
  obtain ⟨z, hz⟩ := hp₁.toCounted.root_alive hr
  have hzroot := (hp₁.root_iff r z hz).mpr hr
  have horderly : q.thread.Orderly q.nextId := by
    refine hswitch.orderly hp₁ hbelow (fun z' x' k hz' hx' hne hk => ?_) (.inl hr)
    rw [hz] at hz'
    cases hz'
    rw [hx₁] at hx'
    cases hx'
    refine ⟨Thread.fits_yield hp₁ hr hz hx₁ hstack hne hk (by simp) ?_ (fun h => by cases h),
      (hp₁.program r z k hz hzroot hk).2⟩
    rw [hspent]
    exact fun _ h => by cases h
  exact ⟨hn, .intro hx hstack hterm honward hlike hz hzroot (hp₁.running r z hz hzroot) hswitch,
    hp.onward (honward.trans hswitch.onward) horderly⟩

/-! ### Steps that go to another thread -/

/-- A root that goes leaves the other fibers as they are, and nothing rested in it. -/
theorem release_root_leads (hp : p.thread.Counted [f]) (hx : p.thread.fibers.get? f = some x)
    (hstack : x.stack = none) (hrunning : x.state = .running) (hempty : x.context = none) :
    (release f).Leads p
      (fun _ q => q.thread.Counted [] ∧ q.thread.root = p.thread.root ∧
        q.thread.running = p.thread.running ∧ q.thread.lost = p.thread.lost ∧
        (∀ g, g ≠ f → q.thread.fibers.get? g = p.thread.fibers.get? g) ∧
        ∀ y, q.thread.fibers.get? f = some y → y = {x with handles := y.handles})
      fun halt _ => halt = .aborted (.rootHoldsCallback f) ∧ x.callback ≠ none := by
  unfold release
  refine leads_bind.mpr ((leads_fiber hx).mpr ?_)
  split
  · next hn =>
    have hbury := hp.bury hx hn
    unfold destroy bury lose
    rw [hstack]
    simp only [leads_bind, leads_log, leads_modify, leads_ensure, leads_modifyThread]
    rw [Thread.bury, hempty] at hbury
    rw [hempty]
    refine ⟨fun _ => ⟨fun _ => ⟨hbury, trivial, trivial, rfl, fun g hg => ?_, fun y hy => ?_⟩,
      fun h => (h hrunning).elim⟩, fun h => ⟨trivial, by simpa using h⟩⟩
    · exact (Table.get?_erase ..).trans (if_neg hg)
    · exact ((Table.erase_cases hy).1 rfl).elim
  · next hn =>
    refine ⟨hp.release hx (Nat.lt_of_not_le hn), rfl, rfl, rfl,
      fun g hg => (Table.get?_set ..).trans (if_neg hg), fun y hy => ?_⟩
    obtain ⟨-, rfl⟩ | ⟨hne, -⟩ := Table.set_cases hy
    · rfl
    · exact (hne rfl).elim

theorem releaseRoot_leads (hp : p.thread.Orderly p.nextId)
    (hprogram : p.thread.running.code.origin = .program) :
    releaseRoot.Leads p (fun _ q => p.Closed q) fun halt _ => halt.Fair p := by
  unfold releaseRoot
  rw [leads_bind, leads_thread]
  cases hr : p.thread.root with
  | none => exact ⟨calm_of_akin (Thread.Like.refl _).akin rfl (.refl p), hprogram, hp.toCounted, hr,
      rfl, fun _ _ hx _ => hx, fun _ y hy => ⟨y.handles, hy⟩, rfl⟩
  | some root =>
    let q : Process := {p with thread := {p.thread with
      root := none
      current := if p.thread.current = some root then none else p.thread.current}}
    have hcalm : p.Calm q :=
      ⟨onward_of_names rfl rfl rfl rfl, rfl, (fun f hf => nomatch hprogram.symm.trans hf),
        fun f y hy => .inl ⟨y, hy, rfl, rfl, rfl⟩, fun s => Nat.le_add_right _ _⟩
    obtain ⟨x, hx⟩ := hp.toCounted.root_alive hr
    have hstack := (hp.root_iff root x hx).mpr hr
    -- The program executes, so that nothing rests in the root.
    have hempty := (hp.away root x hx hstack).mpr ((hp.program_iff.mp hprogram).trans hr)
    have hrelease : (release root).Moves [root] (fun _ => []) q := moves_release root
    have hcounted : q.thread.Counted [root] := hp.toCounted.uproot hr _
    have hroot := release_root_leads hcounted hx hstack (hp.running root x hx hstack) hempty
    refine leads_bind.mpr (leads_modifyThread.mpr ?_)
    apply (hrelease.and hroot).mono
    · rintro _ q ⟨hmove, hcounted, hroot, hrun, hlost, hfibers, hgone⟩
      refine ⟨hcalm.trans (hmove.calm hp.below), hprogram, hcounted, hroot, hrun,
        fun f z hz hs => ?_, fun f y hy => ?_, hlost⟩
      · have hne : f ≠ root := fun he => hs ((hp.root_iff f z hz).mpr (he ▸ hr))
        exact (hfibers f hne).trans hz
      · by_cases hf : f = root
        · subst hf
          refine ⟨x.handles, ?_⟩
          rw [hgone y hy]
          exact hx
        · exact ⟨y.handles, (hfibers f hf).symm.trans hy⟩
    · rintro halt _ ⟨-, rfl, hcallback⟩
      refine ⟨fun _ h => (nomatch h), fun _ h => (nomatch h), fun _ _ h => (nomatch h),
        fun g hg => ?_, fun _ _ h => nomatch h⟩
      cases hg
      exact ⟨x, hx, hstack, hcallback⟩

theorem launch_leads (label : Label) (program : List Op) {q : Process} (hp : p.Ordered)
    (hq : Move [] p [] q) :
    (launch label program).Leads q (fun _ r => p.Turn r ∧ r.Ordered)
      fun halt _ => halt.Ordinary := by
  unfold launch freshSerial
  simp only [leads_bind, leads_get, leads_modify, leads_pure]
  refine ⟨.launch (hq.moved hp.thread.toSteady) rfl rfl rfl rfl rfl, fun t ht => ?_⟩
  rcases List.mem_cons.mp ht with rfl | ht
  · exact Thread.orderly_start _ _ _
  · exact hp.move hq t ht

theorem endThread_leads (outcome : Outcome) (hp : p.Ordered)
    (hprogram : p.thread.running.code.origin = .program) :
    (endThread outcome).Leads p (fun _ q => p.Turn q ∧ q.Ordered)
      fun halt _ => halt.Fair p := by
  unfold endThread
  rw [leads_bind, leads_get]
  cases hj : p.joining with
  | nil =>
    cases outcome with
    | finished =>
      exact Leads.bind (status_beside.mono (fun _ _ h => h) fun _ _ h => h.fair _) fun _ _ _ =>
        Halt.Ordinary.fair (by trivial) _
    | panicked => exact Halt.Ordinary.fair (by trivial) _
  | cons joiner rest =>
    apply Leads.bind (releaseRoot_leads hp.thread hprogram)
    intro _ p₁ hclosed
    let p₂ : Process := {p₁ with
      thread := joiner.thread, joining := rest, ended := p₁.thread :: p₁.ended}
    have hp₂ : p₂.Ordered := fun t ht => by
      have := hp t (List.mem_cons_of_mem _ (by rw [hj]; exact ht))
      exact { this with
        below := fun f x hx => Nat.lt_of_lt_of_le (this.below f x hx) hclosed.onward.nextId }
    have hanswer : (answer joiner.label (.joined outcome)).Moves [] (fun _ => []) p₂ :=
      moves_answer ..
    rw [leads_bind, leads_modify]
    refine (hanswer.and (answer_leads ..)).mono (fun _ q ⟨hq, hsame⟩ => ⟨?_, hp₂.move hq⟩)
      fun _ _ h => h.2.1.fair _
    exact .join hclosed (hclosed.onward.joining.trans hj) (show p₂.thread = _ from rfl) rfl rfl rfl
      rfl (hq.moved hp₂.thread.toSteady) (by rw [hsame]; rfl)

/-! ### Steps that only move -/

theorem turn_of_moves {act : Act Unit} {q : Process} {hand : List Nat} (hp : p.Ordered)
    (hq : Move [] p hand q) (h : act.Moves hand (fun _ => []) q) :
    act.Leads q (fun _ r => p.Turn r ∧ r.Ordered) fun halt _ => p.Stops [] halt :=
  h.mono (fun _ _ hr => ⟨.calm ((hq.trans hr).moved hp.thread.toSteady), hp.move (hq.trans hr)⟩)
    fun _ _ h => h.after hq

/-- A switch that names an empty slot answers that it found nothing. -/
theorem absent_leads (label : Label) (hp : p.Ordered) (hop : p.thread.Performs op frame rest) :
    (answer label .absent).Leads (p.takeUp frame rest) (fun _ r => p.Turn r ∧ r.Ordered)
      fun halt _ => halt.Ordinary :=
  ((turn_of_moves hp (hp.takeUp hop.code hop.todo) (moves_answer label .absent)).and
    (answer_leads ..)).mono (fun _ _ h => h.1) fun _ _ h => h.2.1

/-! ### The step of an operation that resets a fiber -/

theorem reset_leads {script : Script} {answerOf : Fiber → Fiber → Answer} (hp : p.Ordered)
    (hop : p.thread.Performs op frame rest)
    (ha : op.action = .reset s script ∨ op.action = .resetInPlace s script) :
    (do answer op.label (← reset s script answerOf) : Act Unit).Leads (p.takeUp frame rest)
      (fun _ q => p.Turn q ∧ q.Ordered) (fun halt _ => halt.Ordinary) := by
  have htake := hp.takeUp hop.code hop.todo
  have hmoved := htake.moved hp.thread.toSteady
  have habsent := absent_leads op.label hp hop
  unfold reset onSlot
  rw [leads_bind, leads_bind, leads_slot?]
  cases hs : p.thread.slots.get? s with
  | none =>
    rw [show (p.takeUp frame rest).thread.slots.get? s = none from hs]
    exact habsent
  | some f =>
    rw [show (p.takeUp frame rest).thread.slots.get? s = some f from hs]
    dsimp only
    obtain ⟨ops, hops⟩ := resolve_read (p := p.takeUp frame rest) script
    rw [leads_bind_ok hops]
    cases ops with
    | none => exact habsent
    | some callback =>
      refine leads_bind.mpr (leads_fiber_of (fun x hx => ?_) trivial)
      apply Leads.bind (resetFiber_leads callback hx)
      intro _ q hq
      obtain ⟨hstack, hterm, hlike, hserial, honward⟩ := hq
      have hx' := (hlike.fibers f).trans (Thread.get?_renew.trans (if_pos rfl))
      have hq := (hp.move htake).renew hx hstack hterm hlike honward
      rw [leads_bind, leads_fiber hx']
      have hanswer (a : Answer) : (answer op.label a).Moves [] (fun _ => []) q := moves_answer ..
      refine ((hanswer _).and (answer_leads ..)).mono (fun _ r ⟨hr, hsame⟩ => ⟨?_, hq.move hr⟩)
        fun _ _ h => h.2.1
      exact .reset hop ha hs (.intro hmoved hx hstack hterm hlike hserial honward
        (hr.moved hq.thread.toSteady) (by rw [hsame]; rfl))

/-! ### Any step -/

theorem step_perform_leads (hp : p.Ordered) (hop : p.thread.Performs op frame rest) :
    step.Leads p (fun _ q => p.Turn q ∧ q.Ordered) fun halt _ => halt.Fair p := by
  have htake := hp.takeUp hop.code hop.todo
  have hordinary (h : (perform op).Leads (p.takeUp frame rest)
      (fun _ q => p.Turn q ∧ q.Ordered) fun halt _ => halt.Ordinary) :
      step.Leads p (fun _ q => p.Turn q ∧ q.Ordered) fun halt _ => halt.Fair p :=
    (leads_step hop).mpr (h.mono (fun _ _ h => h) fun _ _ h => h.fair _)
  have hmoves (h : (perform op).Leads (p.takeUp frame rest)
      (fun _ q => p.Turn q ∧ q.Ordered) fun halt _ => p.Stops [] halt) :
      step.Leads p (fun _ q => p.Turn q ∧ q.Ordered) fun halt _ => halt.Fair p :=
    (leads_step hop).mpr (h.mono (fun _ _ h => h) fun _ _ h => h.fair hp.thread.toSteady)
  have habsent := absent_leads op.label hp hop
  cases ha : op.action with
  | resume s =>
    cases hs : p.thread.slots.get? s with
    | some f =>
      obtain ⟨x, hx⟩ := hp.slot_alive hs
      refine (step_resume_leads hp hop ha hs hx).mono
        (fun _ _ hq => ⟨.resume hop ha hs hq.2.2.1, hq.2.2.2⟩) fun halt _ he => ?_
      rcases he with ⟨-, rfl⟩ | ⟨-, -, rfl⟩ <;> exact Halt.Ordinary.fair (by trivial) _
    | none =>
      rw [perform_resume ha] at hordinary
      exact hordinary ((leads_throughSlot_none (p := p.takeUp frame rest) hs).mpr habsent)
  | yield =>
    refine (step_yield_leads hp hop ha).mono (fun _ _ hq => ?_) fun halt _ he => ?_
    · obtain ⟨-, ⟨c, hc, hq⟩, hordered⟩ := hq
      exact ⟨.yield hop (.inl ⟨ha, rfl, hc⟩) hq, hordered⟩
    obtain ⟨-, r, rfl, -⟩ := he
    exact Halt.Ordinary.fair (by trivial) _
  | yieldOf s =>
    cases hs : p.thread.slots.get? s with
    | some f =>
      obtain ⟨x, hx⟩ := hp.slot_alive hs
      refine (step_yieldOf_leads hp hop ha hs hx).mono (fun _ _ hq => ?_) fun halt _ he => ?_
      · obtain ⟨-, -, -, hq, hordered⟩ := hq
        exact ⟨.yield hop (.inr ⟨s, ha, rfl, hs⟩) hq, hordered⟩
      rcases he with ⟨-, rfl⟩ | ⟨-, -, rfl⟩ | ⟨-, -, -, r, hr, rfl⟩
      · exact Halt.Ordinary.fair (by trivial) _
      · exact Halt.Ordinary.fair (by trivial) _
      · refine ⟨(fun _ h => nomatch h), fun g hg => ?_, (fun _ _ h => nomatch h),
          (fun _ h => nomatch h), fun _ _ h => nomatch h⟩
        cases hg
        exact hr
    | none =>
      rw [perform_yieldOf ha] at hordinary
      exact hordinary ((leads_throughSlot_none (p := p.takeUp frame rest) hs).mpr habsent)
  | reset s script =>
    refine hordinary ?_
    unfold perform
    rw [ha]
    exact reset_leads hp hop (.inl ha)
  | resetInPlace s script =>
    refine hordinary ?_
    unfold perform
    rw [ha]
    exact reset_leads hp hop (.inr ha)
  | runThread script =>
    refine hordinary ?_
    obtain ⟨ops, hops⟩ := resolve_read (p := p.takeUp frame rest) script
    unfold perform
    rw [ha]
    refine (leads_bind_ok hops).mpr ?_
    cases ops with
    | none => exact habsent
    | some ops => exact launch_leads op.label ops hp htake
  | _ =>
    exact hmoves (turn_of_moves hp htake
      (moves_perform op (hp.rest_plain hop.code hop.todo) (by rw [ha]; trivial)))

/-- A step from an orderly process is a turn to an orderly process, and where it halts
instead it does so in a fair way. -/
theorem step_leads (hp : p.Ordered) :
    step.Leads p (fun _ q => p.Turn q ∧ q.Ordered) fun halt _ => halt.Fair p := by
  have ht := hp.thread
  have hmoves {act : Act Unit} {p' : Process} (h : act.Leads p'
      (fun _ q => p.Turn q ∧ q.Ordered) fun halt _ => p.Stops [] halt) :
      act.Leads p' (fun _ q => p.Turn q ∧ q.Ordered) fun halt _ => halt.Fair p :=
    h.mono (fun _ _ h => h) fun _ _ h => h.fair ht.toSteady
  cases hcode : p.thread.running.code with
  | opening program =>
    unfold step
    rw [leads_bind, leads_thread, hcode]
    refine hmoves (turn_of_moves hp (.refl [] p) ?_)
    have hbecome : (modifyThread (·.become (.active ⟨.program, [], Task.ofOps program⟩))).Moves []
        (fun _ => []) p := by
      refine moves_become ?_
      rw [hcode]
      exact Code.follows_opening program
    exact hbecome.bind fun _ _ _ => moves_status.bind fun _ _ _ => moves_emit _
  | entry f =>
    unfold step
    rw [leads_bind, leads_thread, hcode]
    exact hmoves (turn_of_moves hp (.refl [] p) (moves_enter hcode (ht.starting f hcode)))
  | active frame =>
    cases htodo : frame.todo with
    | nil =>
      unfold step
      rw [leads_bind, leads_thread, hcode]
      dsimp only
      rw [htodo]
      refine hmoves (turn_of_moves hp (.refl [] p) (moves_become ?_))
      rw [hcode]
      have hscripted : Code.Scripted (.active frame) := by simp [Code.Scripted, htodo]
      exact hscripted.follows_leave _
    | cons task rest =>
      cases task with
      | perform op => exact step_perform_leads hp ⟨hcode, htodo⟩
      | _ =>
        rw [leads_task hcode htodo]
        refine hmoves (turn_of_moves hp (hp.takeUp hcode htodo) (moves_carryOut _ ?_ ?_))
        · exact hp.rest_plain hcode htodo
        · exact fun _ h => nomatch h
  | leaving origin held outcome =>
    unfold step
    rw [leads_bind, leads_thread, hcode]
    exact hmoves (turn_of_moves hp (.refl [] p) (moves_leave hcode))
  | returned origin outcome =>
    cases origin with
    | program =>
      unfold step
      rw [leads_bind, leads_thread, hcode]
      exact endThread_leads outcome hp (by rw [hcode]; rfl)
    | callback f =>
      obtain ⟨x, hx, -⟩ := ht.toSound.returned hcode
      refine (step_finish_leads hp hcode hx).mono
        (fun _ _ hq => ⟨.finish hcode hq.2.1, hq.2.2⟩) fun halt _ he => ?_
      obtain ⟨-, rfl, -⟩ := he
      exact Halt.Ordinary.fair (by trivial) _
  | spent f => exact (ht.awake.spent f hcode).elim

end Act
end Fibers
