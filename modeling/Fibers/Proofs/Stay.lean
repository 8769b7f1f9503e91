import Fibers.Proofs.Report

/-! Switches and resets destroy nothing.

Whatever resumes, yields, ends or resets a fiber leaves every fiber of the thread there, on the
stack that it had: the handles that are borrowed on the way are given back before anybody could
give up the last one. -/
namespace Fibers

/-- The action switches from fiber to fiber, or resets one. -/
def Action.Transfers : Action → Prop
  | .resume _ | .yield | .yieldOf _ | .reset .. | .resetInPlace .. => True
  | _ => False

namespace Process

/-- All fibers of the thread are still there, on their stacks. -/
def Stays (p q : Process) : Prop :=
  ∀ f x, p.thread.fibers.get? f = some x → ∃ y, q.thread.fibers.get? f = some y ∧ y.stack = x.stack

variable {p q r : Process} {f source home : Nat} {x y : Fiber} {state : State}

theorem Stays.refl (p : Process) : p.Stays p := fun _ x hx => ⟨x, hx, rfl⟩

theorem Stays.trans (h : p.Stays q) (h' : q.Stays r) : p.Stays r := by
  intro f x hx
  obtain ⟨y, hy, hxy⟩ := h f x hx
  obtain ⟨z, hz, hyz⟩ := h' f y hy
  exact ⟨z, hz, hyz.trans hxy⟩

theorem stays_of_get? (h : ∀ g, q.thread.fibers.get? g = p.thread.fibers.get? g) : p.Stays q :=
  fun g x hx => ⟨x, (h g).trans hx, rfl⟩

/-- A fiber was replaced by one on the same stack. -/
theorem stays_of_set (hx : p.thread.fibers.get? f = some x) (hstack : y.stack = x.stack)
    (h : ∀ g, q.thread.fibers.get? g = if g = f then some y else p.thread.fibers.get? g) :
    p.Stays q := by
  intro g z hz
  by_cases hg : g = f
  · subst hg
    cases hx.symm.trans hz
    exact ⟨y, (h g).trans (if_pos rfl), hstack⟩
  · exact ⟨z, (h g).trans ((if_neg hg).trans hz), rfl⟩

theorem Grounded.stays (h : p.Grounded q) : p.Stays q := fun f x hx => ⟨x, h.fibers f x hx, rfl⟩

theorem Lent.stays {extra : List Nat} (h : Lent extra p q) : p.Stays q :=
  fun _ _ hx => ⟨_, h.get? hx, rfl⟩

theorem Switch.stays (h : p.Switch source home state q) : p.Stays q := by
  obtain ⟨hx, hy, hne, ht, like, serial, onward, hub⟩ := id h
  intro f z hz
  by_cases hhome : f = home
  · subst hhome
    exact ⟨_, h.left hz, rfl⟩
  by_cases hsource : f = source
  · subst hsource
    exact ⟨_, h.entered hz, rfl⟩
  exact ⟨z, (h.others hsource hhome).trans hz, rfl⟩

end Process

namespace Act
open Process

variable {p : Process} {op : Op} {frame : Frame} {rest : List Task} {f : Nat} {x : Fiber}
  {hand : List Nat} {E : Halt → Process → Prop}

theorem resume_stays (hp : p.thread.Steady p.nextId hand) (hx : p.thread.fibers.get? f = some x) :
    (resume f).Leads p (fun _ q => p.Stays q) fun _ _ => True := by
  refine (resume_leads hp hx).mono (fun _ q hq => ?_) fun _ _ _ => trivial
  obtain ⟨-, -, p₁, c, hground, -, hswitch⟩ := hq
  exact hground.stays.trans hswitch.stays

theorem yieldFiber_stays (hp : p.thread.Sound hand) (hx : p.thread.fibers.get? f = some x) :
    (yieldFiber f).Leads p (fun _ q => p.Stays q) fun _ _ => True := by
  refine (yieldFiber_leads hp hx).mono (fun _ q hq => ?_) fun _ _ _ => trivial
  obtain ⟨-, -, -, r, -, hswitch⟩ := hq
  exact hswitch.stays

theorem reset_stays (s : String) (script : Script) (answerOf : Fiber → Fiber → Answer) :
    (reset s script answerOf).Leads p (fun _ q => p.Stays q) fun _ _ => True := by
  unfold reset onSlot
  refine leads_bind.mpr (leads_slot?.mpr ?_)
  cases p.thread.slots.get? s with
  | none => exact Stays.refl p
  | some f =>
    obtain ⟨ops, hops⟩ := resolve_read (p := p) script
    refine (leads_bind_ok hops).mpr ?_
    cases ops with
    | none => exact Stays.refl p
    | some callback =>
      refine leads_bind.mpr (leads_fiber_of (fun x hx => ?_) trivial)
      apply Leads.bind ((resetFiber_leads callback hx).mono (fun _ _ h => h) fun _ _ _ => trivial)
      intro _ q hq
      obtain ⟨-, -, hlike, -, -⟩ := hq
      have hstays : p.Stays q :=
        stays_of_set hx (by rfl) fun g => (hlike.fibers g).trans Thread.get?_renew
      exact leads_bind.mpr (leads_fiber_of (fun _ _ => hstays) trivial)

theorem answer_stays {p' : Process} (hp' : p.Stays p') (label : Label) (a : Answer) :
    (answer label a).Leads p' (fun _ q => p.Stays q) fun _ _ => True := by
  have hanswer : (answer label a).Leads p' (fun _ q => q = p'.report (.done label · a))
      (p'.Breaks .plain) := leads_report
  refine hanswer.mono (fun _ q hq => ?_) fun _ _ _ => trivial
  subst hq
  exact hp'

/-- Nothing happens where there is no fiber in the slot. -/
theorem throughSlot_stays {s : String} {act : Nat → Act Unit} (label : Label) {p' : Process}
    (hp' : p.Stays p')
    (h : ∀ f, p'.thread.slots.get? s = some f →
      (act f).Leads p' (fun _ q => p.Stays q) fun _ _ => True) :
    (throughSlot s label act).Leads p' (fun _ q => p.Stays q) fun _ _ => True := by
  cases hs : p'.thread.slots.get? s with
  | none => exact (leads_throughSlot_none hs).mpr (answer_stays hp' label .absent)
  | some f => exact (leads_throughSlot hs).mpr (h f hs)

/-- A switch that names its fiber keeps a handle of it for the second half. -/
theorem holding_stays (task : Task) {act : Act Unit} (hp : p.Ordered)
    (hop : p.thread.Performs op frame rest) (htask : task.handles = [f])
    (hs : ∃ x, p.thread.fibers.get? f = some x)
    (h : ∀ p' x, p'.thread.Steady p'.nextId [] → p'.thread.fibers.get? f = some x →
      act.Leads p' (fun _ q => p'.Stays q) fun _ _ => True) :
    (holding f task act).Leads (p.takeUp frame rest) (fun _ q => p.Stays q) fun _ _ => True := by
  obtain ⟨x, hx⟩ := hs
  obtain ⟨hsteady, -, hx'⟩ := hp.inside task hop hx htask
  have hinside : p.Stays (p.inside f x task frame rest) :=
    stays_of_set (y := {x with handles := x.handles + 1}) hx rfl fun _ => Thread.get?_setFiber
  refine (leads_holding hx).mpr ?_
  exact (h _ _ hsteady hx').mono (fun _ _ hq => hinside.trans hq) fun _ _ h => h

/-- The step that switches or resets leaves all fibers there. -/
theorem step_transfers_stays (hp : p.Ordered) (hop : p.thread.Performs op frame rest)
    (ha : op.action.Transfers) : step.Leads p (fun _ q => p.Stays q) fun _ _ => True := by
  have htake : p.Stays (p.takeUp frame rest) := stays_of_get? fun _ => rfl
  rw [leads_step hop]
  cases haction : op.action with
  | resume s =>
    rw [perform_resume haction]
    refine throughSlot_stays op.label htake fun f hs => ?_
    exact holding_stays (.resumed op.label f) hp hop rfl (hp.slot_alive hs)
      fun _ _ hsteady hx => resume_stays hsteady hx
  | yieldOf s =>
    rw [perform_yieldOf haction]
    refine throughSlot_stays op.label htake fun f hs => ?_
    exact holding_stays (.yielded op.label (some f)) hp hop rfl (hp.slot_alive hs)
      fun _ _ hsteady hx => yieldFiber_stays hsteady.toSound hx
  | yield =>
    let q₁ : Process := (p.takeUp frame rest).pushed (.yielded op.label none) frame rest
    have hq₁ : q₁.thread.Steady q₁.nextId [] :=
      steady_push (p := p.takeUp frame rest) (.yielded op.label none)
        ((hp.takeUp hop.code hop.todo).steady hp.thread.toSteady) rfl
    rw [perform_yield haction]
    refine leads_bind.mpr (leads_modifyThread.mpr ?_)
    refine Leads.bind (lent_currentFiber (p := q₁) hq₁) fun c q₂ hlent => ?_
    obtain ⟨p₁, hground, hc, -, hlent⟩ := hlent
    have hp₁ := (hground.move []).steady hq₁
    obtain ⟨-, y, hy, -⟩ := hp₁.current_running hc
    apply Leads.bind (lent_release hlent hy (hp₁.positive c y hy))
    intro _ q₃ hlent
    have hstays : p.Stays q₃ :=
      (stays_of_get? (q := q₁) fun _ => rfl).trans (hground.stays.trans hlent.stays)
    exact (yieldFiber_stays (hlent.like.sound hp₁.toSound)
      ((hlent.like.fibers c).trans hy)).mono (fun _ _ hq => hstays.trans hq) fun _ _ h => h
  | reset s script =>
    unfold perform
    rw [haction]
    apply Leads.bind (reset_stays s script fun _ x => .state x.state)
    exact fun a q hq => answer_stays (htake.trans hq) op.label a
  | resetInPlace s script =>
    unfold perform
    rw [haction]
    apply Leads.bind (reset_stays s script fun x y =>
      .truth (x.stack.map (·.block) = y.stack.map (·.block)))
    exact fun a q hq => answer_stays (htake.trans hq) op.label a
  | _ =>
    rw [haction] at ha
    exact ha.elim

/-- Nor does the end of a callback destroy anything, as long as its fiber is not the one to go. -/
theorem step_finish_stays {outcome : Outcome} (hp : p.Ordered)
    (hcode : p.thread.running.code = .returned (.callback f) outcome) :
    step.Leads p (fun _ q => p.Stays q) fun _ _ => True := by
  obtain ⟨x, hx, -, -⟩ := hp.thread.toSound.returned hcode
  refine (leads_finish hcode).mpr ?_
  refine (finish_leads hp.thread.toSound hcode hx).mono (fun _ q hq => ?_) fun _ _ _ => trivial
  obtain ⟨-, p₁, r, -, hlike, -, -, hswitch⟩ := hq
  have hterm : p.Stays p₁ :=
    stays_of_set hx (by rfl) fun g => (hlike.fibers g).trans Thread.get?_terminate
  exact hterm.trans hswitch.stays

end Act
end Fibers
