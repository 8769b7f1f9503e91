import Fibers.Proofs.Operations
import Fibers.Proofs.Switch

/-! What `resume` and `yieldFiber` do, exactly.

`resume` borrows handles of the caller and of its anchor and gives them back before it
switches. `Lent` says how a process stands in between, so that no step on the way can fail
over a destroyed fiber. The two results, `resume_leads` and `yieldFiber_leads`, name every
way these actions halt and the switch they make otherwise. -/
namespace Fibers

/-- The state in which a yield leaves a fiber. -/
def State.yielded (state : State) : State := if state = .term then .term else .ready

/-- How resuming a fiber halts. -/
def Thread.ResumeHalts (t : Thread) (f : Nat) (x : Fiber) (halt : Halt) : Prop :=
  x.state ≠ .ready ∧ halt = .aborted (.resumedWhile f x.state) ∨
  x.state = .ready ∧ (x.scheduled = true ∧ t.hub = some f) ∧ halt = .aborted (.anchorsItself f)

/-- How yielding a fiber halts. -/
def Thread.YieldHalts (t : Thread) (f : Nat) (x : Fiber) (halt : Halt) : Prop :=
  x.state = .ready ∧ halt = .aborted (.yieldedWhile f x.state) ∨
  x.state ≠ .ready ∧ x.stack = none ∧ halt = .aborted (.rootYielded f) ∨
  x.state ≠ .ready ∧ x.stack ≠ none ∧ t.running.code.origin = .program ∧
    ∃ r, t.root = some r ∧ halt = .aborted (.noContext r)

theorem Thread.livingHub_eq_some {t : Thread} {h : Nat} :
    t.livingHub = some h ↔ t.hub = some h ∧ ∃ x, t.fibers.get? h = some x := by
  rw [livingHub, Option.filter_eq_some_iff, decide_eq_true_iff, Alive, Option.isSome_iff_exists]

namespace Process

/-- The process with some more handles out. -/
structure Lent (extra : List Nat) (p q : Process) : Prop where
  fibers : ∀ f, q.thread.fibers.get? f =
    (p.thread.fibers.get? f).map fun x => {x with handles := x.handles + extra.count f}
  current : q.thread.current = p.thread.current
  root : q.thread.root = p.thread.root
  hub : q.thread.hub = p.thread.hub
  slots : q.thread.slots = p.thread.slots
  running : q.thread.running = p.thread.running
  lost : q.thread.lost = p.thread.lost
  nextSerial : q.nextSerial = p.nextSerial
  onward : p.Onward q

variable {p q : Process} {extra extra' : List Nat} {f : Nat} {x : Fiber}

theorem Lent.refl (p : Process) : Lent [] p p where
  fibers f := by cases p.thread.fibers.get? f <;> rfl
  current := rfl
  root := rfl
  hub := rfl
  slots := rfl
  running := rfl
  lost := rfl
  nextSerial := rfl
  onward := .refl p

theorem Lent.perm (h : Lent extra p q) (hp : extra.Perm extra') : Lent extra' p q :=
  { h with fibers := fun f => by rw [h.fibers, hp.count_eq] }

theorem Lent.get? (h : Lent extra p q) (hx : p.thread.fibers.get? f = some x) :
    q.thread.fibers.get? f = some {x with handles := x.handles + extra.count f} := by
  rw [h.fibers, hx]
  rfl

theorem Lent.livingHub (h : Lent extra p q) : q.thread.livingHub = p.thread.livingHub := by
  ext b
  rw [Thread.livingHub_eq_some, Thread.livingHub_eq_some, h.hub, h.fibers]
  cases p.thread.fibers.get? b <;> simp

/-- With all handles given back, nothing has changed. -/
theorem Lent.like (h : Lent [] p q) : p.thread.Like q.thread where
  fibers f := by
    rw [h.fibers]
    cases p.thread.fibers.get? f <;> rfl
  current := h.current
  root := h.root
  slots := h.slots
  running := h.running
  lost := h.lost

/-- The process with its root, which is made if there was none. -/
structure Grounded (p q : Process) : Prop where
  move : ∀ hand, Move hand p hand q
  fibers : ∀ f x, p.thread.fibers.get? f = some x → q.thread.fibers.get? f = some x
  running : q.thread.running = p.thread.running
  hub : q.thread.hub = p.thread.hub
  slots : q.thread.slots = p.thread.slots
  settled : p.thread.current ≠ none → q = p
  fresh : p.thread.current = none → q.thread.current = q.thread.root

theorem Grounded.refl (h : p.thread.current ≠ none) : p.Grounded p :=
  ⟨fun hand => .refl hand p, fun _ _ h => h, rfl, rfl, rfl, fun _ => rfl, fun hn => (h hn).elim⟩

/-- The process with its root made. -/
def ground (p : Process) : Process :=
  {p with nextId := p.nextId + 1, thread := p.thread.addRoot p.nextId}

theorem grounded_ground {hand : List Nat} (hp : p.thread.Steady p.nextId hand)
    (hc : p.thread.current = none) : p.Grounded p.ground where
  move hand := .root hc (Nat.lt_succ_self _) (.refl _) ⟨Nat.le_succ _, Nat.le_refl _, rfl, rfl⟩
  fibers f x hx := by
    have := hp.below f x hx
    show (p.thread.addRoot p.nextId).fibers.get? f = _
    rw [Thread.get?_addRoot, if_neg (by omega), hx]
  running := rfl
  hub := rfl
  slots := rfl
  settled h := (h hc).elim
  fresh _ := rfl

/-- The process after a switch from `home` to `source`. -/
inductive Switch (p : Process) (source home : Nat) (state : State) (q : Process) : Prop
  | intro {x y : Fiber} {target : Context} (hx : p.thread.fibers.get? source = some x)
    (hy : p.thread.fibers.get? home = some y) (hne : home ≠ source)
    (ht : x.context = some target)
    (like : (p.thread.switch source x target home y state p.nextSerial).Like q.thread)
    (serial : q.nextSerial = p.nextSerial + 1) (onward : p.Onward q)
    (hub : q.thread.hub = p.thread.hub)

end Process

namespace Act
open Process

variable {p q : Process} {E : Halt → Process → Prop} {extra : List Nat} {f : Nat} {x : Fiber}

/-! ### Borrowed handles -/

theorem lent_log (h : Lent extra p q) (record : Record) :
    (log record).Leads q (fun _ r => Lent extra p r) E :=
  leads_log.mpr { h with onward := h.onward.trans (onward_of_names rfl rfl rfl rfl) }

theorem lent_setFiber {extra' : List Nat} (h : Lent extra p q)
    (hx : p.thread.fibers.get? f = some x) {n : Nat} (hn : n = x.handles + extra'.count f)
    (hcount : ∀ g, g ≠ f → extra'.count g = extra.count g) :
    (setFiber f {x with handles := n}).Leads q (fun _ r => Lent extra' p r) E := by
  refine leads_setFiber.mpr { h with
    fibers := fun g => ?_, onward := h.onward.trans (onward_of_names rfl rfl rfl rfl) }
  rw [Table.get?_set]
  split
  · next hg => rw [hg, hx, hn, Option.map_some]
  · next hg => rw [h.fibers, hcount g hg]

theorem lent_retain (h : Lent extra p q) (hx : p.thread.fibers.get? f = some x) :
    (retain f).Leads q (fun _ r => Lent (f :: extra) p r) E := by
  refine leads_bind.mpr ((leads_fiber (h.get? hx)).mpr ?_)
  refine lent_setFiber h hx ?_ fun g hg => List.count_cons_of_ne (Ne.symm hg)
  rw [List.count_cons_self]
  rfl

theorem lent_release (h : Lent (f :: extra) p q) (hx : p.thread.fibers.get? f = some x)
    (hpos : 0 < x.handles) : (release f).Leads q (fun _ r => Lent extra p r) E := by
  refine leads_bind.mpr ((leads_fiber (h.get? hx)).mpr ?_)
  rw [List.count_cons_self, if_neg (show ¬ x.handles + (extra.count f + 1) ≤ 1 by omega)]
  exact lent_setFiber h hx rfl fun g hg => (List.count_cons_of_ne (Ne.symm hg)).symm

theorem lent_createRoot : createRoot.Leads p (fun r q => r = p.nextId ∧ Lent [r] p.ground q) E := by
  unfold createRoot register retain
  simp only [leads_bind, leads_get, leads_modify, leads_pure, leads_setFiber, leads_log, setCurrent,
    leads_modifyThread]
  rw [leads_modifyFiber (by rw [Table.get?_set, if_pos rfl])]
  refine ⟨trivial, fun g => ?_, rfl, rfl, rfl, rfl, rfl, rfl, rfl, onward_of_names rfl rfl rfl rfl⟩
  show ((p.thread.fibers.set p.nextId .root).set p.nextId _).get? g =
    ((p.thread.addRoot p.nextId).fibers.get? g).map _
  rw [Table.get?_set, Thread.get?_addRoot, Table.get?_set]
  split
  · next hg =>
    subst hg
    rw [Option.map_some, List.count_singleton_self]
  · next hg =>
    rw [List.count_singleton, if_neg (by simpa using Ne.symm hg)]
    cases p.thread.fibers.get? g <;> rfl

theorem lent_currentFiber {hand : List Nat} (hp : p.thread.Steady p.nextId hand) :
    currentFiber.Leads p (fun c q => ∃ p₁, p.Grounded p₁ ∧ p₁.thread.current = some c ∧
      p₁.thread.root ≠ none ∧ Lent [c] p₁ q) E := by
  unfold currentFiber
  refine leads_bind.mpr (leads_thread.mpr ?_)
  cases hc : p.thread.current with
  | none =>
    refine lent_createRoot.mono (fun r q hq => ?_) fun _ _ h => h
    exact ⟨p.ground, grounded_ground hp hc, by rw [hq.1]; rfl, (fun h => nomatch h), hq.2⟩
  | some c =>
    obtain ⟨hroot, x, hx, -⟩ := hp.current_running hc
    exact Leads.bind (lent_retain (.refl p) hx) fun _ q hq =>
      ⟨p, .refl (by rw [hc]; exact Option.some_ne_none c), hc, hroot, hq⟩

theorem lent_hubFiber (h : Lent extra p q) :
    hubFiber.Leads q
      (fun hub r => hub = p.thread.livingHub ∧ Lent (hub.toList ++ extra) p r) E := by
  unfold hubFiber
  refine leads_bind.mpr (leads_thread.mpr ?_)
  rw [h.livingHub]
  cases hb : p.thread.livingHub with
  | none => exact ⟨rfl, h⟩
  | some b =>
    obtain ⟨-, x, hx⟩ := Thread.livingHub_eq_some.mp hb
    exact Leads.bind (lent_retain h hx) fun _ r hr => ⟨rfl, hr⟩

/-- The fiber is anchored to the root or to the living hub. Only the hub can be the fiber
itself, which is not allowed. -/
theorem lent_anchorTo {a c : Nat} {scheduled : Bool} (h : Lent [a, c] p q)
    (ha : ∃ x, p.thread.fibers.get? a = some x)
    (hcase : a = f ↔ scheduled = true ∧ p.thread.hub = some f) :
    (anchorTo f a).Leads q
      (fun a q => ¬(scheduled = true ∧ p.thread.hub = some f) ∧
        (∃ x, p.thread.fibers.get? a = some x) ∧ Lent [c, a] p q)
      (fun halt _ => (scheduled = true ∧ p.thread.hub = some f) ∧
        halt = .aborted (.anchorsItself f)) := by
  rw [← hcase]
  exact leads_bind.mpr (leads_ensure.mpr
    ⟨fun hne => ⟨hne, ha, h.perm (.swap ..)⟩, fun he => ⟨Decidable.not_not.mp he, rfl⟩⟩)

theorem lent_anchor {c r : Nat} {scheduled : Bool} {hand : List Nat}
    (hp : p.thread.Steady p.nextId hand) (h : Lent [c] p q) (hr : p.thread.root = some r)
    (hf : r ≠ f) (hx : p.thread.fibers.get? f = some x) :
    (anchor f scheduled).Leads q
      (fun a q => ¬(scheduled = true ∧ p.thread.hub = some f) ∧
        (∃ x, p.thread.fibers.get? a = some x) ∧ Lent [c, a] p q)
      (fun halt _ => (scheduled = true ∧ p.thread.hub = some f) ∧
        halt = .aborted (.anchorsItself f)) := by
  obtain ⟨z, hz⟩ := hp.toCounted.root_alive hr
  rw [anchor_eq]
  refine leads_bind.mpr (leads_thread.mpr ?_)
  rw [h.root, hr]
  refine Leads.bind (lent_retain h hz) fun _ q₁ h₁ => ?_
  cases scheduled with
  | false => exact lent_anchorTo h₁ ⟨z, hz⟩ (by simpa using hf)
  | true =>
    apply Leads.bind (lent_hubFiber h₁)
    intro hub q₂ h₂
    obtain ⟨hhub, h₂⟩ := h₂
    cases hub with
    | none =>
      refine lent_anchorTo h₂ ⟨z, hz⟩ ⟨fun h => (hf h).elim, fun h => ?_⟩
      simp [Thread.livingHub_eq_some.mpr ⟨h.2, x, hx⟩] at hhub
    | some b =>
      obtain ⟨hb, y, hy⟩ := Thread.livingHub_eq_some.mp hhub.symm
      refine Leads.bind (lent_release (h₂.perm (.swap ..)) hz (hp.positive r z hz))
        fun _ q₃ h₃ => ?_
      refine lent_anchorTo h₃ ⟨y, hy⟩ ?_
      rw [hb]
      simp

/-! ### The switch itself -/

theorem leads_takeContext {k : Context} {Q : Context → Process → Prop}
    (hx : p.thread.fibers.get? f = some x) (hk : x.context = some k) :
    (takeContext f).Leads p Q E ↔
      Q k {p with thread := p.thread.setFiber f {x with context := none}} := by
  unfold takeContext
  rw [leads_bind, leads_fiber hx, hk]
  exact Iff.rfl

theorem leads_takeContext_none {Q : Context → Process → Prop}
    (hx : p.thread.fibers.get? f = some x) (hk : x.context = none) :
    (takeContext f).Leads p Q E ↔
      E (.aborted (.noContext f)) {p with trace := logged p (.violated (.noContext f))} := by
  unfold takeContext
  rw [leads_bind, leads_fiber hx, hk]
  exact leads_violate

theorem leads_switchTo {home : Nat} {y : Fiber} {target : Context} {Q : Unit → Process → Prop}
    (hy : p.thread.fibers.get? home = some y) :
    (switchTo target home).Leads p Q E ↔ Q () {p with
      nextSerial := p.nextSerial + 1
      thread := {p.thread with
        running := target
        lost := y.context.toList ++ p.thread.lost
        fibers := p.thread.fibers.set home
          {y with context := some ⟨p.nextSerial, p.thread.running.code⟩}}} := by
  unfold switchTo freshSerial fileContext lose
  simp only [leads_bind, leads_get, leads_modify, leads_pure, leads_thread, leads_modifyThread,
    leads_setFiber]
  rw [leads_fiber (by exact hy)]

/-- The last part of `resume`, from where two handles are to be given back. -/
theorem handBack_leads {c a : Nat} {y z : Fiber} {k : Context} (h : Lent [c, a] p q)
    (hz : p.thread.fibers.get? a = some z) (hzpos : 0 < z.handles)
    (hx : p.thread.fibers.get? f = some x) (hk : x.context = some k)
    (hy : p.thread.fibers.get? c = some y) (hypos : 0 < y.handles) (hrunning : y.state = .running)
    (hne : c ≠ f) :
    (handBack c a (switchInto f c)).Leads q (fun _ r => p.Switch f c .running r) E := by
  apply Leads.bind (lent_release h hy hypos)
  intro _ q h
  apply Leads.bind (lent_release h hz hzpos)
  intro _ q h
  have hqx : q.thread.fibers.get? f = some x := (h.like.fibers f).trans hx
  have hqy : q.thread.fibers.get? c = some y := (h.like.fibers c).trans hy
  unfold switchInto
  rw [leads_bind, leads_takeContext hqx hk, leads_bind, setCurrent, leads_modifyThread, leads_bind,
    leads_modifyFiber (x := {x with context := none})
      (by simp only [Thread.setFiber, Table.get?_set, if_true]),
    leads_bind, leads_log,
    leads_switchTo (y := y) (by simp only [Thread.setFiber, Table.get?_set, if_neg hne, hqy])]
  refine .intro hx hy hne hk ⟨fun g => ?_, rfl, h.root, h.slots, rfl, ?_⟩ ?_ ?_ h.hub
  · simp only [Thread.switch, Thread.handOver, Thread.setFiber, Table.get?_set, h.like.fibers,
      h.running, h.nextSerial, hrunning]
    split
    · rfl
    · split <;> rfl
  · show y.context.toList ++ q.thread.lost = y.context.toList ++ p.thread.lost
    rw [h.lost]
  · show q.nextSerial + 1 = p.nextSerial + 1
    rw [h.nextSerial]
  · exact h.onward.trans ⟨Nat.le_refl _, Nat.le_succ _, rfl, rfl⟩

/-- `resume` aborts over a fiber that is not ready and over one that would anchor itself.
Otherwise it switches into the fiber from the current one. -/
theorem resume_leads {hand : List Nat} (hp : p.thread.Steady p.nextId hand)
    (hx : p.thread.fibers.get? f = some x) :
    (resume f).Leads p
      (fun _ q => x.state = .ready ∧ ¬(x.scheduled = true ∧ p.thread.hub = some f) ∧
        ∃ p₁ c, p.Grounded p₁ ∧ p₁.thread.current = some c ∧ p₁.Switch f c .running q)
      (fun halt _ => p.thread.ResumeHalts f x halt) := by
  rw [resume_eq, leads_bind, leads_fiber hx, leads_bind, leads_ensure]
  refine ⟨fun hready => ?_, fun hne => .inl ⟨hne, rfl⟩⟩
  refine Leads.bind (lent_currentFiber hp) fun c q₁ ⟨p₁, hground, hc, hroot, hlent⟩ => ?_
  have hp₁ := (hground.move hand).steady hp
  have hx₁ := hground.fibers f x hx
  obtain ⟨r, hr⟩ := Option.ne_none_iff_exists'.mp hroot
  obtain ⟨-, y, hy, hrunning⟩ := hp₁.current_running hc
  have hne : c ≠ f := by
    rintro rfl
    have := hp₁.current_state hc hx₁
    simp [hready] at this
  have hrf : r ≠ f := by
    rintro rfl
    have := hp₁.running r x hx₁ ((hp₁.root_iff r x hx₁).mpr hr)
    simp [hready] at this
  refine Leads.bind ((lent_anchor hp₁ hlent hr hrf hx₁).mono (fun _ _ h => h) fun halt _ h => ?_)
    fun a q₂ ⟨hanchor, ⟨z, hz⟩, h₂⟩ => ?_
  · rw [hground.hub] at h
    exact .inr ⟨hready, h⟩
  rw [hground.hub] at hanchor
  obtain ⟨k, hk, -⟩ := hp₁.ready f x hx₁ hready
  refine Leads.mono (Q := fun _ r => p₁.Switch f c .running r) ?_
    (fun _ r hr => ⟨hready, hanchor, p₁, c, hground, hc, hr⟩) fun _ _ h => h
  have hpos {g : Nat} {x : Fiber} (hx : p₁.thread.fibers.get? g = some x) := hp₁.positive g x hx
  dsimp only
  split
  · exact Leads.bind (lent_log h₂ _) fun _ q₃ h₃ =>
      handBack_leads h₃ hz (hpos hz) hx₁ hk hy (hpos hy) hrunning hne
  · exact handBack_leads h₂ hz (hpos hz) hx₁ hk hy (hpos hy) hrunning hne

/-- The last part of `yieldFiber`, from where the root is current and the fiber marked. -/
theorem switchBack_leads {r : Nat} {y : Fiber} {k : Context} {state : State}
    (hx : p.thread.fibers.get? f = some x) (hy : p.thread.fibers.get? r = some y)
    (hrunning : y.state = .running) (hne : f ≠ r) (hk : y.context = some k)
    (ht : Thread.Like {p.thread.setFiber f {x with state} with current := some r} q.thread)
    (hhub : q.thread.hub = p.thread.hub) (hs : q.nextSerial = p.nextSerial) (ho : p.Onward q) :
    (switchBack f r).Leads q (fun _ q => p.Switch r f state q) E := by
  have hqx : q.thread.fibers.get? f = some {x with state} := by
    rw [ht.fibers]
    exact Thread.get?_setFiber.trans (if_pos rfl)
  have hqy : q.thread.fibers.get? r = some y := by
    rw [ht.fibers]
    exact Thread.get?_setFiber.trans ((if_neg (Ne.symm hne)).trans hy)
  unfold switchBack
  rw [leads_bind, leads_takeContext hqy hk, leads_bind, leads_log,
    leads_switchTo (y := {x with state})
      (by simp only [Thread.setFiber, Table.get?_set, if_neg hne, hqx])]
  refine .intro hy hx hne hk ⟨fun g => ?_, ht.current, ht.root, ht.slots, rfl, ?_⟩
    (congrArg (· + 1) hs) (ho.trans ⟨Nat.le_refl _, Nat.le_succ _, rfl, rfl⟩) hhub
  · simp only [Thread.switch, Thread.handOver, Thread.setFiber, Table.get?_set, hs, ht.fibers,
      ht.running]
    split
    · rfl
    · split
      · rw [← hrunning]
      · rfl
  · exact congrArg (x.context.toList ++ ·) ht.lost

/-- From there the root goes on, unless its place is empty because the program executes. -/
theorem leaveFiber_leads {hand : List Nat} {r : Nat} (hp : p.thread.Sound hand)
    (hx : p.thread.fibers.get? f = some x) (hstack : x.stack ≠ none)
    (hr : p.thread.root = some r)
    (ht : Thread.Like {p.thread.setFiber f {x with state := x.state.yielded} with
      current := some r} q.thread)
    (hhub : q.thread.hub = p.thread.hub) (hs : q.nextSerial = p.nextSerial) (ho : p.Onward q) :
    (switchBack f r).Leads q
      (fun _ q => p.thread.running.code.origin ≠ .program ∧ p.Switch r f x.state.yielded q)
      (fun halt _ => p.thread.running.code.origin = .program ∧
        halt = .aborted (.noContext r)) := by
  obtain ⟨y, hy⟩ := hp.toCounted.root_alive hr
  have hyroot := (hp.root_iff r y hy).mpr hr
  have hrunning := hp.running r y hy hyroot
  have hne : f ≠ r := by
    rintro rfl
    rw [hx] at hy
    cases hy
    exact hstack hyroot
  have haway : y.context = none ↔ p.thread.running.code.origin = .program := by
    rw [hp.away r y hy hyroot, hp.program_iff, hr]
  cases hk : y.context with
  | some k =>
    have ho' : p.thread.running.code.origin ≠ .program := fun hprogram => by
      simp [haway.mpr hprogram] at hk
    exact (switchBack_leads hx hy hrunning hne hk ht hhub hs ho).mono (fun _ _ hq => ⟨ho', hq⟩)
      fun _ _ h => h
  | none =>
    have hqy : q.thread.fibers.get? r = some y := by
      rw [ht.fibers]
      exact Thread.get?_setFiber.trans ((if_neg (Ne.symm hne)).trans hy)
    exact leads_bind.mpr ((leads_takeContext_none hqy hk).mpr ⟨haway.mp hk, rfl⟩)

/-- A yield aborts over a fiber that is ready, over a root, and over a task fiber while the
program executes, whose root then has nothing saved. Otherwise it switches to the root. -/
theorem yieldFiber_leads {hand : List Nat} (hp : p.thread.Sound hand)
    (hx : p.thread.fibers.get? f = some x) :
    (yieldFiber f).Leads p
      (fun _ q => x.state ≠ .ready ∧ x.stack ≠ none ∧
        p.thread.running.code.origin ≠ .program ∧
        ∃ r, p.thread.root = some r ∧ p.Switch r f x.state.yielded q)
      (fun halt _ => p.thread.YieldHalts f x halt) := by
  rw [yieldFiber_eq, leads_bind, leads_fiber hx, leads_bind, leads_ensure]
  refine ⟨fun hready => ?_, fun hne => .inl ⟨Decidable.not_not.mp hne, rfl⟩⟩
  rw [leads_bind, leads_ensure]
  refine ⟨fun hstack => ?_, fun hstack =>
    .inr (.inl ⟨hready, by simpa [Fiber.isRoot] using hstack, rfl⟩)⟩
  have hstack : x.stack ≠ none := fun hn => by
    simp [Fiber.isRoot, hn] at hstack
  rw [leads_bind, leads_thread]
  split
  · next hr => exact (hready ((hp.unrooted hr).2 f x hx)).elim
  next r hr =>
  refine Leads.mono
    (Q := fun _ q => p.thread.running.code.origin ≠ .program ∧ p.Switch r f x.state.yielded q)
    (E := fun halt _ => p.thread.running.code.origin = .program ∧ halt = .aborted (.noContext r))
    ?_ (fun _ _ hq => ⟨hready, hstack, hq.1, r, hr, hq.2⟩)
    fun _ _ he => .inr (.inr ⟨hready, hstack, he.1, r, hr, he.2⟩)
  let q : Process := {p with thread := {p.thread with current := some r}}
  refine leads_bind.mpr (leads_modifyThread.mpr ?_)
  split
  · next hterm =>
    refine leads_bind.mpr ((leads_modifyFiber (p := q) hx).mpr ?_)
    refine leaveFiber_leads hp hx hstack hr ⟨fun g => ?_, rfl, rfl, rfl, rfl, rfl⟩ rfl rfl
      (onward_of_names rfl rfl rfl rfl)
    rw [State.yielded, if_neg hterm]
    rfl
  · next hterm =>
    have hterm := Decidable.not_not.mp hterm
    refine leaveFiber_leads (q := q) hp hx hstack hr ⟨fun g => ?_, rfl, rfl, rfl, rfl, rfl⟩ rfl rfl
      (onward_of_names rfl rfl rfl rfl)
    rw [State.yielded, if_pos hterm, ← hterm]
    show _ = (p.thread.setFiber f x).fibers.get? g
    rw [Thread.get?_setFiber]
    split
    · next hg => rw [hg, hx]
    · rfl

end Act
end Fibers
