import Fibers.Proofs.Ending
import Fibers.Proofs.Hub
import Fibers.Proofs.Isolation
import Fibers.Proofs.Release

/-! The registration of the hub.

What is registered on a thread makes a history, to which only those operations add that are
performed on this thread. Its hub is what was registered last (`Process.Enrolled.run`), and is found
for as long as it lives. A registration is a name and no handle: the last handle of a fiber is the
last one whether the fiber is the hub or not, and with it the fiber goes (`Act.release_last_hub`).
Whoever resumes a fiber against the hub takes a handle of the hub, and gives it back before the
switch (`Act.step_resume_lends`). -/
namespace Fibers

/-- What an action registers on a thread: a fiber for its hub, or none where it clears the
registration. -/
def Thread.registers? (t : Thread) : Action → Option (Option Nat)
  | .setHub s => (t.slots.get? s).map some
  | .clearHub => some none
  | _ => none

/-- The hub that a history comes to: what was registered last. -/
def lastHub (history : List (Option Nat)) : Option Nat := history.getLast?.join

/-- A thread has handles of the fibers it keeps and of its root. -/
theorem Thread.handlesOf_pos {t : Thread} {f : Nat} :
    0 < t.handlesOf f ↔ t.Keeps f ∨ t.root = some f := by
  have hroot : 0 < t.root.toList.count f ↔ t.root = some f := by
    rw [List.count_pos_iff, Option.mem_toList]
  rw [keeps_iff, ← hroot, handlesOf]
  omega

theorem lastHub_snoc (history : List (Option Nat)) (registered : Option (Option Nat)) :
    lastHub (history ++ registered.toList) = registered.getD (lastHub history) := by
  cases registered <;> simp [lastHub]

namespace Process

/-- What the next step registers, if it does. -/
def registers? (p : Process) : Option (Option Nat) :=
  p.thread.performs?.bind fun (op, _) => p.thread.registers? op.action

/-- The histories of the threads after a step. That of the thread which executes grows; a thread
that is started has none yet, and a thread that is over takes its own along. -/
def enroll (p q : Process) (histories : List (List (Option Nat))) : List (List (Option Nat)) :=
  if p.joining.length < q.joining.length then [] :: histories
  else if q.joining.length < p.joining.length then histories.tail
  else histories.modifyHead (· ++ p.registers?.toList)

/-- The histories of the threads that execute or wait, innermost first, after so many steps. -/
def registrations : Nat → Process → List (List (Option Nat)) → List (List (Option Nat))
  | 0, _, histories => histories
  | n + 1, p, histories =>
    match Act.step p with
    | .ok _ q => registrations n q (p.enroll q histories)
    | .error .. => histories

/-- Every thread has the hub that its history comes to. -/
def Enrolled (p : Process) (histories : List (List (Option Nat))) : Prop :=
  List.Forall₂ (fun t history => t.hub = lastHub history) p.threads histories

variable {p q : Process} {op : Op} {frame : Frame} {rest : List Task}

theorem Enrolled.hub {histories : List (List (Option Nat))} (h : p.Enrolled histories) :
    p.thread.hub = lastHub (histories.headD []) := by
  cases h with
  | cons hown _ => exact hown

theorem registers_of_performs (hop : p.thread.Performs op frame rest) :
    p.registers? = p.thread.registers? op.action := by
  rw [registers?, hop.performs?_eq]
  rfl

theorem registers_none (h : ∀ op frame rest, p.thread.Performs op frame rest →
    ¬op.action.Registers) : p.registers? = none := by
  unfold registers?
  cases hperforms : p.thread.performs? with
  | none => rfl
  | some e =>
    obtain ⟨op, frame, rest⟩ := e
    have hnot := h op frame rest (Thread.performs_of hperforms)
    show p.thread.registers? op.action = none
    unfold Thread.registers?
    split
    · next ha => exact (hnot (by rw [ha]; trivial)).elim
    · next ha => exact (hnot (by rw [ha]; trivial)).elim
    · rfl

end Process

namespace Act
open Process

variable {p q : Process} {op : Op} {frame : Frame} {rest : List Task} {f n : Nat} {x : Fiber}
  {hand : List Nat}

/-! ### Registering -/

theorem lasting_hub (hub : Option Nat) :
    Lasting True True False fun q => q.thread.hub = hub where
  rest h _ _ _ _ hhub := (hhub.resolve_right id).trans h
  before _ h := h
  hold _ h := h
  logged _ _ h := h
  reported _ _ h := h

/-- After an operation that could register another hub, the hub is what was registered, unless a
thread was started. -/
theorem step_registers (hop : p.thread.Performs op frame rest)
    (hregisters : op.action.Registers) :
    step.Leads p (fun _ q => q.joining = p.joining →
      q.thread.hub = (p.thread.registers? op.action).getD p.thread.hub) fun _ _ => True := by
  have hanswer {q : Process} (a : Answer) {hub : Option Nat} (hq : q.thread.hub = hub) :
      (answer op.label a).Leads q (fun _ r => r.joining = p.joining → r.thread.hub = hub)
        fun _ _ => True := by
    refine (answer_leads op.label a).mono (fun _ r hr _ => ?_) fun _ _ _ => trivial
    subst hr
    exact hq
  refine (leads_step hop).mpr ?_
  unfold perform
  cases ha : op.action with
  | setHub s =>
    rw [show p.thread.registers? (.setHub s) = (p.thread.slots.get? s).map some from rfl]
    refine leads_bind.mpr (leads_bind.mpr (leads_slot?.mpr ?_))
    rw [show (p.takeUp frame rest).thread.slots.get? s = p.thread.slots.get? s from rfl]
    cases p.thread.slots.get? s with
    | none => exact hanswer .absent rfl
    | some f => exact hanswer .nothing rfl
  | clearHub =>
    exact leads_bind.mpr (leads_bind.mpr (leads_modifyThread.mpr (hanswer .nothing rfl)))
  | runThread script =>
    refine (leads_bind_ok (resolve_eq script _)).mpr ?_
    cases script.ops? (p.takeUp frame rest).scripts with
    | none => exact hanswer .absent rfl
    | some program => exact fun hj => (List.cons_ne_self _ _ hj).elim
  | _ => simp [ha, Action.Registers] at hregisters

/-- Where as many threads wait as before, it is not a program that has come to its end. -/
theorem unreturned_of_joining (hp : p.Ordered) (hq : step p = .ok () q)
    (hj : q.joining = p.joining) (outcome : Outcome) :
    p.thread.running.code ≠ .returned .program outcome := by
  intro hcode
  cases hwaiting : p.joining with
  | nil =>
    obtain ⟨halt, hend, -⟩ := step_ends hp hcode hwaiting
    cases hq.symm.trans hend
  | cons joiner waiting =>
    obtain ⟨-, hj', -⟩ := (step_joins hcode hwaiting).ok hq
    rw [hj, hwaiting] at hj'
    exact List.cons_ne_self _ _ hj'

/-- On a thread that goes on, the hub changes by what is registered only. -/
theorem step_hub (hp : p.Ordered) (hq : step p = .ok () q) (hj : q.joining = p.joining) :
    q.thread.hub = p.registers?.getD p.thread.hub := by
  by_cases hregisters : ∀ op frame rest, p.thread.Performs op frame rest → ¬op.action.Registers
  · rw [registers_none hregisters]
    refine ((keeps_step (lasting_hub p.thread.hub) trivial rfl (fun _ _ _ _ _ => trivial)
      hregisters fun outcome hcode => ?_).ok hq)
    exact unreturned_of_joining hp hq hj outcome hcode
  · simp only [not_forall, not_not] at hregisters
    obtain ⟨op, frame, rest, hop, hregisters⟩ := hregisters
    rw [registers_of_performs hop]
    exact (step_registers hop hregisters).ok hq hj

/-! ### Finding -/

/-- A handle is given back, unless it is the last one of a fiber that has not begun. -/
theorem release_after {r : Process} (hp : p.thread.Steady p.nextId []) (ht : p.thread.Primed)
    (hr : Move [] p (f :: hand) r) (hx : r.thread.fibers.get? f = some x) :
    (release f).Leads r (fun _ q => Move [] p hand q) fun halt _ =>
      (x.handles = 1 ∧ x.Waits) ∧ halt = .aborted (.destroyedWhile f .ready) := by
  have hsteady := hr.steady hp
  have hmoves : (release f).Moves (f :: hand) (fun _ => hand) r := moves_release f
  refine (hmoves.and (release_refuses hsteady (hr.primed hp ht) hx)).mono
    (fun _ _ h => hr.trans h.1) fun halt _ h => ?_
  obtain ⟨violation, hviolation, rfl⟩ := Option.map_eq_some_iff.mp h.2
  unfold Fiber.releaseRefusal? at hviolation
  split at hviolation <;> cases hviolation
  next hlast => exact ⟨hlast, rfl⟩

/-- The living hub is found, and nothing else happens than that a handle of it goes into the slot.
The one that was there may be the last of its fiber. -/
theorem findHub_leads (slot : Option String) (hp : p.thread.Steady p.nextId [])
    (ht : p.thread.Primed) :
    (findHub slot).Leads p (fun a q => a = .hub p.thread.livingHub ∧ Move [] p [] q)
      fun halt _ => ∃ name g x, slot = some name ∧ p.thread.slots.get? name = some g ∧
        p.thread.fibers.get? g = some x ∧ (x.handles = 1 ∧ x.Waits) ∧
        halt = .aborted (.destroyedWhile g .ready) := by
  have hfound : hubFiber.Leads p (fun hub q => (hub = p.thread.livingHub ∧
      Lent (hub.toList ++ []) p q) ∧ Move [] p (hub.toList ++ []) q) fun _ _ => False :=
    ((lent_hubFiber (.refl p)).and moves_hubFiber).mono (fun _ _ h => h) fun _ _ h => h.1
  unfold findHub
  refine Leads.bind (hfound.mono (fun _ _ h => h) fun _ _ h => h.elim) fun hub q hq => ?_
  obtain ⟨⟨hhub, hlent⟩, hmove⟩ := hq
  cases hub with
  | none => exact ⟨congrArg Answer.hub hhub, hmove⟩
  | some h =>
    obtain ⟨-, y, hy⟩ := Thread.livingHub_eq_some.mp hhub.symm
    cases slot with
    | none =>
      have hback := (lent_release (E := fun _ _ => False) hlent hy (hp.positive h y hy)).and
        (release_after hp ht hmove (hlent.get? hy))
      refine leads_bind.mpr (hback.mono (fun _ r hr => ?_) fun _ _ h => h.1.elim)
      exact ⟨congrArg Answer.hub hhub, hr.2⟩
    | some name =>
      have hput : Move [] p ((q.thread.slots.get? name).toList ++ [])
          {q with thread := {q.thread with slots := q.thread.slots.set name h}} :=
        hmove.trans (.put name (.refl _) (onward_of_names rfl rfl rfl rfl))
      rw [hlent.slots] at hput
      refine leads_bind.mpr (leads_bind.mpr (leads_slot?.mpr
        (leads_bind.mpr (leads_modifyThread.mpr ?_))))
      rw [hlent.slots]
      cases hg : p.thread.slots.get? name with
      | none =>
        rw [hg] at hput
        exact ⟨congrArg Answer.hub hhub, hput⟩
      | some g =>
        rw [hg] at hput
        have hkept := Thread.slot_handle hg
        obtain ⟨x, hx⟩ := hp.toCounted.alive (f := g) (by omega)
        refine (release_after hp ht hput (hlent.get? hx)).mono (fun _ r hr => ?_) fun _ _ h => ?_
        · exact ⟨congrArg Answer.hub hhub, hr⟩
        · -- The handle that was lent is not counted among these.
          obtain ⟨⟨hone, hwaits⟩, hhalt⟩ := h
          have hpositive := hp.positive g x hx
          refine ⟨name, g, x, rfl, hg, hx, ⟨?_, hwaits.task, hwaits.ready, hwaits.untaken⟩, hhalt⟩
          exact Nat.le_antisymm (hone ▸ Nat.le_add_right _ _) hpositive

/-- An operation that asks for the hub answers with the living one. -/
theorem step_finds {slot : Option String} (hp : p.Ordered) (ht : p.thread.Primed)
    (hop : p.thread.Performs op frame rest) (ha : op.action = .hub slot) :
    step.Leads p (fun _ q => ∃ status, q.trace.head? =
        some (.done op.label status (.hub p.thread.livingHub)))
      fun halt _ => ∃ name g x, slot = some name ∧ p.thread.slots.get? name = some g ∧
        p.thread.fibers.get? g = some x ∧ (x.handles = 1 ∧ x.Waits) ∧
        halt = .aborted (.destroyedWhile g .ready) := by
  have htake : Move [] p [] (p.takeUp frame rest) := hp.takeUp hop.code hop.todo
  have hsteady := htake.steady hp.thread.toSteady
  have hprimed := htake.primed hp.thread.toSteady ht
  refine (leads_step hop).mpr ?_
  unfold perform
  rw [ha]
  refine Leads.bind (findHub_leads slot hsteady hprimed) fun a q hq => ?_
  obtain ⟨rfl, hmove⟩ := hq
  exact (answer_heads (hmove.steady hsteady) op.label _).mono (fun _ _ h => h) fun _ _ h => h.elim

/-! ### Letting go -/

/-- With its last handle a fiber goes, the hub too, and its registration stays as it is. -/
theorem release_last_hub (hp : p.thread.Steady n (f :: hand)) (ht : p.thread.Primed)
    (hx : p.thread.fibers.get? f = some x) (hn : x.handles ≤ 1) :
    (release f).Leads p
      (fun _ q => q.thread.fibers.get? f = none ∧ q.thread.hub = p.thread.hub)
      fun halt _ => x.Waits ∧ halt = .aborted (.destroyedWhile f .ready) := by
  have hkeeps := keeps_release (lasting_hub p.thread.hub) f p rfl
  exact ((release_last hp ht hx hn).and hkeeps).mono (fun _ _ h => ⟨h.1.2, h.2⟩) fun _ _ h => h.1

/-! ### Lending -/

/-- Whoever resumes a fiber, all other fibers have as many handles afterwards as before. -/
theorem step_resume_lends {s : String} {y : Fiber} {g : Nat} (hp : p.Ordered)
    (hop : p.thread.Performs op frame rest) (ha : op.action = .resume s)
    (hs : p.thread.slots.get? s = some f) (hg : g ≠ f) (hy : p.thread.fibers.get? g = some y)
    (hq : step p = .ok () q) : ∃ z, q.thread.fibers.get? g = some z ∧ z.handles = y.handles := by
  obtain ⟨x, hx⟩ := hp.slot_alive hs
  obtain ⟨-, -, p₁, c, hground, -, hswitch⟩ := (step_resume_switches hp hop ha hs hx).ok hq
  have hy₁ : p₁.thread.fibers.get? g = some y :=
    hground.fibers g y (Thread.get?_setFiber.trans ((if_neg hg).trans hy))
  by_cases hc : g = c
  · subst hc
    exact ⟨_, hswitch.left hy₁, rfl⟩
  · exact ⟨y, (hswitch.others hg hc).trans hy₁, rfl⟩

end Act

namespace Process
open Act

variable {s : Scenario} {p q : Process} {histories : List (List (Option Nat))} {f n : Nat}

/-! ### Histories -/

/-- **Steps** follow the histories. -/
theorem Enrolled.step (h : p.Enrolled histories) (hp : s.Reaches p) (hq : Act.step p = .ok () q) :
    q.Enrolled (p.enroll q histories) := by
  have hgoes_on (hj : q.joining = p.joining) : q.Enrolled (p.enroll q histories) := by
    have hhub := step_hub hp.lawful.ordered hq hj
    unfold enroll
    rw [hj, if_neg (Nat.lt_irrefl _), if_neg (Nat.lt_irrefl _)]
    cases h with
    | cons hown hothers =>
      refine .cons ?_ (hj ▸ hothers)
      rw [hhub, lastHub_snoc, hown]
  cases hp.proceeds hq with
  | on _ hj => exact hgoes_on hj
  | closes _ hq => exact hgoes_on (by rw [hq])
  | leaves _ _ hj => exact hgoes_on hj
  | starts _ _ hq =>
    subst hq
    unfold enroll
    rw [if_pos (by exact Nat.lt_succ_self _)]
    cases h with
    | cons hown hothers => exact .cons rfl (.cons hown hothers)
  | joins _ hj ht =>
    unfold enroll
    rw [hj, if_neg (by simp), if_pos (by simp)]
    cases h with
    | cons _ hothers =>
      rw [hj, List.map_cons] at hothers
      rw [Enrolled, threads, ht]
      exact hothers

/-- **Runs** follow the histories, too. -/
theorem Enrolled.run (h : p.Enrolled histories) (hp : s.Reaches p) (hrun : p.run n = (none, q)) :
    q.Enrolled (p.registrations n histories) := by
  induction n generalizing p histories with
  | zero =>
    cases hrun
    exact h
  | succ n ih =>
    obtain ⟨r, hr, hrest⟩ := run_uncons hrun
    rw [registrations, hr]
    exact ih (h.step hp hr) (hp.step hr) hrest

/-! ### Being kept -/

/-- A fiber is alive exactly as long as its thread keeps a handle of it, of which the registration
of the hub is none. -/
theorem Reckoned.alive_iff_kept (h : p.Reckoned) {t : Thread} (ht : t ∈ p.everyThread) :
    t.Alive f ↔ t.Keeps f ∨ t.root = some f := by
  rw [← Thread.handlesOf_pos, Thread.Alive, Option.isSome_iff_exists]
  constructor
  · rintro ⟨x, hx⟩
    have hhandles := (h t ht).handles_eq hx
    have hpositive := (h t ht).positive f x hx
    rw [List.count_nil] at hhandles
    omega
  · exact fun hkept => (h t ht).alive (Nat.lt_of_lt_of_le hkept (Nat.le_add_right _ _))

/-- A fiber of which no thread keeps a handle any more has gone in the same step. -/
theorem Reckoned.goes (h : q.Reckoned) (hf : f ∈ p.roster)
    (hgone : ∀ t ∈ q.everyThread, ¬t.Keeps f ∧ t.root ≠ some f) : f ∈ p.goers q := by
  refine List.mem_filter.mpr ⟨hf, decide_eq_true fun hmem => ?_⟩
  obtain ⟨x, t, ht, hx⟩ := mem_roster.mp hmem
  have halive : t.Alive f := Option.isSome_iff_exists.mpr ⟨x, hx⟩
  rcases (h.alive_iff_kept ht).mp halive with hkeeps | hroot
  · exact (hgone t ht).1 hkeeps
  · exact (hgone t ht).2 hroot

/-! ### The living hub -/

/-- A fiber that the executing thread knows of is alive there as long as it has not gone. -/
theorem alive_iff_known (hrun : s.process.run n = (none, p)) (hf : 0 < p.thread.knows f) :
    p.thread.Alive f ↔ f ∉ s.process.destroyed n := by
  have hp : s.Reaches p := ⟨n, hrun⟩
  have hmade := s.lawful.made_run hrun
  have hperm : (s.process.destroyed n ++ p.roster).Perm (List.range p.nextId) :=
    (s.lawful.destroyed_run hrun).trans (hmade ▸ .refl _)
  have hnodup := List.nodup_append'.mp (hperm.nodup_iff.mpr List.nodup_range)
  have here : p.thread ∈ p.everyThread := List.mem_cons_self ..
  have hroster : p.thread.Alive f ↔ f ∈ p.roster := by
    rw [mem_roster, Thread.Alive, Option.isSome_iff_exists]
    constructor
    · rintro ⟨x, hx⟩
      exact ⟨x, has_here hx⟩
    · rintro ⟨x, t, ht, hx⟩
      obtain ⟨rfl, -, -⟩ := hp.known.once.same ht here (Thread.knows_of_fiber hx) hf
      exact ⟨x, hx⟩
  have hmem : f ∈ s.process.destroyed n ∨ f ∈ p.roster := by
    rw [← List.mem_append, hperm.mem_iff, List.mem_range]
    exact (hp.known.once.same here here hf hf).2.2
  rw [hroster]
  exact ⟨fun h hgone => hnodup.2.2 hgone h, fun h => hmem.resolve_left h⟩

/-- The hub is found for as long as it has not gone. -/
theorem livingHub_eq (hrun : s.process.run n = (none, p)) :
    p.thread.livingHub = p.thread.hub.filter (· ∉ s.process.destroyed n) := by
  unfold Thread.livingHub
  cases hhub : p.thread.hub with
  | none => rfl
  | some h =>
    have halive := alive_iff_known hrun (Thread.knows_of_hub hhub)
    simp only [Option.filter_some, halive]

end Process

open Process

/-- What was registered on each of the threads that execute or wait, after the first steps. -/
def Scenario.histories (s : Scenario) (n : Nat) : List (List (Option Nat)) :=
  s.process.registrations n [[]]

/-- What the thread that executes finds for its hub: what was registered there last, for as long as
it has not gone. -/
def Scenario.found (s : Scenario) (n : Nat) : Option Nat :=
  (lastHub ((s.histories n).headD [])).filter (· ∉ s.process.destroyed n)

/-- What there is to say of hubs after so many steps. -/
structure Scenario.HubsFollow (s : Scenario) (n : Nat) (p : Process) : Prop where
  /-- The threads that execute or wait each have the hub that was registered on them last. -/
  registered : p.Enrolled (s.histories n)
  finds : ∃ q, Act.hubFiber p = .ok (s.found n) q
  /-- To ask for the hub is answered with what is found, unless the handle of it is to replace the
  last one of a fiber that has not begun. -/
  asks : ∀ op frame rest slot, p.thread.Performs op frame rest → op.action = .hub slot →
    (∃ q status, Act.step p = .ok () q ∧
      q.trace.head? = some (.done op.label status (.hub (s.found n)))) ∨
    ∃ name g x q, slot = some name ∧ p.thread.slots.get? name = some g ∧
      p.thread.fibers.get? g = some x ∧ (x.handles = 1 ∧ x.Waits) ∧
      Act.step p = .error (.aborted (.destroyedWhile g .ready)) q
  /-- What is found is alive. -/
  alive : ∀ f, s.found n = some f → p.thread.Alive f
  /-- The hub is that of no other thread, and no fiber of any. -/
  apart : ∀ f, p.thread.hub = some f → ∀ t ∈ p.otherThreads, t.hub ≠ some f ∧ ¬t.Alive f
  /-- Being the hub keeps nothing alive. -/
  weak : ∀ t ∈ p.everyThread, ∀ f, t.Alive f ↔ t.Keeps f ∨ t.root = some f
  /-- A fiber that is resumed against the hub, or against the root, takes nothing of it along. -/
  lends : ∀ op frame rest slot f g x q, p.thread.Performs op frame rest →
    op.action = .resume slot → p.thread.slots.get? slot = some f → g ≠ f →
    p.thread.fibers.get? g = some x → Act.step p = .ok () q →
    ∃ y, q.thread.fibers.get? g = some y ∧ y.handles = x.handles
  /-- Once no thread keeps a handle of a fiber, it goes in the same step. -/
  goes : ∀ q, Act.step p = .ok () q → ∀ f ∈ p.roster,
    (∀ t ∈ q.everyThread, ¬t.Keeps f ∧ t.root ≠ some f) → f ∈ p.goers q
  /-- Wherever in a step the last handle of a fiber is given back, the fiber goes at once, or the
  process aborts because it has not begun. It may be registered as it was. -/
  releases : ∀ f hand q, Move [] p (f :: hand) q → ¬q.thread.Keeps f → q.thread.root ≠ some f →
    f ∉ hand →
    (∃ r, Act.release f q = .ok () r ∧ ¬r.thread.Alive f ∧ r.thread.hub = q.thread.hub) ∨
    ∃ x r, q.thread.fibers.get? f = some x ∧ x.Waits ∧
      Act.release f q = .error (.aborted (.destroyedWhile f .ready)) r
  /-- So it does where the last handle is that of its own code, which has come to its end. -/
  ends : ∀ f outcome, p.thread.running.code = .returned (.callback f) outcome →
    p.thread.keptElsewhere f = 0 → ∃ halt q, Act.step p = .error halt q ∧ ¬q.thread.Alive f

/-- **The hub** of a thread is what was registered on it last, for as long as others keep it. -/
theorem Scenario.hubs_follow {s : Scenario} {n : Nat} {p : Process}
    (hrun : s.process.run n = (none, p)) : s.HubsFollow n p := by
  have hp : s.Reaches p := ⟨n, hrun⟩
  have hordered := hp.lawful.ordered
  have hsteady := hordered.thread.toSteady
  have hprimed := hp.primed.thread
  have hfresh : s.process.Enrolled [[]] := .cons rfl .nil
  have henrolled : p.Enrolled (s.histories n) := hfresh.run ⟨0, rfl⟩ hrun
  have hliving : p.thread.livingHub = s.found n := by
    rw [livingHub_eq hrun, henrolled.hub, found]
  exact {
    registered := henrolled
    finds := by
      obtain ⟨hub, q, hq, hhub⟩ := (Act.lent_hubFiber (.refl p)).answers
      exact ⟨q, by rw [hq, hhub.1, hliving]⟩
    asks := fun op frame rest slot hop ha => by
      have hfinds := Act.step_finds hordered hprimed hop ha
      rw [hliving] at hfinds
      cases hq : Act.step p with
      | ok _ q =>
        obtain ⟨status, htrace⟩ := hfinds.ok hq
        exact .inl ⟨q, status, rfl, htrace⟩
      | error halt q =>
        obtain ⟨name, g, x, hslot, hg, hx, hlast, rfl⟩ := hfinds.error hq
        exact .inr ⟨name, g, x, q, hslot, hg, hx, hlast, rfl⟩
    alive := fun f hf => by
      rw [← hliving] at hf
      exact Option.isSome_iff_exists.mpr (Thread.livingHub_eq_some.mp hf).2
    apart := fun f hf t ht => by
      have hknows := hp.known.elsewhere (Thread.knows_of_hub hf) ht
      refine ⟨fun h => ?_, fun h => ?_⟩
      · have := Thread.knows_of_hub h
        omega
      · have := Thread.knows_pos.mpr (.inr h)
        omega
    weak := fun t ht f => hp.reckoned.alive_iff_kept ht
    lends := fun op frame rest slot f g x q hop ha hs hg hx hq =>
      Act.step_resume_lends hordered hop ha hs hg hx hq
    goes := fun q hq f hf => (hp.step hq).reckoned.goes hf
    releases := fun f hand q hmove hkeeps hroot hhand => by
      have hq := hmove.steady hsteady
      have hqprimed := hmove.primed hsteady hprimed
      obtain ⟨x, hx⟩ := hq.toCounted.alive (f := f) (by simp)
      have hone : x.handles ≤ 1 := by
        have hhandles := hq.toCounted.handles_eq hx
        have hnone := mt Thread.handlesOf_pos.mp (not_or.mpr ⟨hkeeps, hroot⟩)
        rw [List.count_cons_self, List.count_eq_zero.mpr hhand] at hhandles
        omega
      have hlast := Act.release_last_hub hq hqprimed hx hone
      cases hr : Act.release f q with
      | ok _ r =>
        obtain ⟨hgone, hhub⟩ := hlast.ok hr
        exact .inl ⟨r, rfl, by simp [Thread.Alive, hgone], hhub⟩
      | error halt r =>
        obtain ⟨hwaits, rfl⟩ := hlast.error hr
        exact .inr ⟨x, r, hx, hwaits, rfl⟩
    ends := fun f outcome hcode hkept => by
      obtain ⟨x, hx, -, hn⟩ := hordered.ending hcode
      have hstep := Act.step_finish_leads hordered hcode hx
      cases hq : Act.step p with
      | ok _ q =>
        have := (hstep.ok hq).1
        omega
      | error halt q =>
        obtain ⟨-, -, hgone⟩ := hstep.error hq
        exact ⟨halt, q, rfl, by simp [Thread.Alive, hgone]⟩ }

/-- A fiber is resumed against the hub, and then the only handle of the hub is dropped. -/
def Scenario.lapse : Scenario where
  program := [
    .on "new" "h" (.create "h" (.inline []) 16384 false none),
    .on "hub" "h" (.setHub "h"),
    .on "resume" "h" (.resume "h"),
    .on "new" "f" (.create "f" (.inline [.on "yield" "f" .yield]) 16384 true none),
    .on "resume" "f" (.resume "f"),
    .on "drop" "h" (.drop "h"),
    .on "found" "h" (.hub none)]

/-- The program is about to drop the hub. -/
def Process.lapsing : Process := (Scenario.lapse.process.run 14).2

/-- The hub has gone. -/
def Process.lapsed : Process := (lapsing.run 1).2

open Process in
/-- The hub is found until it is dropped, and then it is registered but not found. -/
theorem lapse_hubs_follow : Scenario.lapse.process.run 14 = (none, lapsing) ∧
    Scenario.lapse.process.run 15 = (none, lapsed) ∧ Act.step lapsing = .ok () lapsed ∧
    (∃ q, Act.hubFiber lapsing = .ok (some 0) q) ∧ lapsing.thread.Alive 0 ∧
    0 ∈ lapsing.goers lapsed ∧ lapsed.thread.hub = some 0 ∧ ¬lapsed.thread.Alive 0 ∧
    ∃ q, Act.hubFiber lapsed = .ok none q := by
  have hnone : (Scenario.lapse.process.run 14).1 = none := by decide +kernel
  have hrun : Scenario.lapse.process.run 14 = (none, lapsing) := by
    rw [lapsing, ← hnone]
  have hgoing : (lapsing.run 1).1 = none := by decide +kernel
  have hrun' : Scenario.lapse.process.run 15 = (none, lapsed) := by
    rw [run_add hrun 1, lapsed, ← hgoing]
  have hstep : Act.step lapsing = .ok () lapsed := by
    rw [lapsed]
    exact step_of_run hgoing
  have hfollow := Scenario.hubs_follow hrun
  have hfollow' := Scenario.hubs_follow hrun'
  have hfound : Scenario.lapse.found 14 = some 0 := by decide +kernel
  have hlost : Scenario.lapse.found 15 = none := by decide +kernel
  have hhub : lapsed.thread.hub = some 0 := by decide +kernel
  have hgoers : 0 ∈ lapsing.goers lapsed := by decide +kernel
  have hgone : ¬lapsed.thread.Alive 0 := by decide +kernel
  exact ⟨hrun, hrun', hstep, hfound ▸ hfollow.finds, hfollow.alive 0 hfound, hgoers, hhub, hgone,
    hlost ▸ hfollow'.finds⟩

end Fibers
