import Fibers.Proofs.Edit
import Fibers.Proofs.Step

/-! What a step does and records.

A step edits the process, and may record one report: that a script began or ended, or what an
operation answered. The report tells the fiber that is current for the code which records it, and
how many fibers are alive then. Besides, a step may pass to another thread. `Effects` is that
list. -/
namespace Fibers

/-- What an event tells of the process. -/
def Event.status? : Event → Option Status
  | .logged _ => none
  | .began status | .ended status | .done _ status _ => some status

/-- What sort of edits an operation makes. -/
def Action.kind : Action → Process.Kind
  | .create .. => .making
  | .makeStack .. => .keeping
  | .freeStack _ => .freeing
  | _ => .usual

namespace Process

/-- What sort of edits the next step makes. -/
def kind (p : Process) : Kind := p.thread.performs?.elim .usual (·.1.action.kind)

/-- The process with the root of its thread given up, but for the handle that the thread kept. -/
def withdrawn (p : Process) : Process :=
  {p with thread := {p.thread with
    root := none
    current := if p.thread.current = p.thread.root then none else p.thread.current}}

/-- The process is edited, and then one report may be recorded. -/
inductive Records (kind : Kind) (p q : Process) : Prop
  | nothing (h : p.Edited kind q)
  | report {r : Process} {event : Status → Event} (h : p.Edited kind r)
    (hevent : ∀ status, (event status).status? = some status) (hq : q = r.report event)

/-- What a step leaves where it halts. Nothing was reported but that a script ended, which is
recorded before the handles it held go. -/
inductive Parts (kind : Kind) (p : Process) (halt : Halt) (q : Process) : Prop
  | breaks (h : p.Breaks kind halt q)
  | ended {origin : Origin} {held : List Nat}
    (hcode : p.thread.running.code = .leaving origin held .finished)
    (h : (p.report .ended).Breaks kind halt q)
  | withdrawn (h : p.withdrawn.Breaks kind halt q)

/-- What a step does. -/
inductive Effects (kind : Kind) (p q : Process) : Prop
  | edits (h : p.Edited kind q)
  /-- The code that executes may report. -/
  | records (h : p.Records kind q)
    (ho : q.thread.running.code.origin = p.thread.running.code.origin)
  | ended {origin : Origin} {held : List Nat}
    (hcode : p.thread.running.code = .leaving origin held .finished)
    (h : (p.report .ended).Edited kind q)
  | launch {r : Process} {label : Label} {program : List Op} (h : p.Edited kind r)
    (hq : q = {r with
      nextSerial := r.nextSerial + 1
      thread := .start r.nextSerial program
      joining := ⟨r.thread, label⟩ :: r.joining})
  /-- A program is over, and the code that waited for it reports. -/
  | join {r : Process} {joiner : Joiner} {rest : List Joiner} {event : Status → Event}
    (hprogram : p.thread.running.code.origin = .program) (h : p.withdrawn.Edited kind r)
    (hj : r.joining = joiner :: rest) (hevent : ∀ status, (event status).status? = some status)
    (hq : q = Process.report {r with
      thread := joiner.thread, joining := rest, ended := r.thread :: r.ended} event)

/-- What a step reported. -/
inductive Reports (p q : Process) : Prop
  | nothing (h : q.reports = p.reports)
  | ended {origin : Origin} {held : List Nat}
    (hcode : p.thread.running.code = .leaving origin held .finished)
    (h : q.reports = .ended ⟨p.thread.current.getD 0, p.live⟩ :: p.reports)
  /-- The code that executed reports, or, where a program is over, the code that waited for it. -/
  | report {event : Event} (h : q.reports = event :: p.reports)
    (hevent : event.status? = some ⟨q.thread.current.getD 0, q.live⟩)
    (horigin : q.thread.running.code.origin = p.thread.running.code.origin ∨
      p.thread.running.code.origin = .program)

variable {p q r : Process} {kind : Kind} {halt : Halt}

theorem kind_of_performs {op : Op} {frame : Frame} {rest : List Task}
    (h : p.thread.Performs op frame rest) : p.kind = op.action.kind := by
  rw [kind, h.performs?_eq]
  rfl

theorem reports_report {event : Status → Event}
    (h : ∀ status, (event status).status? = some status) :
    (p.report event).reports = event ⟨p.thread.current.getD 0, p.live⟩ :: p.reports := by
  have hstatus := h ⟨p.thread.current.getD 0, p.live⟩
  apply List.filter_cons_of_pos
  cases hevent : event ⟨p.thread.current.getD 0, p.live⟩ <;>
    simp_all [Event.status?, Event.isReport]

theorem Records.before (h : q.Records kind r) (hq : p.Edited kind q) : p.Records kind r := by
  cases h with
  | nothing h => exact .nothing (hq.trans h)
  | report h hevent hr => exact .report (hq.trans h) hevent hr

theorem Records.reports (h : p.Records kind q)
    (ho : q.thread.running.code.origin = p.thread.running.code.origin) : p.Reports q := by
  cases h with
  | nothing h => exact .nothing h.spares.reports
  | @report r event h hevent hq =>
    subst hq
    refine .report ?_ (hevent _) (.inl ho)
    rw [reports_report hevent, h.spares.reports]
    rfl

/-- One thing at most is reported, with the fiber that is current for the code which does. -/
theorem Effects.reports (h : p.Effects kind q) : p.Reports q := by
  cases h with
  | edits h => exact .nothing h.spares.reports
  | records h ho => exact h.reports ho
  | ended hcode h => exact .ended hcode h.spares.reports
  | launch h hq =>
    subst hq
    exact .nothing h.spares.reports
  | join hprogram h _ hevent hq =>
    subst hq
    exact .report ((reports_report hevent).trans (congrArg (_ :: ·) h.spares.reports)) (hevent _)
      (.inr hprogram)

/-- What edits keep, and reports, the giving up of the root, the start of a thread and the return
from one, that steps keep. -/
theorem Effects.keeps {P : Process → Prop} (h : p.Effects kind q) (hp : P p)
    (hedit : ∀ {p q : Process}, P p → p.Edit kind q → P q)
    (hreport : ∀ {p : Process} (event : Status → Event), P p → P (p.report event))
    (hwithdrawn : P p → P p.withdrawn)
    (hlaunch : ∀ {p : Process} (label : Label) (program : List Op), P p → P {p with
      nextSerial := p.nextSerial + 1
      thread := .start p.nextSerial program
      joining := ⟨p.thread, label⟩ :: p.joining})
    (hjoin : ∀ {p : Process} {joiner : Joiner} {rest : List Joiner}, P p →
      p.joining = joiner :: rest → P {p with
        thread := joiner.thread, joining := rest, ended := p.thread :: p.ended}) : P q := by
  have hedited {p q : Process} (hp : P p) (h : p.Edited kind q) : P q := by
    induction h with
    | refl => exact hp
    | tail _ h ih => exact hedit ih h
  cases h with
  | edits h => exact hedited hp h
  | records h =>
    cases h with
    | nothing h => exact hedited hp h
    | report h _ hq => exact hq ▸ hreport _ (hedited hp h)
  | ended _ h => exact hedited (hreport .ended hp) h
  | launch h hq => exact hq ▸ hlaunch _ _ (hedited hp h)
  | join _ h hj _ hq => exact hq ▸ hreport _ (hjoin (hedited (hwithdrawn hp) h) hj)

/-- A step that halts reports nothing but that a script ended. -/
theorem Parts.reports (h : p.Parts kind halt q) : q.reports = p.reports ∨
    ∃ origin held, p.thread.running.code = .leaving origin held .finished ∧
      q.reports = .ended ⟨p.thread.current.getD 0, p.live⟩ :: p.reports := by
  cases h with
  | breaks h => exact .inl h.spares.reports
  | ended hcode h => exact .inr ⟨_, _, hcode, h.spares.reports⟩
  | withdrawn h => exact .inl h.spares.reports

end Process

namespace Act
open Process

variable {kind : Kind} {p p' : Process} {op : Op} {frame : Frame} {rest : List Task} {f : Nat}

theorem breaks_destroyed (f : Nat) : p.Breaks kind (.fault (.destroyed f)) p :=
  ⟨.inl (.refl p), fun _ h => nomatch h⟩

/-- The action only edits, and then may record a report. -/
def Records (kind : Kind) (act : Act Unit) (p : Process) : Prop :=
  act.Leads p (fun _ q => p.Records kind q) (p.Breaks kind)

theorem Edits.records {act : Act Unit} (h : act.Edits kind p) : act.Records kind p :=
  h.mono (fun _ _ hq => .nothing hq) fun _ _ hq => hq

theorem Records.after {α : Type} {act : Act α} {k : α → Act Unit} (h : act.Edits kind p)
    (hk : ∀ a q, p.Edited kind q → (k a).Records kind q) : (act >>= k).Records kind p :=
  Leads.bind h fun a q hq =>
    (hk a q hq).mono (fun _ _ hr => hr.before hq) fun _ _ hr => hr.after hq

/-- A report tells the state of the process, which it leaves as it is. -/
theorem leads_report {event : Status → Event} : (do emit (event (← status)) : Act Unit).Leads p
    (fun _ q => q = p.report event) (p.Breaks kind) := by
  apply Leads.bind ((status_leads.and edits_status).mono (fun _ _ hq => hq.1) fun _ _ hq => hq.2)
  rintro _ q ⟨rfl, rfl⟩
  exact leads_emit.mpr rfl

theorem records_report {event : Status → Event}
    (hevent : ∀ status, (event status).status? = some status) :
    (do emit (event (← status)) : Act Unit).Records kind p :=
  leads_report.mono (fun _ _ hq => .report (.refl p) hevent hq) fun _ _ hq => hq

theorem records_answer (label : Label) (a : Answer) : (answer label a).Records kind p :=
  records_report fun _ => rfl

theorem Edits.answer {act : Act Answer} (h : act.Edits kind p) (label : Label) :
    (do Act.answer label (← act) : Act Unit).Records kind p :=
  .after h fun a _ _ => records_answer label a

theorem edits_deferBody (script : Script) (tasks : List Op → List Task) :
    (do defer (tasks (← bodyOf script)) : Act Unit).Edits kind p := by
  obtain ⟨ops, hops⟩ := bodyOf_read (p := p) script
  exact Edits.read hops (edits_defer _)

theorem edits_slotState? (s : String) : (slotState? s).Edits kind p := by
  unfold slotState?
  apply Edits.read rfl
  cases p.thread.slots.get? s with
  | none => exact .pure _
  | some f => exact edits_fiber fun _ _ => .pure _

theorem records_throughSlot {s : String} {act : Nat → Act Unit} (label : Label)
    (h : ∀ f, (act f).Edits kind p) : (throughSlot s label act).Records kind p := by
  apply leads_bind.mpr (leads_slot?.mpr _)
  cases p.thread.slots.get? s with
  | none => exact records_answer label .absent
  | some f => exact (h f).records

theorem records_perform (op : Op) (h : ∀ script, op.action ≠ .runThread script)
    (hslots : ∀ s f, p.thread.slots.get? s = some f → ∃ x, p.thread.fibers.get? f = some x) :
    (perform op).Records op.action.kind p := by
  unfold perform
  cases ha : op.action with
  | runThread script => exact (h script ha).elim
  | nothing => exact records_answer ..
  | note => exact records_answer ..
  | create => exact (edits_create ..).answer _
  | reset => exact (edits_reset ..).answer _
  | resetInPlace => exact (edits_reset ..).answer _
  | resume s =>
    exact records_throughSlot _ fun f => edits_holding f _ fun _ => edits_resume f
  | yield =>
    exact (edits_yieldCurrent _).records
  | yieldOf s =>
    exact records_throughSlot _ fun f => edits_holding f _ fun _ => edits_yieldFiber f
  | current => exact (edits_findCurrent _).answer _
  | clone => exact (edits_clone ..).answer _
  | drop => exact (edits_drop _).answer _
  | hold => exact (edits_hold _).answer _
  | state s => exact (edits_look s (k := fun _ x => .state x.state)).answer _
  | view s => exact (edits_look s (k := fun f x => .view (x.view f))).answer _
  | inspect s => exact (edits_look s (k := fun f x => .inspection (x.view f))).answer _
  | same => exact (edits_onSlot _ fun _ _ => edits_onSlot _ fun _ _ => .pure _).answer _
  | setHub s =>
    refine (edits_onSlot s fun f hf => edits_setHub fun g hg => ?_).answer _
    cases hg
    exact hslots s f hf
  | clearHub =>
    refine (edits_setHub fun _ h => ?_).answer _
    cases h
  | hub => exact (edits_findHub _).answer _
  | currentId => exact .after edits_status fun _ _ _ => records_answer ..
  | panic => exact (edits_modifyThread rfl rfl rfl rfl rfl id).records
  | add => exact (edits_add ..).answer _
  | install => exact (edits_install _).answer _
  | readEnvironment =>
    refine (leads_bind_ok rfl).mpr ?_
    split <;> exact records_answer ..
  | stackSize => exact .after edits_defaultStackSize fun _ _ _ => records_answer ..
  | setEnvironment =>
    exact .after (edits_modify (.environment _)) fun _ _ _ => records_answer ..
  | makeTally => exact (edits_makeTally ..).answer _
  | readTally => exact (edits_readTally _).answer _
  | makeStack => exact (edits_makeStack ..).answer _
  | freeStack => exact (edits_freeStack _).answer _
  | times count body => exact (edits_deferBody body fun ops => [.again count ops]).records
  | untilTerm s body => exact (edits_deferBody body fun ops => [.untilTerm maxRounds s ops]).records
  | whenState s =>
    exact ((edits_slotState? s).bind fun _ _ _ => edits_deferBody _ Task.ofOps).records

theorem records_answerState (label : Label) (f : Nat) : (answerState label f).Records kind p := by
  refine leads_bind.mpr (leads_fiber_of (fun x _ => ?_) (breaks_destroyed f))
  exact Records.after (edits_release f) fun _ _ _ => records_answer label (.state x.state)

theorem records_carryOut (task : Task) (h : ∀ op, task ≠ .perform op) :
    (carryOut task).Records kind p := by
  cases task with
  | perform op => exact (h op rfl).elim
  | again count body =>
    cases count with
    | zero => exact (Edits.pure _).records
    | succ n => exact (edits_defer _).records
  | untilTerm rounds s body =>
    cases rounds with
    | zero => exact (Edits.pure _).records
    | succ n =>
      refine ((edits_slotState? s).bind fun state _ _ => ?_).records
      split
      · exact .pure _
      · exact .pure _
      · exact edits_defer _
  | resumed label f => exact records_answerState label f
  | yielded label f =>
    cases f with
    | none => exact records_answer label .nothing
    | some f => exact records_answerState label f

theorem records_enter : enter.Records .usual p := by
  apply Records.after edits_currentFiber
  intro f q _
  refine leads_bind.mpr (leads_fiber_of (fun x hx => ?_) (breaks_destroyed f))
  split
  · exact (edits_violate (v := .startedWithoutCallback f) fun _ h => nomatch h).records
  · exact Records.after (edits_setFiber hx (by rfl)) fun _ _ _ =>
      Records.after (edits_modifyThread rfl rfl rfl rfl rfl id) fun _ _ _ =>
        records_report fun _ => rfl

/-! ### Every step -/

/-- The code that executes goes on, and may report. -/
theorem effects_of_moves {act : Act Unit} {hand : List Nat}
    (hmoves : act.Moves hand (fun _ => []) p') (hrecords : act.Records kind p')
    (hp' : p.Edited kind p')
    (ho : p'.thread.running.code.origin = p.thread.running.code.origin) :
    act.Leads p' (fun _ q => p.Effects kind q) (p.Parts kind) :=
  (hmoves.and hrecords).mono
    (fun _ _ ⟨hmove, hq⟩ => .records (hq.before hp') (hmove.origin.trans ho))
    fun _ _ ⟨_, hq⟩ => .breaks (hq.after hp')

theorem effects_of_edits {act : Act Unit} (h : act.Edits kind p') (hp' : p.Edited kind p') :
    act.Leads p' (fun _ q => p.Effects kind q) (p.Parts kind) :=
  (h.after hp').mono (fun _ _ hq => .edits hq) fun _ _ hq => .breaks hq

theorem effects_answer (label : Label) (a : Answer) (hp' : p.Edited kind p')
    (ho : p'.thread.running.code.origin = p.thread.running.code.origin) :
    (answer label a).Leads p' (fun _ q => p.Effects kind q) (p.Parts kind) :=
  have hmoves : (answer label a).Moves [] (fun _ => []) p' := moves_answer label a
  effects_of_moves hmoves (records_answer label a) hp' ho

theorem edited_become (code : Code) : p.Edited kind {p with thread := p.thread.become code} :=
  (Edit.thread (p := p) (t := p.thread.become code) ⟨rfl, rfl, rfl⟩ rfl rfl id).edited

/-- A switch reports nothing but that there is no fiber in the slot. -/
theorem effects_throughSlot {s : String} {act : Nat → Act Unit} (label : Label)
    (hp' : p.Edited kind p')
    (ho : p'.thread.running.code.origin = p.thread.running.code.origin)
    (h : ∀ f, (act f).Edits kind p') :
    (throughSlot s label act).Leads p' (fun _ q => p.Effects kind q) (p.Parts kind) := by
  apply leads_bind.mpr (leads_slot?.mpr _)
  cases p'.thread.slots.get? s with
  | none => exact effects_answer label .absent hp' ho
  | some f => exact effects_of_edits (h f) hp'

/-- A reset leaves the executing code alone. -/
theorem reset_running (s : String) (script : Script) (answerOf : Fiber → Fiber → Answer) :
    (reset s script answerOf).Leads p (fun _ q => q.thread.running = p.thread.running)
      fun _ _ => True := by
  unfold reset onSlot
  apply leads_bind.mpr (leads_slot?.mpr _)
  cases p.thread.slots.get? s with
  | none => rfl
  | some f =>
    obtain ⟨ops, hops⟩ := resolve_read (p := p) script
    refine (leads_bind_ok hops).mpr ?_
    cases ops with
    | none => rfl
    | some callback =>
      refine leads_bind.mpr (leads_fiber_of (fun x hx => ?_) trivial)
      apply Leads.bind ((resetFiber_leads callback hx).mono (fun _ _ h => h) fun _ _ _ => trivial)
      rintro _ q ⟨-, -, hlike, -, -⟩
      exact leads_bind.mpr (leads_fiber_of (fun _ _ => hlike.running) trivial)

theorem effects_reset {s : String} {script : Script} {answerOf : Fiber → Fiber → Answer}
    (label : Label) (hp' : p.Edited kind p')
    (ho : p'.thread.running.code.origin = p.thread.running.code.origin) :
    (do answer label (← reset s script answerOf) : Act Unit).Leads p'
      (fun _ q => p.Effects kind q) (p.Parts kind) := by
  apply Leads.bind (((edits_reset s script answerOf).and (reset_running ..)).mono
    (fun _ _ h => h) fun _ _ h => .breaks (h.1.after hp'))
  rintro a q ⟨hedited, hrunning⟩
  exact effects_answer label a (hp'.trans hedited) (by rw [hrunning, ho])

theorem step_perform_effects (hp : p.Ordered) (hop : p.thread.Performs op frame rest) :
    step.Leads p (fun _ q => p.Effects op.action.kind q) (p.Parts op.action.kind) := by
  have htake {kind : Kind} : p.Edited kind (p.takeUp frame rest) := edited_become _
  have ho : (p.takeUp frame rest).thread.running.code.origin = p.thread.running.code.origin := by
    rw [hop.code]
    rfl
  rw [leads_step hop]
  cases ha : op.action with
  | resume s =>
    rw [perform_resume ha]
    exact effects_throughSlot _ htake ho fun f => edits_holding f _ fun _ => edits_resume f
  | yield =>
    rw [perform_yield ha]
    exact effects_of_edits (edits_yieldCurrent _) htake
  | yieldOf s =>
    rw [perform_yieldOf ha]
    exact effects_throughSlot _ htake ho fun f => edits_holding f _ fun _ => edits_yieldFiber f
  | reset =>
    unfold perform
    rw [ha]
    exact effects_reset _ htake ho
  | resetInPlace =>
    unfold perform
    rw [ha]
    exact effects_reset _ htake ho
  | runThread script =>
    obtain ⟨ops, hops⟩ := resolve_read (p := p.takeUp frame rest) script
    unfold perform
    rw [ha]
    refine (leads_bind_ok hops).mpr ?_
    cases ops with
    | none => exact effects_answer _ _ htake ho
    | some program => exact .launch htake rfl
  | _ =>
    have hmoves : (perform op).Moves [] (fun _ => []) (p.takeUp frame rest) :=
      moves_perform op (hp.rest_plain hop.code hop.todo) (by rw [ha]; trivial)
    rw [← ha]
    have hslots (s : String) (f : Nat) (hs : (p.takeUp frame rest).thread.slots.get? s = some f) :
        ∃ x, (p.takeUp frame rest).thread.fibers.get? f = some x := hp.slot_alive hs
    exact effects_of_moves hmoves (records_perform op (by simp [ha]) hslots) htake ho

/-- Without its root the thread goes on to give up the handle it kept. -/
theorem releaseRoot_edits : releaseRoot.Leads p (fun _ q => p.withdrawn.Edited kind q)
    (p.withdrawn.Breaks kind) := by
  unfold releaseRoot
  refine leads_bind.mpr (leads_thread.mpr ?_)
  cases hr : p.thread.root with
  | none =>
    have hcurrent : (if p.thread.current = p.thread.root then none else p.thread.current) =
        p.thread.current := by
      rw [hr]
      split
      · next hc => exact hc.symm
      · rfl
    have hsame : p.withdrawn = p := by
      rw [withdrawn, hcurrent, ← hr]
    rw [hsame]
    exact Edited.refl p
  | some root =>
    refine leads_bind.mpr (leads_modifyThread.mpr ?_)
    have hrelease : (release root).Edits kind p.withdrawn := edits_release root
    unfold withdrawn at hrelease ⊢
    rw [hr] at hrelease ⊢
    exact hrelease

theorem endThread_effects (outcome : Outcome) (hp : p.Ordered)
    (hprogram : p.thread.running.code.origin = .program) :
    (endThread outcome).Leads p (fun _ q => p.Effects kind q) (p.Parts kind) := by
  unfold endThread
  refine leads_bind.mpr (leads_get.mpr ?_)
  cases hj : p.joining with
  | nil =>
    have hend (halt : Halt) (h : ∀ error, halt ≠ .aborted (.noStack error)) :
        p.Parts kind halt p := .breaks ⟨.inl (.refl p), fun error he => (h error he).elim⟩
    cases outcome with
    | finished =>
      apply Leads.bind ((status_leads.and edits_status).mono (fun _ _ hq => hq.1)
        fun _ _ hq => .breaks hq.2)
      rintro _ q ⟨-, rfl⟩
      exact hend _ fun _ h => nomatch h
    | panicked => exact hend _ fun _ h => nomatch h
  | cons joiner rest =>
    apply Leads.bind (releaseRoot_edits.mono (fun _ _ h => h) fun _ _ h => .withdrawn h)
    intro _ p₁ hp₁
    have hwaiting : joiner.thread.Steady p.nextId [] :=
      (hp joiner.thread (List.mem_cons_of_mem _ (by rw [hj]; exact List.mem_cons_self ..))).toSteady
    refine leads_bind.mpr (leads_modify.mpr ?_)
    refine (answer_reports hwaiting ..).mono (fun _ q hq => ?_) fun _ _ hq => hq.elim
    exact .join hprogram hp₁ (hp₁.spares.joining.trans hj) (fun _ => rfl) hq

theorem edits_returnFrom (origin : Origin) (held : List Nat) (outcome : Outcome) :
    (returnFrom origin held outcome).Edits kind p := by
  refine (edits_modifyThread rfl rfl rfl rfl rfl id).bind fun _ _ _ =>
    (edits_releaseAll held).bind fun _ _ _ => ?_
  split
  · exact edits_log rfl
  · exact .pure _

theorem leave_effects {origin : Origin} {held : List Nat} {outcome : Outcome}
    (hcode : p.thread.running.code = .leaving origin held outcome) :
    (leave origin held outcome).Leads p (fun _ q => p.Effects kind q) (p.Parts kind) := by
  rw [leave_eq]
  split
  · next hfin =>
    subst hfin
    apply Leads.bind ((status_leads.and edits_status).mono (fun _ _ hq => hq.1)
      fun _ _ hq => .breaks hq.2)
    rintro _ q ⟨rfl, rfl⟩
    refine leads_bind.mpr (leads_emit.mpr ?_)
    exact (edits_returnFrom origin held .finished).mono (fun _ _ hq => .ended hcode hq)
      fun _ _ hq => .ended hcode hq
  · exact (edits_returnFrom origin held outcome).mono (fun _ _ hq => .edits hq)
      fun _ _ hq => .breaks hq

/-- A step reports one thing at most, with the fiber that is current for the code that does. -/
theorem step_effects (hp : p.Ordered) :
    step.Leads p (fun _ q => p.Effects p.kind q) (p.Parts p.kind) := by
  cases hcode : p.thread.running.code with
  | opening program =>
    unfold step
    rw [leads_bind, leads_thread, hcode]
    have hmove : Move [] p [] {p with
        thread := p.thread.become (.active ⟨.program, [], Task.ofOps program⟩)} := by
      refine .go ?_ (.refl _) (onward_of_names rfl rfl rfl rfl)
      rw [hcode]
      exact Code.follows_opening program
    have hmoves {p : Process} : (do emit (.began (← status)) : Act Unit).Moves [] (fun _ => []) p :=
      moves_status.bind fun _ _ _ => moves_emit _
    exact leads_bind.mpr (leads_modifyThread.mpr (effects_of_moves hmoves
      (records_report fun _ => rfl) (edited_become _) hmove.origin))
  | entry f =>
    unfold step
    rw [leads_bind, leads_thread, hcode]
    have hmoves : enter.Moves [] (fun _ => []) p := moves_enter hcode (hp.thread.starting f hcode)
    rw [show p.kind = .usual by rw [kind, Thread.performs?, hcode]; rfl]
    exact effects_of_moves hmoves records_enter (.refl p) rfl
  | active frame =>
    cases htodo : frame.todo with
    | nil =>
      unfold step
      rw [leads_bind, leads_thread, hcode]
      dsimp only
      rw [htodo]
      exact effects_of_edits (edits_modifyThread rfl rfl rfl rfl rfl id) (.refl p)
    | cons task rest =>
      cases task with
      | perform op =>
        have hop : p.thread.Performs op frame rest := ⟨hcode, htodo⟩
        rw [kind_of_performs hop]
        exact step_perform_effects hp hop
      | _ =>
        rw [leads_task hcode htodo]
        refine effects_of_moves (moves_carryOut _ (hp.rest_plain hcode htodo) ?_)
          (records_carryOut _ ?_) (edited_become _) (by rw [hcode]; rfl)
        · intro _ h
          cases h
        · intro _ h
          cases h
  | leaving origin held outcome =>
    unfold step
    rw [leads_bind, leads_thread, hcode]
    exact leave_effects hcode
  | returned origin outcome =>
    unfold step
    rw [leads_bind, leads_thread, hcode]
    cases origin with
    | program => exact endThread_effects outcome hp (by rw [hcode]; rfl)
    | callback f => exact effects_of_edits (edits_finish f) (.refl p)
  | spent f => exact (hp.thread.awake.spent f hcode).elim

end Act
end Fibers
