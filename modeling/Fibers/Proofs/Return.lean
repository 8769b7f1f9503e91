import Fibers.Proofs.Dead
import Fibers.Proofs.Edit

/-! Who gets control back.

A callback that switches into another fiber comes to rest in its own fiber, which stays
running, and code that yields a terminated fiber comes to rest there: both are dead at once, and
so is the code of a fiber that has finished. What is left to return from a `resume` is the
program of a thread, with the root current. -/
namespace Fibers
namespace Process

/-- What executes after a step. -/
inductive Continues (p q : Process) : Prop
  | same (h : q.thread.running.serial = p.thread.running.serial)
  /-- A context continues from where it rested. -/
  | offered (h : p.thread.Offers q.thread.running)
  /-- A context begins. -/
  | fresh (h : p.nextSerial ≤ q.thread.running.serial)
  /-- A thread that waited goes on. -/
  | joined {joiner : Joiner} (hj : joiner ∈ p.joining)
    (h : q.thread.running.serial = joiner.thread.running.serial)

/-- From one process to the other the code came to rest where it is never continued. -/
def Abandons (p q : Process) (code : Code) : Prop :=
  ∃ k, k.code = code ∧ p.nextSerial ≤ k.serial ∧ q.Dead k ∧ q.NeverContinued k

variable {p q : Process} {source home f : Nat} {state : State} {x y : Fiber} {k : Context}
  {op : Op} {frame : Frame} {rest : List Task} {label : Label}

theorem Calm.offers (h : p.Calm q) (hk : q.thread.Offers k) :
    p.thread.Offers k ∨ p.nextSerial ≤ k.serial := by
  obtain ⟨f, y, hy, hopen, hk⟩ := hk
  rcases h.fibers f y hy with ⟨x, hx, hstate, hstack, hcontext⟩ | hm
  · rw [hstate, hstack] at hopen
    exact .inl ⟨f, x, hx, hopen, hcontext ▸ hk⟩
  · exact .inr (hm.context k hk).1

/-- A switch continues what rested in its source. -/
theorem Switch.running (h : p.Switch source home state q)
    (hx : p.thread.fibers.get? source = some x) : x.context = some q.thread.running := by
  obtain ⟨hx', -, -, ht, like, -, -⟩ := h
  rw [hx] at hx'
  cases hx'
  rw [like.running]
  exact ht

/-- The executing code comes to rest in the fiber that a switch leaves. -/
theorem Switch.parks (h : p.Switch source home state q)
    (hy : p.thread.fibers.get? home = some y) (hstack : y.stack ≠ none) (hstate : state ≠ .ready) :
    q.thread.Parks ⟨p.nextSerial, p.thread.running.code⟩ :=
  ⟨home, _, h.left hy, hstack, hstate, rfl⟩

/-- No step continues a context that was not at rest, and each continues as it was. -/
theorem Turn.continues (h : p.Turn q) : p.Continues q := by
  cases h with
  | calm h => exact .same h.serial
  | resume _ _ _ h =>
    obtain ⟨hp, -, hx, hready, -, -, -, -, h⟩ := h
    rcases hp.offers ⟨_, _, hx, .inl hready, h.running hx⟩ with hk | hk
    · exact .offered hk
    · exact .fresh hk
  | yield _ _ h =>
    obtain ⟨hp, -, -, -, -, -, hz, hroot, -, h⟩ := h
    rcases hp.offers ⟨_, _, hz, .inr hroot, h.running hz⟩ with hk | hk
    · exact .offered hk
    · exact .fresh hk
  | finish _ h =>
    obtain ⟨-, hstack, -, -, ht, hz, hroot, -, h⟩ := h
    have hk := h.running hz
    rw [ht.fibers] at hz
    obtain ⟨rfl, rfl⟩ | ⟨-, hz⟩ := Table.set_cases hz
    · exact (hstack hroot).elim
    · exact .offered ⟨_, _, hz, .inr hroot, hk⟩
  | reset _ _ _ h =>
    obtain ⟨hp, -, -, -, ht, -, -, hq⟩ := h
    refine .same (hq.serial.trans ?_)
    rw [ht.running]
    exact hp.serial
  | launch hp ht =>
    refine .fresh ?_
    rw [ht]
    exact hp.onward.nextSerial
  | join hp hj ht _ _ _ _ hq =>
    refine .joined (hp.onward.joining ▸ hj ▸ List.mem_cons_self ..) (hq.serial.trans ?_)
    rw [ht]

/-! ### Code that never gets control back -/

theorem Lawful.abandons {serial : Nat} {code : Code} (h : q.Lawful)
    (hk : q.thread.Parks ⟨serial, code⟩) (hnew : p.nextSerial ≤ serial) : p.Abandons q code :=
  have hdead : q.Dead ⟨serial, code⟩ := ⟨q.thread, List.mem_cons_self .., hk⟩
  ⟨_, rfl, hnew, hdead, h.never_continued hdead⟩

/-- A callback that switches into another fiber. -/
theorem Resumed.abandons (h : p.Resumed op frame rest f q) (hq : q.Lawful)
    (ho : frame.origin ≠ .program) :
    p.Abandons q (.active {frame with todo := .resumed op.label f :: rest}) := by
  obtain ⟨hp, hcode, -, -, -, hy, -, hprogram, h⟩ := h
  rw [← hcode]
  have hparks := h.parks hy (fun hn => ho (hprogram.mp hn)) (by simp)
  exact hq.abandons hparks hp.onward.nextSerial

/-- Code that yields a fiber which has terminated. -/
theorem Yielded.abandons {named : Option Nat} (h : p.Yielded op frame rest named f q)
    (hq : q.Lawful) (hbelow : ∀ f x, p.thread.fibers.get? f = some x → f < p.nextId)
    (hx : p.thread.fibers.get? f = some x) (hterm : x.state = .term) :
    p.Abandons q (.active {frame with todo := .yielded op.label named :: rest}) := by
  obtain ⟨hp, hcode, -, hy, hstack, -, -, -, -, h⟩ := h
  rw [← hcode]
  refine hq.abandons (h.parks hy hstack ?_) hp.onward.nextSerial
  rcases hp.fibers f _ hy with ⟨x', hx', hstate, -⟩ | hm
  · rw [hx] at hx'
    cases hx'
    simp [hstate, hterm, State.yielded]
  · have := hbelow f x hx
    have := hm.low
    omega

/-- The code of a fiber that has finished. -/
theorem Finished.abandons (h : p.Finished f q) (hq : q.Lawful) : p.Abandons q (.spent f) := by
  obtain ⟨-, hstack, -, hp, ht, -, -, -, h⟩ := h
  have hspent := congrArg Context.code ht.running
  have hf := (ht.fibers f).trans (Thread.get?_terminate.trans (if_pos rfl))
  rw [show Code.spent f = _ from hspent.symm]
  exact hq.abandons (h.parks hf hstack (by simp)) hp.nextSerial

end Process

namespace Act
open Process

variable {p q : Process} {op : Op} {frame : Frame} {rest : List Task} {label : Label} {s : String}
  {f : Nat}

/-! ### Code that does -/

/-- Code about to return from a `resume` is the thread's program, and the root is current. -/
theorem resumed_program (hp : p.Ordered) (hcode : p.thread.running.code = .active frame)
    (htodo : frame.todo = .resumed label f :: rest) :
    frame.origin = .program ∧ ∃ r, p.thread.root = some r ∧ p.thread.current = some r := by
  have ht := hp.thread
  have hawaited : p.thread.running.code.awaited = some f := by
    obtain ⟨origin, held, todo⟩ := frame
    subst htodo
    rw [hcode]
    rfl
  have hprogram : p.thread.running.code.origin = .program :=
    Decidable.byContradiction fun ho => by
      simp [ht.awake.awaited ho] at hawaited
  have hroot : p.thread.root ≠ none := fun hr => by
    have hclear := ht.clear hr
    rw [hcode] at hclear
    exact hclear (.resumed label f) (by rw [htodo]; exact List.mem_cons_self ..)
  obtain ⟨r, hr⟩ := Option.ne_none_iff_exists'.mp hroot
  refine ⟨?_, r, hr, (ht.program_iff.mp hprogram).trans hr⟩
  rw [hcode] at hprogram
  exact hprogram

/-- Returning from a `resume` answers once, with the state of the fiber and under the root. -/
theorem step_resumed_leads {r : Nat} (hp : p.Ordered)
    (hcode : p.thread.running.code = .active frame)
    (htodo : frame.todo = .resumed label f :: rest) (hr : p.thread.root = some r) :
    step.Leads p
      (fun _ q => q.thread.root = some r ∧ q.thread.current = some r ∧
        ∃ x trace, p.thread.fibers.get? f = some x ∧
          q.trace = .done label ⟨r, q.live⟩ (.state x.state) :: trace ∧
          q.answers = (label, .state x.state) :: p.answers)
      fun _ _ => True := by
  have htake := hp.takeUp hcode htodo
  obtain ⟨hprogram, -⟩ := resumed_program hp hcode htodo
  rw [leads_task hcode htodo]
  refine leads_bind.mpr (leads_fiber_of (fun x hx => ?_) trivial)
  have hrelease : (release f).Moves [f] (fun _ => []) (p.takeUp frame rest) := moves_release f
  have hedits : (release f).Edits .usual (p.takeUp frame rest) := edits_release f
  refine Leads.bind ((hrelease.and hedits).mono (fun _ _ h => h) fun _ _ _ => trivial)
    fun _ q ⟨hq, hedited⟩ => ?_
  -- The thread is in order, and the code is still the program's.
  have hmove : Move [] p [] q := htake.trans hq
  have hroot := hmove.root_kept hp.thread.toSteady hr
  have horigin : q.thread.running.code.origin = .program := by
    rw [hmove.origin, hcode]
    exact hprogram
  have hcurrent : q.thread.current = some r :=
    ((hp.move hmove).thread.program_iff.mp horigin).trans hroot
  refine (answer_leads label (.state x.state)).mono (fun _ q' h => ?_) fun _ _ _ => trivial
  subst h
  refine ⟨hroot, hcurrent, x, q.trace, hx, ?_, congrArg (_ :: ·) hedited.answers⟩
  simp [report, hcurrent]

/-- Performing a `resume` answers nothing, or that there is no fiber in the slot. -/
theorem step_resume_answers (hop : p.thread.Performs op frame rest)
    (ha : op.action = .resume s) (hq : step p = .ok () q) :
    q.answers = p.answers ∨
      p.thread.slots.get? s = none ∧ q.answers = (op.label, .absent) :: p.answers := by
  have h : step.Leads p (fun _ q => q.answers = p.answers ∨
      p.thread.slots.get? s = none ∧ q.answers = (op.label, .absent) :: p.answers)
      fun _ _ => True := by
    rw [leads_step hop, perform_resume ha]
    cases hs : p.thread.slots.get? s with
    | none =>
      refine (leads_throughSlot_none (p := p.takeUp frame rest) hs).mpr ?_
      refine (answer_leads op.label .absent).mono (fun _ q h => .inr ⟨rfl, ?_⟩) fun _ _ _ => trivial
      subst h
      rfl
    | some f =>
      refine (leads_throughSlot (p := p.takeUp frame rest) hs).mpr ?_
      exact (edits_holding f _ fun _ => edits_resume f).mono (fun _ _ h => .inl h.answers)
        fun _ _ _ => trivial
  exact h.ok hq

end Act

/-! ### All runs -/

/-- What it means in a process that a dead context is never continued. -/
structure Process.LeavesDead (p : Process) : Prop where
  /-- A context at rest in a running or terminated task fiber is not continued, now or later. -/
  dead : ∀ k, p.Dead k → p.NeverContinued k
  /-- What a step continues rested where the dead do not. -/
  continues : ∀ q, Act.step p = .ok () q → p.Continues q
  /-- A callback that switches into another fiber never gets control back. -/
  resume : ∀ op frame rest s f q, p.thread.Performs op frame rest → op.action = .resume s →
    p.thread.slots.get? s = some f → frame.origin ≠ .program → Act.step p = .ok () q →
    p.Abandons q (.active {frame with todo := .resumed op.label f :: rest})
  /-- Performing a `resume` does not answer with a state. -/
  silent : ∀ op frame rest s q, p.thread.Performs op frame rest → op.action = .resume s →
    Act.step p = .ok () q → q.answers = p.answers ∨
      p.thread.slots.get? s = none ∧ q.answers = (op.label, .absent) :: p.answers
  /-- Returning from one does; it is the thread's program that returns, with the root current. -/
  resumed : ∀ frame rest label f, p.thread.running.code = .active frame →
    frame.todo = .resumed label f :: rest → frame.origin = .program ∧
      ∃ r, p.thread.root = some r ∧ p.thread.current = some r ∧
        ∀ q, Act.step p = .ok () q → q.thread.root = some r ∧ q.thread.current = some r ∧
          ∃ x trace, p.thread.fibers.get? f = some x ∧
            q.trace = .done label ⟨r, q.live⟩ (.state x.state) :: trace ∧
            q.answers = (label, .state x.state) :: p.answers
  /-- Code that yields a terminated fiber never gets control back. -/
  yieldOf : ∀ op frame rest s f x q, p.thread.Performs op frame rest → op.action = .yieldOf s →
    p.thread.slots.get? s = some f → p.thread.fibers.get? f = some x → x.state = .term →
    Act.step p = .ok () q →
      p.Abandons q (.active {frame with todo := .yielded op.label (some f) :: rest})
  /-- The code of a fiber that has finished is never continued past its end. -/
  finish : ∀ f outcome q, p.thread.running.code = .returned (.callback f) outcome →
    Act.step p = .ok () q → p.Abandons q (.spent f)
  unspent : ∀ t ∈ p.threads, ∀ f, t.running.code ≠ .spent f
  faultless : ∀ halt q f, Act.step p = .error halt q → halt ≠ .fault (.spent f)

open Act in
/-- **Dead contexts.** In every process that a scenario comes to, a context that rests in a
running or terminated task fiber is never continued again, whatever is done from then on. -/
theorem dead_contexts (s : Scenario) {p : Process} (hp : s.Reaches p) : p.LeavesDead := by
  have hlawful := hp.lawful
  have hordered := hlawful.ordered
  exact {
    dead := fun k hk => hlawful.never_continued hk
    continues := fun q hq => (hlawful.step hq).1.continues
    resume := fun op frame rest slot f q hop ha hs ho hq => by
      obtain ⟨x, hx⟩ := hordered.slot_alive hs
      obtain ⟨-, -, h, -⟩ := (step_resume_leads hordered hop ha hs hx).ok hq
      exact h.abandons (hlawful.step hq).2 ho
    silent := fun op frame rest slot q hop ha hq => step_resume_answers hop ha hq
    resumed := fun frame rest label f hcode htodo => by
      obtain ⟨hprogram, r, hr, hc⟩ := resumed_program hordered hcode htodo
      exact ⟨hprogram, r, hr, hc, fun q hq => (step_resumed_leads hordered hcode htodo hr).ok hq⟩
    yieldOf := fun op frame rest slot f x q hop ha hs hx hterm hq => by
      obtain ⟨-, -, -, h, -⟩ := (step_yieldOf_leads hordered hop ha hs hx).ok hq
      exact h.abandons (hlawful.step hq).2 hordered.thread.below hx hterm
    finish := fun f outcome q hcode hq => by
      obtain ⟨x, hx, -⟩ := hordered.thread.toSound.returned hcode
      obtain ⟨-, h, -⟩ := (step_finish_leads hordered hcode hx).ok hq
      exact h.abandons (hlawful.step hq).2
    unspent := fun t ht f => (hordered t ht).awake.spent f
    faultless := fun halt q f hq => (hlawful.halt hq).1 f }

/-- The program resumes `g`, whose callback resumes `k`, which yields to the program. -/
def Scenario.relay : Scenario where
  program := [
    .on "new" "k" (.create "k" (.inline [.mk ⟨"yield", none⟩ .yield]) 16384 false none),
    .on "new" "g" (.create "g" (.inline [.on "resume" "k" (.resume "k")]) 16384 false none),
    .on "resume" "g" (.resume "g")]

/-- The callback of `g` is about to resume `k`. -/
def Process.relaying : Process := (Scenario.relay.process.run 5).2

open Process in
/-- The callback in the middle never gets control back. -/
theorem relay_dead_contexts : Scenario.relay.Reaches relaying ∧
    ∃ op frame rest q, relaying.thread.Performs op frame rest ∧ frame.origin = .callback 1 ∧
      Act.step relaying = .ok () q ∧
      relaying.Abandons q (.active {frame with todo := .resumed op.label 0 :: rest}) := by
  have hp : Scenario.relay.Reaches relaying := Scenario.reaches_run (by decide +kernel)
  have hcode : relaying.thread.performs?.any (fun (op, frame, _) =>
      frame.origin = .callback 1 ∧ op.action.resumes? = some "k") = true := by decide +kernel
  have hslot : relaying.thread.slots.get? "k" = some 0 := by decide +kernel
  have hq : Act.step relaying = .ok () (relaying.run 1).2 := step_of_run (by decide +kernel)
  obtain ⟨⟨op, frame, rest⟩, hperforms, hcheck⟩ := (Option.any_eq_true ..).mp hcode
  obtain ⟨horigin, haction⟩ := of_decide_eq_true hcheck
  have hop := Thread.performs_of hperforms
  have ha := Action.of_resumes? haction
  have ho : frame.origin ≠ .program := by
    simp [horigin]
  exact ⟨hp, op, frame, rest, _, hop, horigin, hq,
    (dead_contexts _ hp).resume op frame rest "k" 0 _ hop ha hslot ho hq⟩

end Fibers
