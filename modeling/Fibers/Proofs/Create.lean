import Fibers.Proofs.Report

/-! The making of task fibers and of stacks, step by step.

The operation that makes a fiber looks up the script and the allocator, gets one stack, makes the
fiber on it and puts the fiber in a slot; what was there before is given back. `Creates` and
`Fails` say so of the whole step, so that ids, counts and stacks can be read off, and `Supplies`
says the same of the operation that makes a stack for the scripts. -/
namespace Fibers

/-- The allocator that a supply stands for. -/
def Thread.supplier? (t : Thread) : Supply → Option Memory.Allocator
  | .source source => some (.source source)
  | .tally name => (t.tallyNames.get? name).map .tally

theorem Act.allocator?_eq (p : Process) (supply : Supply) :
    Act.allocator? supply p = .ok (p.thread.supplier? supply) p := by
  cases supply <;> rfl

namespace Process

/-- What comes of making a task fiber for a slot. -/
inductive Creates (p : Process) (label : Label) (s : String) (script : Script) (size : Nat)
    (scheduled : Bool) (supply : Option Supply) (q : Process) : Prop
  /-- There is no such script or no such tally. -/
  | absent (hq : q = p.report (.done label · .absent))
  | made {callback : List Op} {allocator : Memory.Allocator} {stack : Memory.Stack}
    {p₁ p₂ : Process} (hcallback : Act.resolve script p = .ok (some callback) p)
    (hallocator : p.thread.supplier? (supply.getD (.source .heap)) = some allocator)
    (hp : p.Makes callback size scheduled allocator stack p₁) (h : p₁.Edited .plain p₂)
    (hs : p₂.thread.slots.get? s = some p.nextId)
    (hq : q = p₂.report (.done label · (.created p.nextId .ready stack.size)))

/-- What is left where the making of a task fiber halts. -/
inductive Fails (p : Process) (halt : Halt) (q : Process) : Prop
  | starves (h : p.Starves halt q)
  | breaks (h : p.Breaks .plain halt q)
  /-- The fiber was made, and the one that it replaced may not go. -/
  | replacing {callback : List Op} {size : Nat} {scheduled : Bool} {allocator : Memory.Allocator}
    {stack : Memory.Stack} {p₁ : Process} (hp : p.Makes callback size scheduled allocator stack p₁)
    (h : p₁.Breaks .plain halt q)

/-- The fiber that was made is there, in its first state. -/
theorem Makes.fiber {p q : Process} {callback : List Op} {size : Nat} {scheduled : Bool}
    {allocator : Memory.Allocator} {stack : Memory.Stack}
    (h : p.Makes callback size scheduled allocator stack q) :
    ∃ x, q.thread.fibers.get? p.nextId = some x ∧ x.state = .ready ∧ x.stack = some stack := by
  obtain ⟨hp, hq, -, -⟩ := h
  obtain ⟨stackSize, trace, rfl⟩ := hp.same
  obtain ⟨-, -⟩ := hq
  exact ⟨_, Thread.get?_setFiber.trans (if_pos rfl), rfl, rfl⟩

/-- A stack in hand is kept under a name, and the one that was there is given back. -/
inductive Keeps (p : Process) (name : String) (stack : Memory.Stack) (q : Process) : Prop
  | fresh (hname : p.thread.kept.get? name = none)
    (hq : q = {p with thread := {p.thread with kept := p.thread.kept.set name stack}})
  | replaced {other : Memory.Stack} (hname : p.thread.kept.get? name = some other)
    (hq : (recover {p with thread := {p.thread with
      kept := p.thread.kept.set name stack}} other).Edited .plain q)

/-- What comes of making a stack for the scripts. -/
inductive Supplies (p : Process) (label : Label) (name : String) (size : Nat) (supply : Supply)
    (q : Process) : Prop
  /-- There is no such tally. -/
  | absent (hq : q = p.report (.done label · .absent))
  | failed {error : Error} (hq : q = p.report (.done label · (.failed error)))
  | made {stack : Memory.Stack} {p₁ p₂ : Process}
    (hallocator : p.thread.supplier? supply = some stack.allocator) (hsize : stack.size = size)
    (hp : p.Allocates stack p₁) (h : p₁.Keeps name stack p₂)
    (hq : q = p₂.report (.done label · (.stack stack)))

/-- Fibers, stacks and what counts them are as they were. -/
structure Unaltered (p q : Process) : Prop where
  nextId : q.nextId = p.nextId
  live : q.live = p.live
  memory : q.memory = p.memory
  beside : p.thread.Beside q.thread
  joining : q.joining = p.joining
  ended : q.ended = p.ended

/-- Where more than a root may come, an operation is performed. -/
theorem performs_of_kind {p : Process} (h : p.kind ≠ .usual) :
    ∃ op frame rest, p.thread.Performs op frame rest ∧ p.kind = op.action.kind := by
  rw [kind] at h ⊢
  cases hperforms : p.thread.performs? with
  | none =>
    rw [hperforms] at h
    exact (h rfl).elim
  | some e =>
    obtain ⟨op, frame, rest⟩ := e
    exact ⟨op, frame, rest, Thread.performs_of hperforms, rfl⟩

/-- The code is about to make a task fiber. -/
theorem performs_of_making {p : Process} (h : p.kind = .making) :
    ∃ op frame rest s script size scheduled supply, p.thread.Performs op frame rest ∧
      op.action = .create s script size scheduled supply := by
  obtain ⟨op, frame, rest, hop, hkind⟩ := performs_of_kind (p := p) (by simp [h])
  rw [h] at hkind
  cases ha : op.action with
  | create s script size scheduled supply =>
    exact ⟨op, frame, rest, s, script, size, scheduled, supply, hop, ha⟩
  | _ =>
    rw [ha] at hkind
    cases hkind

/-- The code is about to make a stack of the scripts' own. -/
theorem performs_of_keeping {p : Process} (h : p.kind = .keeping) :
    ∃ op frame rest name size supply, p.thread.Performs op frame rest ∧
      op.action = .makeStack name size supply := by
  obtain ⟨op, frame, rest, hop, hkind⟩ := performs_of_kind (p := p) (by simp [h])
  rw [h] at hkind
  cases ha : op.action with
  | makeStack name size supply => exact ⟨op, frame, rest, name, size, supply, hop, ha⟩
  | _ =>
    rw [ha] at hkind
    cases hkind

end Process

namespace Act
open Process

variable {p : Process} {op : Op} {frame : Frame} {rest : List Task} {s : String}

/-- A fiber that goes leaves the slots alone. -/
theorem release_slots (f : Nat) : (release f).Leads p
    (fun _ q => q.thread.slots = p.thread.slots) fun _ _ => True := by
  unfold release
  refine leads_bind.mpr (leads_fiber_of (fun x _ => ?_) trivial)
  split
  · unfold destroy bury lose
    refine leads_bind.mpr (leads_log.mpr (leads_bind.mpr (leads_modify.mpr ?_)))
    split
    · refine leads_bind.mpr (leads_ensure.mpr ⟨fun _ => ?_, fun _ => trivial⟩)
      simp only [leads_bind, leads_modifyThread]
      exact (asides_releaseStack _).mono (fun _ _ hq => leads_log.mpr hq.like.slots)
        fun _ _ _ => trivial
    · refine leads_bind.mpr (leads_ensure.mpr ⟨fun _ => ?_, fun _ => trivial⟩)
      refine leads_bind.mpr (leads_ensure.mpr ⟨fun _ => ?_, fun _ => trivial⟩)
      exact leads_bind.mpr (leads_modifyThread.mpr (leads_modifyThread.mpr rfl))
  · exact leads_setFiber.mpr rfl

theorem putSlot_leads (s : String) (f : Nat) : (putSlot s f).Leads p
    (fun _ q => p.Edited .plain q ∧ q.thread.slots.get? s = some f) (p.Breaks .plain) := by
  have hslot : (putSlot s f).Leads p (fun _ q => q.thread.slots.get? s = some f)
      fun _ _ => True := by
    have hset : (p.thread.slots.set s f).get? s = some f := (Table.get?_set ..).trans (if_pos rfl)
    unfold putSlot
    refine leads_bind.mpr (leads_slot?.mpr (leads_bind.mpr (leads_modifyThread.mpr ?_)))
    cases p.thread.slots.get? s with
    | none => exact hset
    | some g => exact (release_slots g).mono (fun _ q hq => hq ▸ hset) fun _ _ h => h
  exact ((edits_putSlot s f).and hslot).mono (fun _ _ h => h) fun _ _ h => h.1

theorem create_leads (label : Label) (s : String) (script : Script) (size : Nat)
    (scheduled : Bool) (supply : Option Supply) :
    (do answer label (← create s script size scheduled supply) : Act Unit).Leads p
      (fun _ q => p.Creates label s script size scheduled supply q) p.Fails := by
  have habsent : (do answer label (← (return .absent)) : Act Unit).Leads p
      (fun _ q => p.Creates label s script size scheduled supply q) p.Fails :=
    leads_report.mono (fun _ _ hq => .absent hq) fun _ _ hq => .breaks hq
  obtain ⟨ops, hops⟩ := resolve_read (p := p) script
  have hread := allocator?_eq p (supply.getD (.source .heap))
  unfold create
  rw [bind_assoc]
  refine (leads_bind_ok hops).mpr ?_
  cases ops with
  | none => exact habsent
  | some callback =>
    dsimp only
    rw [bind_assoc]
    refine (leads_bind_ok hread).mpr ?_
    cases hallocator : p.thread.supplier? (supply.getD (.source .heap)) with
    | none => exact habsent
    | some allocator =>
      dsimp only
      simp only [bind_assoc]
      refine Leads.bind ((createFiber_leads callback size scheduled allocator).mono
        (fun _ _ h => h) fun _ _ h => .starves h) fun f p₁ hmade => ?_
      obtain ⟨rfl, stack, hmakes⟩ := hmade
      obtain ⟨x, hx, hready, hstack⟩ := hmakes.fiber
      refine leads_bind.mpr ((leads_fiber hx).mpr ?_)
      rw [hready, hstack]
      refine Leads.bind ((putSlot_leads s p.nextId).mono (fun _ _ h => h)
        fun _ _ h => .replacing hmakes h) fun _ p₂ hp₂ => ?_
      exact leads_report.mono (fun _ _ hq => .made hops hallocator hmakes hp₂.1 hp₂.2 hq)
        fun _ _ hq => .replacing hmakes (hq.after hp₂.1)

/-- The step that makes a task fiber. -/
theorem step_create_leads {script : Script} {size : Nat} {scheduled : Bool}
    {supply : Option Supply} (hop : p.thread.Performs op frame rest)
    (ha : op.action = .create s script size scheduled supply) :
    step.Leads p
      (fun _ q => (p.takeUp frame rest).Creates op.label s script size scheduled supply q)
      (p.takeUp frame rest).Fails := by
  rw [leads_step hop]
  unfold perform
  rw [ha]
  exact create_leads ..

theorem makeStack_leads (label : Label) (name : String) (size : Nat) (supply : Supply) :
    (do answer label (← makeStack name size supply) : Act Unit).Leads p
      (fun _ q => p.Supplies label name size supply q) (p.Breaks .keeping) := by
  have hreport (a : Answer) {q : Process} {P : Process → Prop} (hq : p.Edited .keeping q)
      (h : P (q.report (.done label · a))) :
      (answer label a).Leads q (fun _ q => P q) (p.Breaks .keeping) :=
    leads_report.mono (fun _ _ hq => hq ▸ h) fun _ _ h => h.after hq
  unfold makeStack
  rw [bind_assoc]
  refine (leads_bind_ok (allocator?_eq p supply)).mpr ?_
  cases hallocator : p.thread.supplier? supply with
  | none => exact hreport .absent (.refl p) (.absent rfl)
  | some allocator =>
    dsimp only
    rw [bind_assoc]
    apply Leads.bind (allocateStack_leads allocator size)
    intro result p₁ hp
    cases result with
    | error error =>
      obtain rfl : p₁ = p := hp
      exact hreport (.failed error) (.refl _) (.failed rfl)
    | ok stack =>
      obtain ⟨hp, rfl, hsize⟩ := hp
      simp only [bind_assoc]
      refine (leads_bind_ok rfl).mpr (leads_bind.mpr (leads_modifyThread.mpr ?_))
      cases hname : p₁.thread.kept.get? name with
      | none =>
        exact hreport (.stack stack) (Edit.keep rfl hp hname).edited
          (.made hallocator hsize hp (.fresh hname rfl) rfl)
      | some other =>
        dsimp only
        refine leads_bind.mpr (Leads.bind
          (((releaseStack_recovers .plain other (E := fun _ _ => False)).and
            (releaseStack_recovers .keeping other (E := fun _ _ => False))).mono (fun _ _ h => h)
            fun _ _ h => h.2.elim)
          fun _ p₂ hp₂ => ?_)
        exact hreport (.stack stack) ((Edit.replace rfl hp hname).edited.trans hp₂.2)
          (.made hallocator hsize hp (.replaced hname hp₂.1) rfl)

/-- The step that makes a stack for the scripts. -/
theorem step_makeStack_leads {name : String} {size : Nat} {supply : Supply}
    (hop : p.thread.Performs op frame rest) (ha : op.action = .makeStack name size supply) :
    step.Leads p (fun _ q => (p.takeUp frame rest).Supplies op.label name size supply q)
      ((p.takeUp frame rest).Breaks .keeping) := by
  rw [leads_step hop]
  unfold perform
  rw [ha]
  exact makeStack_leads ..

/-- Where there is no stack for a task fiber, nothing has come of making one. -/
theorem step_starved {q : Process} {error : Error} (hordered : p.Ordered)
    (hq : step p = .error (.aborted (.noStack error)) q) : p.Unaltered q := by
  have hk : p.kind = .making := by
    cases (step_effects hordered).error hq with
    | breaks h => exact h.starved error rfl
    | ended _ h => exact h.starved error rfl
    | withdrawn h => exact h.starved error rfl
  obtain ⟨op, frame, rest, s, script, size, scheduled, supply, hop, ha⟩ := performs_of_making hk
  cases (step_create_leads hop ha).error hq with
  | starves h =>
    obtain ⟨⟨⟨stackSize, trace, rfl⟩, -⟩⟩ := h
    exact ⟨rfl, rfl, rfl, ⟨rfl, rfl, rfl⟩, rfl, rfl⟩
  | breaks h => exact Kind.noConfusion (h.starved error rfl)
  | replacing _ h => exact Kind.noConfusion (h.starved error rfl)

end Act
end Fibers
