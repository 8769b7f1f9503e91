import Mathlib
import Fibers.Process.Run

/-! What an action leads to.

`act.Leads p Q E` says what becomes of an action in the process `p`: it answers and
leaves a process as `Q` says, or halts as `E` says. The rules take an action apart
along its binds, down to the primitive ones. -/
namespace Fibers.Act

variable {α β : Type} {p : Process} {Q Q' : α → Process → Prop} {E E' : Halt → Process → Prop}

/-- The action answers and leaves what `Q` says, or halts as `E` says. -/
def Leads (act : Act α) (p : Process) (Q : α → Process → Prop) (E : Halt → Process → Prop) :
    Prop :=
  match act p with
  | .ok a q => Q a q
  | .error halt q => E halt q

theorem Leads.mono {act : Act α} (h : act.Leads p Q E) (hQ : ∀ a q, Q a q → Q' a q)
    (hE : ∀ halt q, E halt q → E' halt q) : act.Leads p Q' E' := by
  unfold Leads at h ⊢
  cases he : act p with
  | ok a q =>
    rw [he] at h
    exact hQ a q h
  | error halt q =>
    rw [he] at h
    exact hE halt q h

theorem Leads.ok {act : Act α} (h : act.Leads p Q E) {a : α} {q : Process} (ha : act p = .ok a q) :
    Q a q := by
  unfold Leads at h
  rwa [ha] at h

theorem Leads.error {act : Act α} (h : act.Leads p Q E) {halt : Halt} {q : Process}
    (ha : act p = .error halt q) : E halt q := by
  unfold Leads at h
  rwa [ha] at h

/-- What cannot halt answers. -/
theorem Leads.answers_of {act : Act α} (h : act.Leads p Q E) (hE : ∀ halt q, ¬E halt q) :
    ∃ a q, act p = .ok a q ∧ Q a q := by
  unfold Leads at h
  cases he : act p with
  | ok a q =>
    rw [he] at h
    exact ⟨a, q, rfl, h⟩
  | error halt q =>
    rw [he] at h
    exact (hE halt q h).elim

theorem Leads.answers {act : Act α} (h : act.Leads p Q fun _ _ => False) :
    ∃ a q, act p = .ok a q ∧ Q a q :=
  h.answers_of fun _ _ => id

theorem Leads.and {act : Act α} (h : act.Leads p Q E) (h' : act.Leads p Q' E') :
    act.Leads p (fun a q => Q a q ∧ Q' a q) (fun halt q => E halt q ∧ E' halt q) := by
  unfold Leads at h h' ⊢
  cases he : act p with
  | ok a q =>
    rw [he] at h h'
    exact ⟨h, h'⟩
  | error halt q =>
    rw [he] at h h'
    exact ⟨h, h'⟩

theorem leads_bind {act : Act α} {k : α → Act β} {Q : β → Process → Prop} :
    (act >>= k).Leads p Q E ↔ act.Leads p (fun a q => (k a).Leads q Q E) E := by
  unfold Leads
  show (match EStateM.bind act k p with
    | .ok a q => Q a q
    | .error halt q => E halt q) ↔ _
  unfold EStateM.bind
  cases act p <;> rfl

/-- What follows an action that answers. -/
theorem leads_bind_ok {act : Act α} {k : α → Act β} {a : α} {q : Process}
    {Q : β → Process → Prop} (h : act p = .ok a q) :
    (act >>= k).Leads p Q E ↔ (k a).Leads q Q E := by
  rw [leads_bind]
  unfold Leads
  rw [h]

theorem Leads.bind {act : Act α} {k : α → Act β} {R : β → Process → Prop} (h : act.Leads p Q E)
    (hk : ∀ a q, Q a q → (k a).Leads q R E) : (act >>= k).Leads p R E :=
  leads_bind.mpr (h.mono hk fun _ _ he => he)

/-- The way on, which may begin with an action more. -/
theorem leads_ite_then {rule : Prop} [Decidable rule] {act : Act Unit} {k : Unit → Act β}
    {I : Process → Prop} {R : β → Process → Prop} (h : act.Leads p (fun _ q => I q) E) (hp : I p)
    (hk : ∀ q, I q → (k ()).Leads q R E) : (if rule then act >>= k else k ()).Leads p R E := by
  split
  · exact h.bind fun _ q hq => hk q hq
  · exact hk p hp

@[simp] theorem leads_pure {a : α} : (pure a : Act α).Leads p Q E ↔ Q a p := Iff.rfl

@[simp] theorem leads_get {Q : Process → Process → Prop} :
    (get : Act Process).Leads p Q E ↔ Q p p := Iff.rfl

@[simp] theorem leads_modify {f : Process → Process} {Q : Unit → Process → Prop} :
    (modify f : Act Unit).Leads p Q E ↔ Q () (f p) := Iff.rfl

@[simp] theorem leads_throw {halt : Halt} : (throw halt : Act α).Leads p Q E ↔ E halt p := Iff.rfl

@[simp] theorem leads_thread {Q : Thread → Process → Prop} :
    thread.Leads p Q E ↔ Q p.thread p := Iff.rfl

@[simp] theorem leads_modifyThread {f : Thread → Thread} {Q : Unit → Process → Prop} :
    (modifyThread f).Leads p Q E ↔ Q () {p with thread := f p.thread} := Iff.rfl

@[simp] theorem leads_emit {event : Event} {Q : Unit → Process → Prop} :
    (emit event).Leads p Q E ↔ Q () {p with trace := event :: p.trace} := Iff.rfl

@[simp] theorem leads_slot? {s : String} {Q : Option Nat → Process → Prop} :
    (slot? s).Leads p Q E ↔ Q (p.thread.slots.get? s) p := Iff.rfl

@[simp] theorem leads_setFiber {f : Nat} {x : Fiber} {Q : Unit → Process → Prop} :
    (setFiber f x).Leads p Q E ↔
      Q () {p with thread := {p.thread with fibers := p.thread.fibers.set f x}} := Iff.rfl

/-- The trace after a record was logged, or left out. -/
def logged (p : Process) (record : Record) : List Event :=
  if record.level ≤ p.level then .logged record :: p.trace else p.trace

@[simp] theorem leads_log {record : Record} {Q : Unit → Process → Prop} :
    (log record).Leads p Q E ↔ Q () {p with trace := logged p record} := by
  unfold log logged
  rw [leads_bind, leads_get]
  split <;> exact Iff.rfl

@[simp] theorem leads_violate {v : Violation} :
    (violate v : Act α).Leads p Q E ↔
      E (.aborted v) {p with trace := logged p (.violated v)} := by
  unfold violate
  rw [leads_bind, leads_log, leads_throw]

theorem leads_ensure {rule : Prop} [Decidable rule] {v : Violation} {Q : Unit → Process → Prop} :
    (ensure rule v).Leads p Q E ↔ (rule → Q () p) ∧
      (¬rule → E (.aborted v) {p with trace := logged p (.violated v)}) := by
  unfold ensure
  by_cases h : rule
  · simp [h]
  · simp [h]

theorem leads_fiber {f : Nat} {x : Fiber} {Q : Fiber → Process → Prop}
    (h : p.thread.fibers.get? f = some x) : (fiber f).Leads p Q E ↔ Q x p := by
  unfold fiber
  rw [leads_bind, leads_thread, h]
  exact Iff.rfl

theorem leads_fiber_none {f : Nat} {Q : Fiber → Process → Prop}
    (h : p.thread.fibers.get? f = none) : (fiber f).Leads p Q E ↔ E (.fault (.destroyed f)) p := by
  unfold fiber
  rw [leads_bind, leads_thread, h]
  exact Iff.rfl

/-- Looking up a fiber that may be gone. -/
theorem leads_fiber_of {f : Nat} {Q : Fiber → Process → Prop}
    (h : ∀ x, p.thread.fibers.get? f = some x → Q x p) (hE : E (.fault (.destroyed f)) p) :
    (fiber f).Leads p Q E := by
  cases hx : p.thread.fibers.get? f with
  | none => exact (leads_fiber_none hx).mpr hE
  | some x => exact (leads_fiber hx).mpr (h x hx)

theorem resolve_read (script : Script) : ∃ ops, resolve script p = .ok ops p := by
  cases script <;> exact ⟨_, rfl⟩

theorem allocator?_read (supply : Supply) : ∃ allocator, allocator? supply p = .ok allocator p := by
  cases supply <;> exact ⟨_, rfl⟩

theorem bodyOf_read (script : Script) : ∃ ops, bodyOf script p = .ok ops p := by
  cases script <;> exact ⟨_, rfl⟩

theorem leads_modifyFiber {f : Nat} {x : Fiber} {g : Fiber → Fiber} {Q : Unit → Process → Prop}
    (h : p.thread.fibers.get? f = some x) : (modifyFiber f g).Leads p Q E ↔
      Q () {p with thread := {p.thread with fibers := p.thread.fibers.set f (g x)}} := by
  unfold modifyFiber
  rw [leads_bind, leads_fiber h, leads_setFiber]

end Fibers.Act
