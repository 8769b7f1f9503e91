import Fibers.Scenario
import Fibers.Proofs.Names
import Fibers.Proofs.Step

/-! What holds in every run.

`Lawful` is what all reachable processes have in common: their threads are in order, and no
serial number and no id has two bearers. Facts about whole runs come from it by
`run_induction`, and every halt is the halt of one step (`run_halts`). -/
namespace Fibers

namespace Process

structure Lawful (p : Process) : Prop where
  ordered : p.Ordered
  serials : Once Thread.numbered nextSerial p
  ids : Once Thread.lives nextId p
  /-- Roots left behind on threads that ended are as they were. -/
  roots : ∀ t ∈ p.ended, ∀ f x, t.fibers.get? f = some x → x.stack = none → x.state = .running

variable {p q : Process} {f : Nat} {x : Fiber}

theorem Calm.root_running (h : p.Calm q)
    (hp : ∀ f x, p.thread.fibers.get? f = some x → x.stack = none → x.state = .running) :
    ∀ f x, q.thread.fibers.get? f = some x → x.stack = none → x.state = .running := by
  intro f y hy hstack
  rcases h.fibers f y hy with ⟨x, hx, hs, hk, -⟩ | hm
  · rw [hs]
    exact hp f x hx (hk ▸ hstack)
  · rw [hm.state, if_pos hstack]

theorem Turn.ended_cases (h : p.Turn q) :
    q.ended = p.ended ∨ ∃ p₁, p.Closed p₁ ∧ q.ended = p₁.thread :: p.ended := by
  cases h with
  | calm h => exact .inl h.onward.ended
  | resume _ _ _ h => exact .inl h.onward.ended
  | yield _ _ h => exact .inl h.onward.ended
  | finish _ h => exact .inl h.onward.ended
  | reset _ _ _ h => exact .inl h.onward.ended
  | launch hp _ _ _ _ he => exact .inl (he.trans hp.onward.ended)
  | @join _ _ p₁ p₂ hp _ _ _ he _ _ hq =>
    refine .inr ⟨p₁, hp, ?_⟩
    rw [hq.onward.ended, he, hp.onward.ended]

/-- What holds of the threads that may go on, and of a thread that ends, holds of all. -/
theorem Turn.everyThread {P : Thread → Prop} (h : p.Turn q) (hp : ∀ t ∈ p.everyThread, P t)
    (hthreads : ∀ t ∈ q.threads, P t) (closed : ∀ r, p.Closed r → P r.thread) :
    ∀ t ∈ q.everyThread, P t := by
  intro t ht
  rcases List.mem_append.mp ht with ht | ht
  · exact hthreads t ht
  rcases h.ended_cases with he | ⟨r, hclosed, he⟩ <;> rw [he] at ht
  · exact hp t (List.mem_append_right _ ht)
  · rcases List.mem_cons.mp ht with rfl | ht
    · exact closed r hclosed
    · exact hp t (List.mem_append_right _ ht)

theorem Lawful.turn (h : p.Lawful) (ht : p.Turn q) (hq : q.Ordered) : q.Lawful where
  ordered := hq
  serials := h.serials.grows ht.change.grows_numbered
  ids := h.ids.grows ht.change.grows_lives
  roots := by
    rcases ht.ended_cases with he | ⟨p₁, hclosed, he⟩ <;> rw [he]
    · exact h.roots
    · intro t hmem
      rcases List.mem_cons.mp hmem with rfl | hmem
      · exact hclosed.root_running h.ordered.thread.running
      · exact h.roots t hmem

/-- What one step does to a lawful process. -/
theorem Lawful.step (h : p.Lawful) (hq : Act.step p = .ok () q) : p.Turn q ∧ q.Lawful :=
  have hs := (Act.step_leads h.ordered).ok hq
  ⟨hs.1, h.turn hs.1 hs.2⟩

theorem Lawful.halt (h : p.Lawful) {halt : Halt} (hq : Act.step p = .error halt q) :
    halt.Fair p :=
  (Act.step_leads h.ordered).error hq

/-! ### Runs -/

variable {n : Nat}

theorem run_succ (hq : Act.step p = .ok () q) : p.run (n + 1) = q.run n := by
  rw [run, hq]

/-- A run that does not halt begins with a step. -/
theorem run_uncons (h : p.run (n + 1) = (none, q)) :
    ∃ r, Act.step p = .ok () r ∧ r.run n = (none, q) := by
  rw [run] at h
  split at h
  · next r hr => exact ⟨r, hr, h⟩
  · cases h

/-- A run that goes on after another. -/
theorem run_add (h : p.run n = (none, q)) (m : Nat) : p.run (n + m) = q.run m := by
  induction n generalizing p with
  | zero =>
    cases h
    rw [Nat.zero_add]
  | succ n ih =>
    rw [run] at h
    split at h
    · next hs => rw [Nat.add_right_comm, run_succ hs, ih h]
    · cases h

theorem step_of_run (h : (p.run 1).1 = none) : Act.step p = .ok () (p.run 1).2 := by
  rw [run] at h ⊢
  split at h
  · next q hq => rw [hq, run]
  · cases h

theorem halt_of_run {halt : Halt} (h : (p.run 1).1 = some halt) :
    Act.step p = .error halt (p.run 1).2 := by
  rw [run] at h ⊢
  split at h
  · cases h
  · next halt' q hq =>
    cases h
    exact hq

/-- What every step from processes of a kind keeps, every run over such processes keeps. -/
theorem run_induction_along {P R : Process → Prop}
    (hstep : ∀ p q, P p → R p → Act.step p = .ok () q → P q) (hp : P p)
    (hR : ∀ m q, m < n → p.run m = (none, q) → R q) (hrun : p.run n = (none, q)) : P q := by
  induction n generalizing p with
  | zero =>
    cases hrun
    exact hp
  | succ n ih =>
    rw [run] at hrun
    split at hrun
    · next p' hs =>
      refine ih (hstep p p' hp (hR 0 p (Nat.succ_pos n) rfl) hs) (fun m q hm hq => ?_) hrun
      exact hR (m + 1) q (Nat.succ_lt_succ hm) ((run_succ hs).trans hq)
    · cases hrun

/-- What every step keeps, every run keeps. -/
theorem run_induction {P : Process → Prop}
    (hstep : ∀ p q, P p → Act.step p = .ok () q → P q) (hp : P p) (hrun : p.run n = (none, q)) :
    P q :=
  run_induction_along (R := fun _ => True) (fun p q hp _ => hstep p q hp) hp
    (fun _ _ _ _ => trivial) hrun

/-- A run that halted came to a step which did. -/
theorem run_halts {halt : Halt} (hrun : p.run n = (some halt, q)) :
    ∃ m p', p.run m = (none, p') ∧ Act.step p' = .error halt q := by
  induction n generalizing p with
  | zero => cases hrun
  | succ n ih =>
    rw [run] at hrun
    split at hrun
    · next p₁ hs =>
      obtain ⟨m, p', hm, hp'⟩ := ih hrun
      exact ⟨m + 1, p', (run_succ hs).trans hm, hp'⟩
    · next hs =>
      cases hrun
      exact ⟨0, p, rfl, hs⟩

theorem Lawful.run (h : p.Lawful) (hrun : p.run n = (none, q)) : q.Lawful :=
  run_induction (fun _ _ hp hs => (hp.step hs).2) h hrun

end Process

theorem Scenario.lawful (s : Scenario) : s.process.Lawful where
  ordered t ht := by
    obtain rfl := List.mem_singleton.mp ht
    exact Thread.orderly_start ..
  serials n := by
    show [0].count n + 0 ≤ if n < 1 then 1 else 0
    cases n <;> simp
  ids _ := Nat.zero_le _
  roots _ h := nomatch h

/-- The processes that a scenario comes to. -/
def Scenario.Reaches (s : Scenario) (p : Process) : Prop := ∃ n, s.process.run n = (none, p)

theorem Scenario.Reaches.run {s : Scenario} {p q : Process} {n : Nat} (h : s.Reaches p)
    (hrun : p.run n = (none, q)) : s.Reaches q := by
  obtain ⟨m, hm⟩ := h
  exact ⟨m + n, (Process.run_add hm n).trans hrun⟩

theorem Scenario.Reaches.step {s : Scenario} {p q : Process} (h : s.Reaches p)
    (hq : Act.step p = .ok () q) : s.Reaches q :=
  h.run (n := 1) (by rw [Process.run_succ hq, Process.run])

theorem Scenario.reaches_run {s : Scenario} {n : Nat} (h : (s.process.run n).1 = none) :
    s.Reaches (s.process.run n).2 := ⟨n, Prod.ext h rfl⟩

/-- An operation on a slot, under its name and the slot's. -/
def Op.on (name slot : String) (action : Action) : Op := .mk ⟨name, some (.text slot)⟩ action

theorem Scenario.Reaches.lawful {s : Scenario} {p : Process} (h : s.Reaches p) : p.Lawful :=
  h.elim fun _ hrun => s.lawful.run hrun

end Fibers
