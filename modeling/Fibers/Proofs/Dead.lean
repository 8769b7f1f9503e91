import Fibers.Proofs.Reach

/-! Dead contexts.

A context may be continued while it executes, rests in a ready fiber, or rests in the root.
One that rests in a task fiber which is running or has terminated is dead: no change makes
such a context continuable again, because every way to make its fiber ready puts another
context in its place. -/
namespace Fibers

namespace Thread

/-- The context rests in a ready fiber or in the root. -/
def Offers (t : Thread) (k : Context) : Prop :=
  ∃ f x, t.fibers.get? f = some x ∧ (x.state = .ready ∨ x.stack = none) ∧ x.context = some k

/-- The context rests in a task fiber that is running or has terminated. -/
def Parks (t : Thread) (k : Context) : Prop :=
  ∃ f x, t.fibers.get? f = some x ∧ x.stack ≠ none ∧ x.state ≠ .ready ∧ x.context = some k

/-- A context with this serial number may be continued on the thread, or is. -/
def Continuable (t : Thread) (s : Nat) : Prop :=
  t.running.serial = s ∨ ∃ k, t.Offers k ∧ k.serial = s

end Thread

namespace Process

def Continuable (p : Process) (s : Nat) : Prop := ∃ t ∈ p.everyThread, t.Continuable s

def Dead (p : Process) (k : Context) : Prop := ∃ t ∈ p.everyThread, t.Parks k

/-- However the process goes on, no thread executes in the context. -/
def NeverContinued (p : Process) (k : Context) : Prop :=
  ∀ n q, p.run n = (none, q) → ∀ t ∈ q.everyThread, t.running.serial ≠ k.serial

/-- What may be continued afterwards could be before, or is new. -/
structure Revives (p q : Process) : Prop where
  nextSerial : p.nextSerial ≤ q.nextSerial
  continuable : ∀ s, q.Continuable s → p.Continuable s ∨ p.nextSerial ≤ s

variable {p q r : Process} {source home : Nat} {state : State} {k : Context}

theorem Revives.trans (h : p.Revives q) (h' : q.Revives r) : p.Revives r where
  nextSerial := Nat.le_trans h.nextSerial h'.nextSerial
  continuable s hs := by
    rcases h'.continuable s hs with hs | hs
    · exact h.continuable s hs
    · exact .inr (Nat.le_trans h.nextSerial hs)

theorem Revives.of_thread (hq : p.Onward q)
    (h : ∀ s, q.thread.Continuable s → p.thread.Continuable s ∨ p.nextSerial ≤ s) :
    p.Revives q where
  nextSerial := hq.nextSerial
  continuable s := by
    rintro ⟨t, ht, hs⟩
    rcases List.mem_cons.mp ht with rfl | ht
    · exact (h s hs).imp_left fun hs => ⟨p.thread, List.mem_cons_self .., hs⟩
    · rw [hq.joining, hq.ended] at ht
      exact .inl ⟨t, List.mem_cons_of_mem _ ht, hs⟩

theorem Calm.revives (h : p.Calm q) : p.Revives q := by
  refine .of_thread h.onward fun s hs => ?_
  rcases hs with hs | ⟨k, ⟨f, y, hy, hopen, hk⟩, hs⟩
  · exact .inl (.inl (h.serial.symm.trans hs))
  · rcases h.fibers f y hy with ⟨x, hx, hstate, hstack, hcontext⟩ | hm
    · rw [hstate, hstack] at hopen
      exact .inl (.inr ⟨k, ⟨f, x, hx, hopen, hcontext ▸ hk⟩, hs⟩)
    · exact .inr (hs ▸ (hm.context k hk).1)

theorem Switch.revives {x : Fiber} (h : p.Switch source home state q)
    (hx : p.thread.fibers.get? source = some x) (hopen : x.state = .ready ∨ x.stack = none) :
    p.Revives q := by
  obtain ⟨hx', hy, hne, ht, like, -, onward⟩ := h
  rw [hx] at hx'
  cases hx'
  refine .of_thread onward fun s hs => ?_
  rcases hs with hs | ⟨k, ⟨f, z, hz, hopen', hk⟩, hs⟩
  · rw [like.running] at hs
    exact .inl (.inr ⟨_, ⟨source, x, hx, hopen, ht⟩, hs⟩)
  · rw [like.fibers] at hz
    obtain ⟨rfl, rfl⟩ | ⟨rfl, rfl⟩ | ⟨-, -, hz⟩ := Thread.switch_cases hz
    · cases hk
      exact .inr (Nat.le_of_eq hs)
    · cases hk
    · exact .inl (.inr ⟨k, ⟨f, z, hz, hopen', hk⟩, hs⟩)

theorem terminate_revives {f : Nat} {x : Fiber} (hx : p.thread.fibers.get? f = some x)
    (like : (p.thread.terminate f x).Like q.thread) (hq : p.Onward q) : p.Revives q := by
  refine .of_thread hq fun s hs => .inl ?_
  rcases hs with hs | ⟨k, ⟨g, y, hy, hopen, hk⟩, hs⟩
  · rw [like.running] at hs
    exact .inl hs
  · rw [like.fibers] at hy
    obtain ⟨rfl, rfl⟩ | ⟨-, hy⟩ := Table.set_cases hy
    · exact .inr ⟨k, ⟨g, x, hx, .inr (hopen.resolve_left fun h => by cases h), hk⟩, hs⟩
    · exact .inr ⟨k, ⟨g, y, hy, hopen, hk⟩, hs⟩

theorem renew_revives {f : Nat} {x : Fiber} {callback : List Op}
    (like : (p.thread.renew f x p.nextSerial callback).Like q.thread) (hq : p.Onward q) :
    p.Revives q := by
  refine .of_thread hq fun s hs => ?_
  rcases hs with hs | ⟨k, ⟨g, y, hy, hopen, hk⟩, hs⟩
  · rw [like.running] at hs
    exact .inl (.inl hs)
  · rw [like.fibers] at hy
    obtain ⟨rfl, rfl⟩ | ⟨-, hy⟩ := Table.set_cases hy
    · cases hk
      exact .inr (Nat.le_of_eq hs)
    · exact .inl (.inr ⟨k, ⟨g, y, hy, hopen, hk⟩, hs⟩)

theorem Change.revives (h : p.Change q) : p.Revives q := by
  induction h with
  | calm h => exact h.revives
  | switch hx hopen h => exact h.revives hx hopen
  | terminate hx ht hq => exact terminate_revives hx ht hq
  | renew hx ht _ hq => exact renew_revives ht hq
  | @launch p q label program ht hserial hid hj he =>
    refine ⟨by omega, fun s => ?_⟩
    rintro ⟨t, hmem, hs⟩
    rcases List.mem_cons.mp hmem with rfl | hmem
    · rw [ht] at hs
      rcases hs with hs | ⟨_, ⟨_, _, hx, -⟩, -⟩
      · exact .inr (Nat.le_of_eq hs)
      · cases hx
    · rw [hj, he] at hmem
      exact .inl ⟨t, hmem, hs⟩
  | @join p q joiner rest hj ht hj' he hid hserial =>
    refine ⟨Nat.le_of_eq hserial.symm, fun s => ?_⟩
    rintro ⟨t, hmem, hs⟩
    exact .inl ⟨t, (mem_everyThread_join hj ht hj' he).mp hmem, hs⟩
  | trans _ _ ih ih' => exact ih.trans ih'

/-! ### The dead stay dead -/

theorem numbered_eq (t : Thread) (s : Nat) : t.numbered s = [t.running.serial].count s +
    t.fibers.total (Fiber.weigh fun k => [k.serial].count s) +
    (t.lost.map fun k => [k.serial].count s).sum := rfl

/-- The serial number of a context that rests somewhere is its own. -/
theorem numbered_resting {t : Thread} {f : Nat} {x : Fiber} (hx : t.fibers.get? f = some x)
    (hk : x.context = some k) : 0 < t.numbered k.serial := by
  have := Table.le_total (Fiber.weigh fun k' => [k'.serial].count k.serial) hx
  rw [Fiber.weigh, hk, Option.elim_some, List.count_singleton_self] at this
  rw [numbered_eq]
  omega

theorem numbered_continuable {t : Thread} {s : Nat} (h : t.Continuable s) : 0 < t.numbered s := by
  rcases h with rfl | ⟨k, ⟨f, x, hx, -, hk⟩, rfl⟩
  · rw [numbered_eq, List.count_singleton_self]
    omega
  · exact numbered_resting hx hk

/-- A dead context may not be continued, and its serial number is taken. -/
theorem Lawful.dead (h : p.Lawful) (hk : p.Dead k) :
    ¬p.Continuable k.serial ∧ k.serial < p.nextSerial := by
  obtain ⟨t, ht, f, x, hx, hstack, hstate, hk⟩ := hk
  have hown := numbered_resting hx hk
  refine ⟨fun ⟨u, hu, hc⟩ => ?_, (h.serials.same ht ht hown hown).2.2⟩
  -- The context that may be continued would be a second one with this number.
  obtain ⟨rfl, hle, -⟩ := h.serials.same ht hu hown (numbered_continuable hc)
  have hsum := numbered_eq t k.serial
  have hx' : Fiber.weigh (fun k' => [k'.serial].count k.serial) x = 1 := by
    rw [Fiber.weigh, hk, Option.elim_some, List.count_singleton_self]
  rcases hc with hs | ⟨k', ⟨g, y, hy, hopen, hk'⟩, hs⟩
  · have := Table.le_total (Fiber.weigh fun k' => [k'.serial].count k.serial) hx
    rw [hs, List.count_singleton_self] at hsum
    omega
  · have hne : f ≠ g := by
      rintro rfl
      rw [hx] at hy
      cases hy
      exact hopen.elim hstate hstack
    have := Table.add_le_total (Fiber.weigh fun k' => [k'.serial].count k.serial) hx hy hne
    have hy' : Fiber.weigh (fun k' => [k'.serial].count k.serial) y = 1 := by
      rw [Fiber.weigh, hk', Option.elim_some, hs, List.count_singleton_self]
    omega

theorem Lawful.never_continued (h : p.Lawful) (hk : p.Dead k) : p.NeverContinued k := by
  intro n q hrun t ht hs
  have hgone : q.Lawful ∧ ¬q.Continuable k.serial ∧ k.serial < q.nextSerial := by
    refine run_induction (P := fun q => q.Lawful ∧ ¬q.Continuable k.serial ∧
      k.serial < q.nextSerial) (fun p q ⟨hp, hgone, hlt⟩ hstep => ?_) ⟨h, h.dead hk⟩ hrun
    obtain ⟨hturn, hq⟩ := hp.step hstep
    have hrevives := hturn.change.revives
    refine ⟨hq, fun hs => ?_, Nat.lt_of_lt_of_le hlt hrevives.nextSerial⟩
    rcases hrevives.continuable _ hs with hs | hs
    · exact hgone hs
    · omega
  exact hgone.2.1 ⟨t, ht, .inl hs⟩

end Process
end Fibers
