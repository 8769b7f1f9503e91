import Fibers.Proofs.Turn

/-! Names are given once.

Serial numbers tell contexts apart and ids tell fibers apart, over all the threads of a
process. Both are counted in the same way: a change adds at most one bearer to each name, and
only to names that were not given before (`Grows`). So no name ever has two bearers. -/
namespace Fibers

/-- Whether a fiber is alive on a thread, as a count. -/
def Thread.lives (f : Nat) (t : Thread) : Nat := (t.fibers.get? f).elim 0 fun _ => 1

namespace Process

/-- All threads that may go on and all that ended. -/
def everyThread (p : Process) : List Thread := p.threads ++ p.ended

/-- The sum of a count over all threads. -/
def sum (w : Thread → Nat) (p : Process) : Nat := (p.everyThread.map w).sum

/-- Names below `next` may have one bearer, others none. -/
def Once (w : Nat → Thread → Nat) (next : Process → Nat) (p : Process) : Prop :=
  ∀ s, p.sum (w s) ≤ if s < next p then 1 else 0

/-- New bearers have new names. -/
structure Grows (w : Nat → Thread → Nat) (next : Process → Nat) (p q : Process) : Prop where
  mono : next p ≤ next q
  sum : ∀ s, q.sum (w s) ≤ p.sum (w s) + if next p ≤ s ∧ s < next q then 1 else 0

variable {p q r : Process} {w : Nat → Thread → Nat} {next : Process → Nat} {source home : Nat}
  {state : State}

theorem Grows.trans (h : Grows w next p q) (h' : Grows w next q r) : Grows w next p r where
  mono := Nat.le_trans h.mono h'.mono
  sum s := by
    have h₁ := h.sum s
    have h₂ := h'.sum s
    have := h.mono
    have := h'.mono
    split at h₁ <;> split at h₂ <;> split <;> omega

theorem Once.grows (h : Once w next p) (hq : Grows w next p q) : Once w next q := by
  intro s
  have h₁ := h s
  have h₂ := hq.sum s
  have := hq.mono
  split at h₁ <;> split at h₂ <;> split <;> omega

/-- A name has one bearer over all threads. -/
theorem Once.same {s : Nat} {t u : Thread}
    (h : Once w next p) (ht : t ∈ p.everyThread) (hu : u ∈ p.everyThread) (hwt : 0 < w s t)
    (hwu : 0 < w s u) : t = u ∧ w s t ≤ 1 ∧ s < next p := by
  have hle : p.sum (w s) ≤ 1 ∧ (0 < p.sum (w s) → s < next p) := by
    have := h s
    split at this <;> omega
  obtain ⟨before, after, hsplit⟩ := List.append_of_mem ht
  have hsum : p.sum (w s) = (before.map (w s)).sum + (w s t + (after.map (w s)).sum) := by
    rw [sum, hsplit, List.map_append, List.map_cons, List.sum_append_nat, List.sum_cons]
  have hpart {l : List Thread} (hmem : u ∈ l) : w s u ≤ (l.map (w s)).sum := by
    obtain ⟨before, after, rfl⟩ := List.append_of_mem hmem
    rw [List.map_append, List.map_cons, List.sum_append_nat, List.sum_cons]
    omega
  refine ⟨?_, by omega, hle.2 (by omega)⟩
  rw [hsplit] at hu
  rcases List.mem_append.mp hu with hu | hu
  · have := hpart hu
    omega
  · rcases List.mem_cons.mp hu with rfl | hu
    · rfl
    · have := hpart hu
      omega

/-- Where the executing thread is the same, all threads are. -/
theorem Onward.everyThread (h : p.Onward q) (hsame : q.thread = p.thread) :
    q.everyThread = p.everyThread := by
  simp only [Process.everyThread, Process.threads, hsame, h.joining, h.ended]

/-- No thread is lost when one ends and the one that waited goes on. -/
theorem mem_everyThread_join {joiner : Joiner} {rest : List Joiner} {t : Thread}
    (hj : p.joining = joiner :: rest) (ht : q.thread = joiner.thread) (hj' : q.joining = rest)
    (he : q.ended = p.thread :: p.ended) : t ∈ q.everyThread ↔ t ∈ p.everyThread := by
  simp only [everyThread, threads, hj, ht, hj', he, List.map_cons, List.cons_append, List.mem_cons,
    List.mem_append]
  grind

theorem sum_eq (w : Thread → Nat) (p : Process) :
    p.sum w = w p.thread + ((p.joining.map Joiner.thread ++ p.ended).map w).sum := rfl

/-- What happens on the executing thread alone. -/
theorem Grows.of_thread (hq : p.Onward q) (hnext : next p ≤ next q)
    (h : ∀ s, w s q.thread ≤ w s p.thread + if next p ≤ s ∧ s < next q then 1 else 0) :
    Grows w next p q where
  mono := hnext
  sum s := by
    have := h s
    rw [sum_eq, sum_eq, hq.joining, hq.ended]
    omega

/-! ### Serial numbers -/

theorem Calm.grows_numbered (h : p.Calm q) : Grows Thread.numbered nextSerial p q :=
  .of_thread h.onward h.onward.nextSerial h.numbered

theorem Switch.grows_numbered (h : p.Switch source home state q) :
    Grows Thread.numbered nextSerial p q := by
  obtain ⟨hx, hy, hne, ht, like, serial, onward⟩ := h
  refine .of_thread onward onward.nextSerial fun s => ?_
  have hw := Thread.weigh_switch (fun k => [k.serial].count s) state p.nextSerial hx hy hne ht
  have hrange := count_le_range (s := s) (show p.nextSerial ≤ p.nextSerial ∧
    p.nextSerial < q.nextSerial by omega)
  unfold Thread.numbered
  rw [like.weigh]
  simp only at hw
  omega

theorem terminate_grows_numbered {f : Nat} {x : Fiber} (hx : p.thread.fibers.get? f = some x)
    (like : (p.thread.terminate f x).Like q.thread) (hq : p.Onward q) :
    Grows Thread.numbered nextSerial p q := by
  refine .of_thread hq hq.nextSerial fun s => ?_
  have hw := Thread.weigh_terminate (fun k => [k.serial].count s) hx
  unfold Thread.numbered
  rw [like.weigh]
  exact Nat.le_trans (Nat.le_of_eq (Nat.add_right_cancel hw)) (Nat.le_add_right _ _)

theorem renew_grows_numbered {f : Nat} {x : Fiber} {callback : List Op}
    (hx : p.thread.fibers.get? f = some x)
    (like : (p.thread.renew f x p.nextSerial callback).Like q.thread)
    (hserial : q.nextSerial = p.nextSerial + 1) (hq : p.Onward q) :
    Grows Thread.numbered nextSerial p q := by
  refine .of_thread hq hq.nextSerial fun s => ?_
  have hw := Thread.weigh_renew (fun k => [k.serial].count s) p.nextSerial callback hx
  unfold Thread.numbered
  rw [like.weigh, hw]
  exact Nat.add_le_add_left (count_le_range ⟨Nat.le_refl _, by simp only; omega⟩) _

/-- The executing thread starts another one and waits for it. -/
theorem Grows.launch {t : Thread} {label : Label} (hnext : next p ≤ next q) (ht : q.thread = t)
    (hj : q.joining = ⟨p.thread, label⟩ :: p.joining) (he : q.ended = p.ended)
    (h : ∀ s, w s t ≤ if next p ≤ s ∧ s < next q then 1 else 0) : Grows w next p q where
  mono := hnext
  sum s := by
    have := h s
    rw [sum_eq, sum_eq, ht, hj, he]
    simp only [List.map_cons, List.cons_append, List.sum_cons]
    omega

/-- The executing thread has ended, and the one that waited goes on. -/
theorem Grows.join {joiner : Joiner} {rest : List Joiner} (hnext : next p = next q)
    (hj : p.joining = joiner :: rest) (ht : q.thread = joiner.thread) (hj' : q.joining = rest)
    (he : q.ended = p.thread :: p.ended) : Grows w next p q where
  mono := Nat.le_of_eq hnext
  sum s := by
    rw [sum_eq, sum_eq, ht, hj, hj', he]
    simp only [List.map_cons, List.map_append, List.cons_append, List.sum_cons,
      List.sum_append_nat]
    omega

theorem Change.grows_numbered (h : p.Change q) : Grows Thread.numbered nextSerial p q := by
  induction h with
  | calm h => exact h.grows_numbered
  | switch _ _ h => exact h.grows_numbered
  | terminate hx ht hq => exact terminate_grows_numbered hx ht hq
  | renew hx ht hserial hq => exact renew_grows_numbered hx ht hserial hq
  | @launch p q label program ht hserial hid hj he =>
    refine .launch (by omega) ht hj he fun s => ?_
    exact count_le_range (s := s) (n := p.nextSerial) ⟨Nat.le_refl _, by omega⟩
  | join hj ht hj' he hid hserial => exact .join hserial.symm hj ht hj' he
  | trans _ _ ih ih' => exact ih.trans ih'

/-! ### Ids -/

theorem Calm.grows_lives (h : p.Calm q) : Grows Thread.lives nextId p q := by
  refine .of_thread h.onward h.onward.nextId fun f => ?_
  unfold Thread.lives
  cases hy : q.thread.fibers.get? f with
  | none => exact Nat.zero_le _
  | some y =>
    rcases h.fibers f y hy with ⟨x, hx, -⟩ | hm
    · rw [hx]
      exact Nat.le_add_right _ _
    · rw [if_pos ⟨hm.low, hm.high⟩]
      exact Nat.le_add_left _ _

theorem Switch.grows_lives (h : p.Switch source home state q) : Grows Thread.lives nextId p q := by
  obtain ⟨hx, hy, hne, ht, like, serial, onward⟩ := h
  refine .of_thread onward onward.nextId fun f =>
    Nat.le_trans (Nat.le_of_eq ?_) (Nat.le_add_right _ _)
  unfold Thread.lives
  rw [like.fibers]
  exact Thread.elim_switch (fun _ => 1) hx hy rfl rfl f

/-- A fiber that is there is replaced. -/
theorem grows_lives_of_set {f : Nat} {x y : Fiber} (hx : p.thread.fibers.get? f = some x)
    (hfibers : ∀ g, q.thread.fibers.get? g = (p.thread.fibers.set f y).get? g)
    (hq : p.Onward q) : Grows Thread.lives nextId p q := by
  refine .of_thread hq hq.nextId fun g => Nat.le_trans (Nat.le_of_eq ?_) (Nat.le_add_right _ _)
  unfold Thread.lives
  rw [hfibers, Table.get?_set]
  by_cases hg : g = f
  · simp [hg, hx]
  · simp [hg]

theorem Change.grows_lives (h : p.Change q) : Grows Thread.lives nextId p q := by
  induction h with
  | calm h => exact h.grows_lives
  | switch _ _ h => exact h.grows_lives
  | terminate hx ht hq => exact grows_lives_of_set hx ht.fibers hq
  | renew hx ht _ hq => exact grows_lives_of_set hx ht.fibers hq
  | launch ht hserial hid hj he =>
    exact .launch (Nat.le_of_eq hid.symm) ht hj he fun _ => Nat.zero_le _
  | join hj ht hj' he hid hserial => exact .join hid.symm hj ht hj' he
  | trans _ _ ih ih' => exact ih.trans ih'

end Process
end Fibers
