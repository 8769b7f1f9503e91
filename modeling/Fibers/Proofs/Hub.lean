import Fibers.Proofs.Reach
import Fibers.Proofs.Report

/-! What a thread knows of.

A thread knows its fibers and its hub. The hub was a fiber of the thread when it was registered,
and no other thread ever comes to know an id that one thread knows, also when the fiber is long
gone (`Scenario.Reaches.known`). The stack of every fiber has the least size or more
(`Scenario.Reaches.roomy`). Both hold after every edit of the thread that executes. -/
namespace Fibers

namespace Thread

/-- Whether a thread has a fiber or took it for its hub, as a count. -/
def knows (f : Nat) (t : Thread) : Nat :=
  if t.hub = some f ∨ (t.fibers.get? f).isSome then 1 else 0

/-- All stacks of fibers have the least size at least. -/
def Roomy (t : Thread) : Prop :=
  ∀ f x stack, t.fibers.get? f = some x → x.stack = some stack → Memory.minStackSize ≤ stack.size

variable {t u : Thread} {f g : Nat} {x : Fiber}

theorem knows_le_one (f : Nat) (t : Thread) : t.knows f ≤ 1 := by
  unfold knows
  split <;> simp

theorem knows_pos : 0 < t.knows f ↔ t.hub = some f ∨ (t.fibers.get? f).isSome := by
  unfold knows
  split
  · next h => simp [h]
  · next h => simp [h]

theorem knows_of_fiber (hx : t.fibers.get? f = some x) : 0 < t.knows f :=
  knows_pos.mpr (.inr (Option.isSome_iff_exists.mpr ⟨x, hx⟩))

theorem knows_of_hub (h : t.hub = some f) : 0 < t.knows f := knows_pos.mpr (.inl h)

theorem roomy_start (serial : Nat) (program : List Op) : (start serial program).Roomy :=
  fun _ _ _ h => nomatch h

theorem Roomy.congr (h : t.Roomy) (hfibers : u.fibers = t.fibers) : u.Roomy :=
  fun f x stack hx => h f x stack (hfibers ▸ hx)

theorem Roomy.setFiber (h : t.Roomy)
    (hx : ∀ stack, x.stack = some stack → Memory.minStackSize ≤ stack.size) :
    (t.setFiber f x).Roomy := by
  intro g y stack hy hs
  obtain ⟨rfl, rfl⟩ | ⟨-, hy⟩ := Table.set_cases hy
  · exact hx stack hs
  · exact h g y stack hy hs

theorem Roomy.bury (h : t.Roomy) (f : Nat) (x : Fiber) : (t.bury f x).Roomy :=
  fun g y stack hy => h g y stack (Table.erase_cases hy).2

end Thread

namespace Process

variable {p q : Process} {kind : Kind} {f : Nat} {x : Fiber} {stack : Memory.Stack}

/-! ### What one edit adds -/

/-- The thread knows no more than it did, or the next fiber besides. -/
def Learns (p q : Process) : Prop :=
  ∀ f, 0 < q.thread.knows f → 0 < p.thread.knows f ∨ f = p.nextId ∧ q.nextId = p.nextId + 1

theorem learns_of_fibers (hhub : q.thread.hub = p.thread.hub)
    (hfibers : ∀ f y, q.thread.fibers.get? f = some y → ∃ x, p.thread.fibers.get? f = some x) :
    p.Learns q := by
  intro f hf
  rcases Thread.knows_pos.mp hf with hf | hf
  · exact .inl (Thread.knows_of_hub (hhub ▸ hf))
  · obtain ⟨y, hy⟩ := Option.isSome_iff_exists.mp hf
    obtain ⟨x, hx⟩ := hfibers f y hy
    exact .inl (Thread.knows_of_fiber hx)

theorem learns_of_same (hhub : q.thread.hub = p.thread.hub)
    (hfibers : q.thread.fibers = p.thread.fibers) : p.Learns q :=
  learns_of_fibers hhub fun _ y hy => ⟨y, hfibers ▸ hy⟩

/-- All fibers are the same but one, which was there or is the next one. -/
theorem learns_of_set (hhub : q.thread.hub = p.thread.hub)
    (hfibers : ∀ g, g ≠ f → q.thread.fibers.get? g = p.thread.fibers.get? g)
    (hf : (∃ y, p.thread.fibers.get? f = some y) ∨ f = p.nextId ∧ q.nextId = p.nextId + 1) :
    p.Learns q := by
  intro g hg
  by_cases he : g = f
  · subst he
    exact hf.imp (fun ⟨y, hy⟩ => Thread.knows_of_fiber hy) id
  · left
    rw [Thread.knows_pos, ← hhub, ← hfibers g he]
    exact Thread.knows_pos.mp hg

theorem book_fibers (record : Memory.Tally → Nat → Memory.Tally) (t : Thread)
    (stack : Memory.Stack) : (t.book record stack).fibers = t.fibers := by
  obtain ⟨tallies, h⟩ := t.book_eq record stack
  rw [h]

theorem book_hub (record : Memory.Tally → Nat → Memory.Tally) (t : Thread)
    (stack : Memory.Stack) : (t.book record stack).hub = t.hub := by
  obtain ⟨tallies, h⟩ := t.book_eq record stack
  rw [h]

theorem Edit.learns (h : p.Edit kind q) : p.Learns q := by
  cases h with
  | thread ht _ hhub => exact learns_of_same hhub ht.fibers
  | @hub hub hhub =>
    intro f hf
    rcases Thread.knows_pos.mp hf with hf | hf
    · obtain ⟨x, hx⟩ := hhub f hf
      exact .inl (Thread.knows_of_fiber hx)
    · exact .inl (Thread.knows_pos.mpr (.inr hf))
  | fiber hx =>
    exact learns_of_set rfl (fun _ hg => Thread.get?_setFiber.trans (if_neg hg)) (.inl ⟨_, hx⟩)
  | root =>
    refine learns_of_set (f := p.nextId) rfl (fun g hg => ?_) (.inr ⟨rfl, rfl⟩)
    exact Thread.get?_setFiber.trans ((if_neg hg).trans (Thread.get?_addRoot.trans (if_neg hg)))
  | task _ _ _ _ hr =>
    obtain ⟨-, -⟩ := hr
    refine learns_of_set (f := p.nextId) (book_hub ..) (fun g hg => ?_) (.inr ⟨rfl, rfl⟩)
    refine Thread.get?_setFiber.trans ((if_neg hg).trans ?_)
    rw [book_fibers]
  | destroyRoot => exact learns_of_fibers rfl fun _ y hy => ⟨y, (Table.erase_cases hy).2⟩
  | destroyTask =>
    refine learns_of_fibers (book_hub ..) fun g y hy => ⟨y, ?_⟩
    rw [show (recover _ _).thread.fibers = _ from book_fibers ..] at hy
    exact (Table.erase_cases hy).2
  | keep _ hr =>
    obtain ⟨-, -⟩ := hr
    exact learns_of_same (book_hub ..) (book_fibers ..)
  | replace _ hr =>
    obtain ⟨-, -⟩ := hr
    exact learns_of_same ((book_hub ..).trans (book_hub ..))
      ((book_fibers ..).trans (book_fibers ..))
  | free => exact learns_of_same (book_hub ..) (book_fibers ..)
  | _ => exact learns_of_same rfl rfl

theorem Edit.roomy (h : p.Edit kind q) (hp : p.thread.Roomy) : q.thread.Roomy := by
  cases h with
  | thread ht => exact hp.congr ht.fibers
  | fiber hx hstack => exact hp.setFiber fun stack hs => hp _ _ stack hx (hstack ▸ hs)
  | root =>
    have hroot : ∀ stack, Fiber.root.stack = some stack → Memory.minStackSize ≤ stack.size :=
      fun _ h => nomatch h
    have hadd : (p.thread.addRoot p.nextId).Roomy :=
      (hp.setFiber (f := p.nextId) hroot).congr rfl
    exact hadd.setFiber hroot
  | @task r stack callback scheduled _ hsize hr =>
    obtain ⟨-, -⟩ := hr
    refine (hp.congr (book_fibers ..)).setFiber fun stack hs => ?_
    cases hs
    exact hsize
  | destroyRoot => exact hp.bury _ _
  | destroyTask => exact (hp.bury _ _).congr (book_fibers ..)
  | keep _ hr =>
    obtain ⟨-, -⟩ := hr
    exact hp.congr (book_fibers ..)
  | replace _ hr =>
    obtain ⟨-, -⟩ := hr
    exact hp.congr ((book_fibers ..).trans (book_fibers ..))
  | free => exact hp.congr (book_fibers ..)
  | _ => exact hp.congr rfl

/-! ### All threads -/

/-- Two threads know of nothing in common, and what a thread knows of was made. -/
structure Known (p : Process) : Prop where
  once : Once Thread.knows nextId p
  roomy : ∀ t ∈ p.everyThread, t.Roomy

/-- No other thread knows of what the thread that executes knows of. -/
theorem Known.elsewhere {t : Thread} (h : p.Known) (hf : 0 < p.thread.knows f)
    (ht : t ∈ p.joining.map Joiner.thread ++ p.ended) : t.knows f = 0 := by
  have honce := h.once f
  have hle : t.knows f ≤ ((p.joining.map Joiner.thread ++ p.ended).map (Thread.knows f)).sum :=
    List.single_le_sum (fun _ _ => Nat.zero_le _) _ (List.mem_map_of_mem ht)
  rw [sum_eq] at honce
  split at honce <;> omega

theorem Known.congr (h : p.Known) (hnext : q.nextId = p.nextId)
    (hhub : q.thread.hub = p.thread.hub) (hfibers : q.thread.fibers = p.thread.fibers)
    (hjoining : q.joining = p.joining) (hended : q.ended = p.ended) : q.Known where
  once := by
    refine h.once.grows ⟨Nat.le_of_eq hnext.symm, fun f => ?_⟩
    have hknows : q.thread.knows f = p.thread.knows f := by
      rw [Thread.knows, hhub, hfibers, Thread.knows]
    rw [sum_eq, sum_eq, hknows, hjoining, hended]
    omega
  roomy := by
    intro t ht
    rcases List.mem_cons.mp ht with rfl | ht
    · exact (h.roomy _ (List.mem_cons_self ..)).congr hfibers
    · rw [hjoining, hended] at ht
      exact h.roomy t (List.mem_cons_of_mem _ ht)

theorem Edit.onward (h : p.Edit kind q) : p.nextId ≤ q.nextId := by
  cases h with
  | root => exact Nat.le_succ _
  | task _ _ _ _ hr =>
    obtain ⟨-, -⟩ := hr
    exact Nat.le_succ _
  | keep _ hr =>
    obtain ⟨-, -⟩ := hr
    exact Nat.le_refl _
  | replace _ hr =>
    obtain ⟨-, -⟩ := hr
    exact Nat.le_refl _
  | _ => exact Nat.le_refl _

theorem Known.edit (h : p.Known) (hq : p.Edit kind q) : q.Known where
  once := by
    refine h.once.grows ⟨hq.onward, fun f => ?_⟩
    rw [sum_eq, sum_eq, hq.spares.joining, hq.spares.ended]
    have := Thread.knows_le_one f q.thread
    have hlearns := hq.learns f
    split <;> omega
  roomy := by
    intro t ht
    rcases List.mem_cons.mp ht with rfl | ht
    · exact hq.roomy (h.roomy _ (List.mem_cons_self ..))
    · rw [hq.spares.joining, hq.spares.ended] at ht
      exact h.roomy t (List.mem_cons_of_mem _ ht)

theorem Known.launch (h : p.Known) (label : Label) (serial n : Nat) (program : List Op) :
    Known {p with
      nextSerial := n
      thread := .start serial program
      joining := ⟨p.thread, label⟩ :: p.joining} where
  once := h.once.grows (.launch (Nat.le_refl _) rfl rfl rfl fun _ => Nat.zero_le _)
  roomy := by
    intro t ht
    rcases List.mem_cons.mp ht with rfl | ht
    · exact Thread.roomy_start _ _
    · exact h.roomy t ht

theorem Known.join {joiner : Joiner} {rest : List Joiner} (h : p.Known)
    (hj : p.joining = joiner :: rest) : Known {p with
      thread := joiner.thread, joining := rest, ended := p.thread :: p.ended} where
  once := h.once.grows (.join rfl hj rfl rfl rfl)
  roomy t ht := h.roomy t ((mem_everyThread_join hj rfl rfl rfl).mp ht)

theorem Known.effects (h : p.Known) (hq : p.Effects kind q) : q.Known :=
  hq.keeps h Known.edit (fun _ h => h.congr rfl rfl rfl rfl rfl)
    (fun h => h.congr rfl rfl rfl rfl rfl) (fun label program h => h.launch label _ _ program)
    Known.join

end Process

open Process in
theorem Scenario.Reaches.known {s : Scenario} {p : Process} (h : s.Reaches p) : p.Known := by
  obtain ⟨n, hrun⟩ := h
  have hboth : p.Lawful ∧ p.Known := by
    refine run_induction (P := fun p => p.Lawful ∧ p.Known) (fun p q ⟨hp, h⟩ hq => ?_)
      ⟨s.lawful, fun f => ?_, fun t ht => ?_⟩ hrun
    · exact ⟨(hp.step hq).2, h.effects ((Act.step_effects hp.ordered).ok hq)⟩
    · exact Nat.zero_le _
    · obtain rfl := List.mem_singleton.mp ht
      exact Thread.roomy_start _ _
  exact hboth.2

end Fibers
