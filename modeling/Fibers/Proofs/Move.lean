import Fibers.Process.Basic
import Fibers.Proofs.Change

/-! Moves: what the code of a thread does between switches.

A move takes the process and the handles in hand to the process and the handles in hand
afterwards. Whatever an operation does, short of a switch, a reset and the start or end of
a thread, is a sequence of moves. So a fact about all operations takes one case for each
kind of move: that the thread stays in order is `Move.steady`, that no fiber changes state
and no context is continued is `Move.calm`. -/
namespace Fibers

namespace Thread

/-- The thread is in order, with a hand of handles out, and its fibers have ids below `n`. -/
structure Steady (n : Nat) (hand : List Nat) (t : Thread) : Prop extends
    Sound hand t, Attended t where
  below : ∀ f x, t.fibers.get? f = some x → f < n

/-- The executing code may execute, and before there is a root it has no switch to return
from. -/
structure Alert (t : Thread) : Prop where
  awake : t.running.code.Awake
  clear : t.root = none → t.running.code.Clear

theorem Alert.go_on {t u : Thread} (h : t.Alert) (hc : u.running = t.running)
    (hr : u.root = none → t.root = none) : u.Alert where
  awake := by
    rw [hc]
    exact h.awake
  clear hn := by
    rw [hc]
    exact h.clear (hr hn)

/-- The thread with the callback of a fiber begun. -/
def begin (t : Thread) (f : Nat) (x : Fiber) (callback : List Op) : Thread :=
  (t.setFiber f {x with callback := none}).become (.active ⟨.callback f, [], Task.ofOps callback⟩)

theorem begin_akin {t : Thread} {f : Nat} {x : Fiber} (hcode : t.running.code = .entry f)
    (hx : t.fibers.get? f = some x) (callback : List Op) : t.Akin (t.begin f x callback) := by
  refine (akin_setFiber hx x.handles none).trans (become_akin ?_ ?_ fun _ h => nomatch h)
  · show _ = t.running.code.origin
    rw [hcode]
    rfl
  · show _ = t.running.code.unfinished
    rw [hcode]
    rfl

theorem Counted.begin {t : Thread} {hand : List Nat} {f : Nat} {x : Fiber} {callback : List Op}
    (h : t.Counted (f :: hand)) (hcode : t.running.code = .entry f)
    (hx : t.fibers.get? f = some x) : (t.begin f x callback).Counted hand := by
  refine (h.setCallback hx none).become fun g => ?_
  show _ = t.running.code.handles.count g + _
  rw [hcode, Code.handles_active, count_cons]
  show [f].count g + _ = 0 + _
  omega

/-- How many contexts have a serial number. -/
def numbered (s : Nat) (t : Thread) : Nat := t.weigh fun k => [k.serial].count s

theorem fresh_of_below {n : Nat} {t : Thread} (h : ∀ f x, t.fibers.get? f = some x → f < n) :
    t.fibers.get? n = none := by
  cases hx : t.fibers.get? n with
  | none => rfl
  | some x => exact (Nat.lt_irrefl n (h n x hx)).elim

/-- Where there is no current fiber yet, there is no root either. -/
theorem Attended.root_none {t : Thread} (h : t.Attended) (hc : t.current = none) :
    t.root = none := by
  cases hr : t.root with
  | none => rfl
  | some r =>
    obtain ⟨c, x, hc', -⟩ := h.current r hr
    simp [hc] at hc'

/-- The current fiber is alive and runs. -/
theorem Steady.current_running {n c : Nat} {hand : List Nat} {t : Thread} (h : t.Steady n hand)
    (hc : t.current = some c) :
    t.root ≠ none ∧ ∃ x, t.fibers.get? c = some x ∧ x.state = .running := by
  have hroot : t.root ≠ none := fun hr => by
    simp [(h.unrooted hr).1] at hc
  obtain ⟨r, hr⟩ := Option.ne_none_iff_exists'.mp hroot
  obtain ⟨c', x, hc', hx, hs⟩ := h.toAttended.current r hr
  rw [hc] at hc'
  cases hc'
  exact ⟨hroot, x, hx, hs⟩

theorem Steady.current_state {n c : Nat} {hand : List Nat} {t : Thread} {x : Fiber}
    (h : t.Steady n hand) (hc : t.current = some c) (hx : t.fibers.get? c = some x) :
    x.state = .running := by
  obtain ⟨-, y, hy, hs⟩ := h.current_running hc
  rw [hx] at hy
  cases hy
  exact hs

end Thread

namespace Process

/-- Names are only ever used up, and the other threads are left alone. -/
structure Onward (p q : Process) : Prop where
  nextId : p.nextId ≤ q.nextId
  nextSerial : p.nextSerial ≤ q.nextSerial
  joining : q.joining = p.joining
  ended : q.ended = p.ended

theorem Onward.refl (p : Process) : p.Onward p := ⟨Nat.le_refl _, Nat.le_refl _, rfl, rfl⟩

theorem Onward.trans {p q r : Process} (h : p.Onward q) (h' : q.Onward r) : p.Onward r :=
  ⟨Nat.le_trans h.nextId h'.nextId, Nat.le_trans h.nextSerial h'.nextSerial,
    h'.joining.trans h.joining, h'.ended.trans h.ended⟩

theorem onward_of_names {p q : Process} (hi : q.nextId = p.nextId)
    (hs : q.nextSerial = p.nextSerial) (hj : q.joining = p.joining) (he : q.ended = p.ended) :
    p.Onward q :=
  ⟨Nat.le_of_eq hi.symm, Nat.le_of_eq hs.symm, hj, he⟩

inductive Move : List Nat → Process → List Nat → Process → Prop
  /-- Nothing that concerns fibers, slots or code. -/
  | quiet {hand : List Nat} {p q : Process} (ht : p.thread.Like q.thread) (hq : p.Onward q) :
    Move hand p hand q
  | retain {hand : List Nat} {p q : Process} {f : Nat} {x : Fiber}
    (hx : p.thread.fibers.get? f = some x)
    (ht : (p.thread.setFiber f {x with handles := x.handles + 1}).Like q.thread)
    (hq : p.Onward q) : Move hand p (f :: hand) q
  | release {hand : List Nat} {p q : Process} {f : Nat} {x : Fiber}
    (hx : p.thread.fibers.get? f = some x) (hn : 1 < x.handles)
    (ht : (p.thread.setFiber f {x with handles := x.handles - 1}).Like q.thread)
    (hq : p.Onward q) : Move (f :: hand) p hand q
  | destroy {hand : List Nat} {p q : Process} {f : Nat} {x : Fiber}
    (hx : p.thread.fibers.get? f = some x) (hn : x.handles ≤ 1)
    (hs : x.stack ≠ none → x.state = .term) (ht : (p.thread.bury f x).Like q.thread)
    (hq : p.Onward q) : Move (f :: hand) p hand q
  /-- A callback begins: the start of its fiber goes on as the script that was installed, with a
  handle of the fiber. -/
  | begin {hand : List Nat} {p q : Process} {f : Nat} {x : Fiber} {callback : List Op}
    (hcode : p.thread.running.code = .entry f) (hx : p.thread.fibers.get? f = some x)
    (hcallback : x.callback = some callback)
    (ht : (p.thread.begin f x callback).Like q.thread) (hq : p.Onward q) :
    Move (f :: hand) p hand q
  /-- A handle goes into a slot, and the one that was there comes to hand. -/
  | put {hand : List Nat} {p q : Process} {f : Nat} (s : String)
    (ht : Thread.Like {p.thread with slots := p.thread.slots.set s f} q.thread)
    (hq : p.Onward q) : Move (f :: hand) p ((p.thread.slots.get? s).toList ++ hand) q
  | take {hand : List Nat} {p q : Process} {f : Nat} {s : String}
    (hs : p.thread.slots.get? s = some f)
    (ht : Thread.Like {p.thread with slots := p.thread.slots.erase s} q.thread)
    (hq : p.Onward q) : Move hand p (f :: hand) q
  /-- The executing code goes on, taking handles from the hand or giving them back. -/
  | go {hand rest : List Nat} {p q : Process} {code : Code}
    (h : Code.Follows hand p.thread.running.code rest code)
    (ht : (p.thread.become code).Like q.thread) (hq : p.Onward q) : Move hand p rest q
  | create {hand : List Nat} {p q : Process} {serial : Nat} (stack : Memory.Stack)
    (callback : List Op) (scheduled : Bool) (hid : p.nextId < q.nextId)
    (hlow : p.nextSerial ≤ serial) (hhigh : serial < q.nextSerial)
    (ht : (p.thread.setFiber p.nextId
      (.task stack ⟨serial, .entry p.nextId⟩ callback scheduled)).Like q.thread)
    (hq : p.Onward q) : Move hand p (p.nextId :: hand) q
  | root {hand : List Nat} {p q : Process} (hc : p.thread.current = none)
    (hid : p.nextId < q.nextId) (ht : (p.thread.addRoot p.nextId).Like q.thread)
    (hq : p.Onward q) : Move hand p hand q
  | trans {hand hand' hand'' : List Nat} {p q r : Process} (h : Move hand p hand' q)
    (h' : Move hand' q hand'' r) : Move hand p hand'' r

variable {p q r : Process} {hand hand' : List Nat} {f : Nat} {y : Fiber}

theorem Move.refl (hand : List Nat) (p : Process) : Move hand p hand p :=
  .quiet (.refl _) (.refl _)

/-! ### Order is kept -/

theorem steady_of_akin {n m : Nat} {t u : Thread} (ht : t.Steady n hand) (h : t.Akin u)
    (hc : u.Counted hand') (hn : n ≤ m) : u.Steady m hand' where
  toSound := ⟨hc, h.rooted ht.toRooted, h.stored ht.toStored, h.begun ht.toBegun⟩
  toAttended := h.attended ht.toAttended
  below f y hy := by
    obtain ⟨k, b, hx⟩ := h.back f y hy
    exact Nat.lt_of_lt_of_le (ht.below f _ hx) hn

theorem steady_of_like {n m : Nat} {t u : Thread} (h : t.Like u) (ht : t.Steady n hand)
    (hn : n ≤ m) : u.Steady m hand :=
  steady_of_akin ht h.akin (h.counted ht.toCounted) hn

/-- A change that leaves roles and contexts alone needs only its handles counted. -/
theorem steady_change {t : Thread} (hp : p.thread.Steady p.nextId hand) (h : p.thread.Akin t)
    (hc : t.Counted hand') (ht : t.Like q.thread) (hq : p.Onward q) :
    q.thread.Steady q.nextId hand' :=
  steady_of_like ht (steady_of_akin hp h hc hq.nextId) (Nat.le_refl _)

/-- Moves keep the thread in order. -/
theorem Move.steady (h : Move hand p hand' q) (hp : p.thread.Steady p.nextId hand) :
    q.thread.Steady q.nextId hand' := by
  induction h with
  | quiet ht hq => exact steady_of_like ht hp hq.nextId
  | retain hx ht hq =>
    exact steady_change hp (Thread.akin_setFiber hx _ _) (hp.toCounted.retain hx) ht hq
  | release hx hn ht hq =>
    exact steady_change hp (Thread.akin_setFiber hx _ _) (hp.toCounted.release hx hn) ht hq
  | @destroy hand p q f x hx hn hs ht hq =>
    have hkept := hp.toCounted.unkept hx hn
    have hstack := hp.toSound.last_task hx hn
    refine steady_of_like ht ⟨⟨hp.toCounted.bury hx hn, hp.toRooted.bury, hp.toStored.bury,
      hp.toBegun.bury hx (hs hstack)⟩, hp.toAttended.bury hx hkept, fun g y hy => ?_⟩
      hq.nextId
    exact hp.below g y (Table.erase_cases hy).2
  | begin hcode hx _ ht hq =>
    exact steady_change hp (Thread.begin_akin hcode hx _) (hp.toCounted.begin hcode hx) ht hq
  | put s ht hq =>
    exact steady_change hp (Thread.slots_akin _ _) (hp.toCounted.put s) ht hq
  | take hs ht hq =>
    exact steady_change hp (Thread.slots_akin _ _) (hp.toCounted.take hs) ht hq
  | go h ht hq =>
    have hakin := Thread.become_akin h.origin h.unfinished h.entry
    exact steady_change hp hakin (hp.toCounted.become h.handles) ht hq
  | @create hand p q serial stack callback scheduled hid hlow hhigh ht hq =>
    have hf := Thread.fresh_of_below hp.below
    have hr : p.thread.root ≠ some p.nextId := fun hr => by
      obtain ⟨x, hx⟩ := hp.toCounted.root_alive hr
      simp [hf] at hx
    refine steady_of_like ht ⟨⟨hp.toCounted.create _ _ _ _ hf, hp.toRooted.create _ _ _ _ hr,
      hp.toStored.create _ _ _ _, hp.toBegun.create _ _ _ _ hf⟩, hp.toAttended.create hf,
      fun g y hy => ?_⟩ (Nat.le_refl _)
    obtain ⟨rfl, -⟩ | ⟨-, hy⟩ := Table.set_cases hy
    · exact hid
    · exact Nat.lt_of_lt_of_le (hp.below g y hy) hq.nextId
  | @root hand p q hc hid ht hq =>
    have hf := Thread.fresh_of_below hp.below
    have hr := hp.toAttended.root_none hc
    refine steady_of_like ht ⟨⟨hp.toCounted.addRoot hr hf, hp.toRooted.addRoot hr,
      hp.toStored.addRoot, hp.toBegun.addRoot hf⟩, Thread.Attended.addRoot hp.toRooted hr,
      fun g y hy => ?_⟩ (Nat.le_refl _)
    obtain ⟨rfl, -⟩ | ⟨-, hy⟩ := Table.set_cases hy
    · exact hid
    · exact Nat.lt_of_lt_of_le (hp.below g y hy) hq.nextId
  | trans _ _ ih ih' => exact ih' (ih hp)

theorem alert_of_like {t u : Thread} (h : t.Like u) (ht : t.Alert) : u.Alert :=
  ht.go_on h.running fun hr => h.root ▸ hr

/-- Moves leave code that may execute. -/
theorem Move.alert (h : Move hand p hand' q) (hp : p.thread.Alert) : q.thread.Alert := by
  induction h with
  | quiet ht hq => exact alert_of_like ht hp
  | go h ht hq => exact alert_of_like ht ⟨h.clear.awake, fun _ => h.clear⟩
  | root hc hid ht hq => exact alert_of_like ht (hp.go_on rfl fun h => by cases h)
  | trans _ _ ih ih' => exact ih' (ih hp)
  | retain hx ht hq => exact alert_of_like ht (hp.go_on rfl id)
  | release hx hn ht hq => exact alert_of_like ht (hp.go_on rfl id)
  | destroy hx hn hs ht hq => exact alert_of_like ht (hp.go_on rfl id)
  | @begin _ _ _ f _ callback _ _ _ ht _ =>
    have hclear : Code.Clear (.active ⟨.callback f, [], Task.ofOps callback⟩) :=
      Task.plain_ofOps callback
    exact alert_of_like ht ⟨hclear.awake, fun _ => hclear⟩
  | put s ht hq => exact alert_of_like ht (hp.go_on rfl id)
  | take hs ht hq => exact alert_of_like ht (hp.go_on rfl id)
  | create stack callback scheduled hid hlow hhigh ht hq =>
    exact alert_of_like ht (hp.go_on rfl id)

/-- Moves leave the code with whom it belongs. -/
theorem Move.origin (h : Move hand p hand' q) :
    q.thread.running.code.origin = p.thread.running.code.origin := by
  induction h with
  | go h ht hq =>
    rw [ht.running]
    exact h.origin
  | trans _ _ ih ih' => exact ih'.trans ih
  | quiet ht hq => rw [ht.running]
  | retain hx ht hq => rw [ht.running]; rfl
  | release hx hn ht hq => rw [ht.running]; rfl
  | destroy hx hn hs ht hq => rw [ht.running]; rfl
  | begin hcode _ _ ht _ => rw [ht.running, hcode]; rfl
  | put s ht hq => rw [ht.running]
  | take hs ht hq => rw [ht.running]
  | create stack callback scheduled hid hlow hhigh ht hq => rw [ht.running]; rfl
  | root hc hid ht hq => rw [ht.running]; rfl

/-- A root stays the root. -/
theorem Move.root_kept (h : Move hand p hand' q) (hp : p.thread.Steady p.nextId hand) {r : Nat}
    (hr : p.thread.root = some r) : q.thread.root = some r := by
  induction h with
  | trans h h' ih ih' => exact ih' (h.steady hp) (ih hp hr)
  | root hc hid ht hq =>
    simp [hp.toAttended.root_none hc] at hr
  | quiet ht hq => exact ht.root.trans hr
  | retain hx ht hq => exact ht.root.trans hr
  | release hx hn ht hq => exact ht.root.trans hr
  | destroy hx hn hs ht hq => exact ht.root.trans hr
  | begin _ _ _ ht _ => exact ht.root.trans hr
  | put s ht hq => exact ht.root.trans hr
  | take hs ht hq => exact ht.root.trans hr
  | go h ht hq => exact ht.root.trans hr
  | create stack callback scheduled hid hlow hhigh ht hq => exact ht.root.trans hr

/-! ### Nothing is switched -/

/-- The fiber was there, with the same state and the same context at rest. -/
def Kept (t : Thread) (f : Nat) (y : Fiber) : Prop :=
  ∃ x, t.fibers.get? f = some x ∧ y.state = x.state ∧ y.stack = x.stack ∧ y.context = x.context

/-- The fiber is new: a task that is ready, from a start of its own, or a running root. -/
structure Made (p q : Process) (f : Nat) (y : Fiber) : Prop where
  low : p.nextId ≤ f
  high : f < q.nextId
  state : y.state = if y.stack = none then .running else .ready
  context : ∀ k, y.context = some k → p.nextSerial ≤ k.serial ∧ k.serial < q.nextSerial
  start : ∀ k, y.context = some k → y.stack ≠ none ∧ k.code = .entry f

/-- No fiber changes state and no context is continued. -/
structure Calm (p q : Process) : Prop where
  onward : p.Onward q
  serial : q.thread.running.serial = p.thread.running.serial
  /-- The code is still whose it was, and what was current for it still is. -/
  home : ∀ f, q.thread.running.code.origin = .callback f →
    p.thread.running.code.origin = .callback f ∧
      (p.thread.current = some f → q.thread.current = some f)
  fibers : ∀ f y, q.thread.fibers.get? f = some y → Kept p.thread f y ∨ Made p q f y
  /-- A serial number is given at most once. -/
  numbered : ∀ s, q.thread.numbered s ≤
    p.thread.numbered s + if p.nextSerial ≤ s ∧ s < q.nextSerial then 1 else 0

theorem Made.mono (h : Made p q f y) (hq : q.Onward r) : Made p r f y where
  low := h.low
  high := Nat.lt_of_lt_of_le h.high hq.nextId
  state := h.state
  context k hk := ⟨(h.context k hk).1, Nat.lt_of_lt_of_le (h.context k hk).2 hq.nextSerial⟩
  start := h.start

theorem Calm.trans (h : p.Calm q) (h' : q.Calm r) : p.Calm r where
  onward := h.onward.trans h'.onward
  serial := h'.serial.trans h.serial
  home f hf :=
    have hq := h'.home f hf
    have hp := h.home f hq.1
    ⟨hp.1, fun hc => hq.2 (hp.2 hc)⟩
  fibers f z hz := by
    rcases h'.fibers f z hz with ⟨y, hy, hs, hk, hc⟩ | hm
    · rcases h.fibers f y hy with ⟨x, hx, hs', hk', hc'⟩ | hm
      · exact .inl ⟨x, hx, hs.trans hs', hk.trans hk', hc.trans hc'⟩
      · exact .inr { hm.mono h'.onward with
          state := by rw [hs, hk, hm.state]
          context := fun k hk => (hm.mono h'.onward).context k (hc ▸ hk)
          start := fun k hstart => hk ▸ hm.start k (hc ▸ hstart) }
    · exact .inr { hm with
        low := Nat.le_trans h.onward.nextId hm.low
        context := fun k hk => ⟨Nat.le_trans h.onward.nextSerial (hm.context k hk).1,
          (hm.context k hk).2⟩ }
  numbered s := by
    have h₁ := h.numbered s
    have h₂ := h'.numbered s
    have := h.onward.nextSerial
    have := h'.onward.nextSerial
    split at h₁ <;> split at h₂ <;> split <;> omega

theorem calm_of_akin (h : p.thread.Akin q.thread)
    (hs : q.thread.running.serial = p.thread.running.serial)
    (hq : p.Onward q) : p.Calm q where
  onward := hq
  serial := hs
  home f hf := ⟨h.origin ▸ hf, fun hc => h.current.trans hc⟩
  fibers f y hy := by
    obtain ⟨n, b, hx⟩ := h.back f y hy
    exact .inl ⟨_, hx, rfl, rfl, rfl⟩
  numbered s := by
    have hw := h.weigh fun k => [k.serial].count s
    rw [hs] at hw
    unfold Thread.numbered
    omega

/-- A thread that executes as before is calm if its fibers are kept or made. -/
theorem calm_of_like {t : Thread} (ht : t.Like q.thread) (hq : p.Onward q)
    (hrun : t.running = p.thread.running)
    (hcurrent : ∀ f, p.thread.current = some f → t.current = some f)
    (hfibers : ∀ f y, t.fibers.get? f = some y → Kept p.thread f y ∨ Made p q f y)
    (hnumbered : ∀ s, t.numbered s ≤
      p.thread.numbered s + if p.nextSerial ≤ s ∧ s < q.nextSerial then 1 else 0) : p.Calm q where
  onward := hq
  serial := by rw [ht.running, hrun]
  home f hf := by
    rw [ht.running, hrun] at hf
    exact ⟨hf, fun hc => ht.current.trans (hcurrent f hc)⟩
  fibers f y hy := hfibers f y (ht.fibers f ▸ hy)
  numbered s := by
    unfold Thread.numbered
    rw [ht.weigh]
    exact hnumbered s

theorem Calm.below (h : p.Calm q) (hp : ∀ f x, p.thread.fibers.get? f = some x → f < p.nextId) :
    ∀ f x, q.thread.fibers.get? f = some x → f < q.nextId := by
  intro f y hy
  rcases h.fibers f y hy with ⟨x, hx, -⟩ | hm
  · exact Nat.lt_of_lt_of_le (hp f x hx) h.onward.nextId
  · exact hm.high

/-- A number in a range is counted once there. -/
theorem count_le_range {s a b n : Nat} (h : a ≤ n ∧ n < b) :
    [n].count s ≤ if a ≤ s ∧ s < b then 1 else 0 := by
  rw [List.count_singleton]
  split
  · next he =>
    rw [beq_iff_eq] at he
    exact Nat.le_of_eq (if_pos (he ▸ h)).symm
  · exact Nat.zero_le _

theorem Move.calm (h : Move hand p hand' q)
    (hp : ∀ f x, p.thread.fibers.get? f = some x → f < p.nextId) : p.Calm q := by
  induction h with
  | quiet ht hq => exact calm_of_akin ht.akin (by rw [ht.running]) hq
  | retain hx ht hq =>
    exact calm_of_akin ((Thread.akin_setFiber hx _ _).trans ht.akin) (by rw [ht.running]; rfl) hq
  | release hx hn ht hq =>
    exact calm_of_akin ((Thread.akin_setFiber hx _ _).trans ht.akin) (by rw [ht.running]; rfl) hq
  | begin hcode hx _ ht hq =>
    exact calm_of_akin ((Thread.begin_akin hcode hx _).trans ht.akin) (by rw [ht.running]; rfl) hq
  | put s ht hq =>
    exact calm_of_akin ((Thread.slots_akin _ _).trans ht.akin) (by rw [ht.running]) hq
  | take hs ht hq =>
    exact calm_of_akin ((Thread.slots_akin _ _).trans ht.akin) (by rw [ht.running]) hq
  | go h ht hq =>
    have hakin := Thread.become_akin h.origin h.unfinished h.entry
    exact calm_of_akin (hakin.trans ht.akin) (by rw [ht.running]; rfl) hq
  | @destroy hand p q f x hx hn hs ht hq =>
    refine calm_of_like ht hq rfl (fun _ hc => hc) (fun g y hy => ?_) fun s => ?_
    · exact .inl ⟨y, (Table.erase_cases hy).2, rfl, rfl, rfl⟩
    · unfold Thread.numbered
      rw [Thread.weigh_bury _ hx]
      omega
  | @create hand p q serial stack callback scheduled hid hlow hhigh ht hq =>
    have hf := Thread.fresh_of_below hp
    refine calm_of_like ht hq rfl (fun _ hc => hc) (fun g y hy => ?_) fun s => ?_
    · obtain ⟨rfl, rfl⟩ | ⟨-, hy⟩ := Table.set_cases hy
      · refine .inr ⟨Nat.le_refl _, hid, rfl, fun k hk => ?_, fun k hk => ?_⟩ <;> cases hk
        · exact ⟨hlow, hhigh⟩
        · exact ⟨by simp [Fiber.task], rfl⟩
      · exact .inl ⟨y, hy, rfl, rfl, rfl⟩
    · unfold Thread.numbered
      rw [Thread.weigh_arrival hf]
      exact Nat.add_le_add_left (count_le_range ⟨hlow, hhigh⟩) _
  | @root hand p q hc hid ht hq =>
    have hf := Thread.fresh_of_below hp
    refine calm_of_like ht hq rfl (fun g hg => ?_) (fun g y hy => ?_) fun s => ?_
    · simp [hc] at hg
    · obtain ⟨rfl, rfl⟩ | ⟨-, hy⟩ := Table.set_cases hy
      · refine .inr ⟨Nat.le_refl _, hid, rfl, fun k hk => ?_, fun k hk => ?_⟩ <;> cases hk
      · exact .inl ⟨y, hy, rfl, rfl, rfl⟩
    · unfold Thread.numbered
      rw [Thread.weigh_addRoot hf]
      omega
  | trans h h' ih ih' => exact (ih hp).trans (ih' ((ih hp).below hp))

end Process
end Fibers
