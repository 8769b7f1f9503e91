import Fibers.Proofs.Transfer

/-! The end of a fiber's code, and a new beginning.

A callback that has completed marks its fiber as terminated, gives up the handle its code
kept and yields for good. While somebody else keeps a handle the thread stays in order
(`finish_leads`); with the last handle the fiber goes, and the process with it. A fiber that
has terminated can be given another callback (`resetFiber_leads`). -/
namespace Fibers

namespace Thread

variable {t : Thread} {n : Nat} {hand : List Nat} {f g serial : Nat} {x y : Fiber} {o : Outcome}
  {callback : List Op}

/-! ### Termination -/

/-- The thread with a fiber terminated, and the executing code past its end. -/
def terminate (t : Thread) (f : Nat) (x : Fiber) : Thread :=
  (t.setFiber f {x with state := .term, handles := x.handles - 1}).become (.spent f)

theorem get?_terminate : (t.terminate f x).fibers.get? g =
    if g = f then some {x with state := .term, handles := x.handles - 1} else t.fibers.get? g :=
  get?_setFiber

theorem weigh_terminate (w : Context → Nat) (hx : t.fibers.get? f = some x) :
    (t.terminate f x).weigh w + w t.running =
      t.weigh w + w {t.running with code := .spent f} := by
  have h := t.weigh_setFiber w f {x with state := .term, handles := x.handles - 1}
  rw [hx, Option.elim_some] at h
  simp only [Fiber.weigh] at h
  simp only [weigh, terminate, become, setFiber] at h ⊢
  omega

/-- A callback that has completed is its fiber's own, begun and not terminated before. -/
theorem Sound.returned (h : t.Sound hand) (hcode : t.running.code = .returned (.callback f) o) :
    ∃ x, t.fibers.get? f = some x ∧ x.stack ≠ none ∧ x.state ≠ .term := by
  have hf : 0 < t.handlesOf f := running_handle (by
    rw [hcode]
    exact List.count_pos_iff.mpr (List.mem_singleton_self f))
  obtain ⟨x, hx⟩ := h.toCounted.alive (f := f) (by omega)
  have hu := h.unfinished f
  have hle : t.running.code.unfinished.count f ≤ t.unfinished f :=
    Nat.le_trans (Nat.le_add_right _ _) (Nat.le_add_right _ _)
  rw [hcode] at hle
  change [f].count f ≤ _ at hle
  rw [List.count_singleton_self, hu, hx, Option.elim_some, Fiber.due] at hle
  split at hle
  · omega
  · next hdue =>
    rw [not_or] at hdue
    exact ⟨x, hx, hdue.1, hdue.2⟩

theorem Sound.terminate (h : t.Sound hand) (hcode : t.running.code = .returned (.callback f) o)
    (hx : t.fibers.get? f = some x) (hstack : x.stack ≠ none) (hterm : x.state ≠ .term)
    (hn : 1 < x.handles) : (t.terminate f x).Sound hand where
  handles g := by
    have hc := h.handles g
    have hw := weigh_terminate (fun k => k.code.handles.count g) hx
    simp only [hcode] at hw
    change _ + [f].count g = _ + 0 at hw
    rw [get?_terminate]
    show _ = t.slots.total _ + t.root.toList.count g + (t.terminate f x).weigh _ + _
    unfold handlesOf at hc
    split
    · next hg =>
      subst hg
      rw [hx, Option.elim_some] at hc
      rw [List.count_singleton_self] at hw
      simp only [Option.elim_some]
      omega
    · next hg =>
      rw [List.count_singleton, if_neg (by simpa using Ne.symm hg)] at hw
      omega
  positive g y hy := by
    obtain ⟨rfl, rfl⟩ | ⟨-, hy⟩ := Table.set_cases hy
    · exact Nat.sub_pos_of_lt hn
    · exact h.positive g y hy
  root_iff g y hy := by
    obtain ⟨rfl, rfl⟩ | ⟨-, hy⟩ := Table.set_cases hy
    · exact h.root_iff g x hx
    · exact h.root_iff g y hy
  running g y hy hs := by
    obtain ⟨rfl, rfl⟩ | ⟨-, hy⟩ := Table.set_cases hy
    · exact (hstack hs).elim
    · exact h.running g y hy hs
  away g y hy hs := by
    obtain ⟨rfl, rfl⟩ | ⟨-, hy⟩ := Table.set_cases hy
    · exact (hstack hs).elim
    · exact h.away g y hy hs
  unrooted hr := by
    have hp := h.program_iff
    rw [show t.root = none from hr, (h.unrooted hr).1, hcode] at hp
    cases hp.mpr rfl
  program_iff := by
    have hp := h.program_iff
    rw [hcode] at hp
    refine ⟨fun ho => (by cases ho), fun hc => ?_⟩
    cases hp.mpr hc
  ready g y hy hs := by
    obtain ⟨rfl, rfl⟩ | ⟨-, hy⟩ := Table.set_cases hy
    · cases hs
    · exact h.ready g y hy hs
  program g y k hy hs hk := by
    obtain ⟨rfl, rfl⟩ | ⟨-, hy⟩ := Table.set_cases hy
    · exact (hstack hs).elim
    · exact h.program g y k hy hs hk
  callback g y k hy hs hk := by
    obtain ⟨rfl, rfl⟩ | ⟨-, hy⟩ := Table.set_cases hy
    · exact h.callback g x k hx hs hk
    · exact h.callback g y k hy hs hk
  entry g y k e hy hk he := by
    obtain ⟨rfl, rfl⟩ | ⟨-, hy⟩ := Table.set_cases hy
    · exact h.entry g x k e hx hk he
    · exact h.entry g y k e hy hk he
  unfinished g := by
    have hu := h.unfinished g
    have hw := weigh_terminate (fun k => k.code.unfinished.count g) hx
    simp only [hcode] at hw
    change _ + [f].count g = _ + 0 at hw
    rw [get?_terminate]
    unfold Thread.unfinished at hu ⊢
    split
    · next hg =>
      subst hg
      rw [hx, Option.elim_some, Fiber.due, if_neg (by simp [hstack, hterm])] at hu
      rw [List.count_singleton_self] at hw
      rw [Option.elim_some, Fiber.due, if_pos (.inr rfl)]
      omega
    · next hg =>
      rw [List.count_singleton, if_neg (by simpa using Ne.symm hg)] at hw
      omega

/-! ### Renewal -/

/-- The thread with a terminated fiber made ready again. -/
def renew (t : Thread) (f : Nat) (x : Fiber) (serial : Nat) (callback : List Op) : Thread :=
  {t with
    fibers := t.fibers.set f {x with
      state := .ready, context := some ⟨serial, .entry f⟩, callback := some callback}
    lost := x.context.toList ++ t.lost}

theorem get?_renew : (t.renew f x serial callback).fibers.get? g =
    if g = f then
      some {x with state := .ready, context := some ⟨serial, .entry f⟩, callback := some callback}
    else t.fibers.get? g :=
  Table.get?_set ..

theorem weigh_renew (w : Context → Nat) (serial : Nat) (callback : List Op)
    (hx : t.fibers.get? f = some x) :
    (t.renew f x serial callback).weigh w = t.weigh w + w ⟨serial, .entry f⟩ := by
  have h := t.fibers.total_set (Fiber.weigh w) f
    {x with state := .ready, context := some ⟨serial, .entry f⟩, callback := some callback}
  simp only [hx, Option.elim_some, Fiber.weigh] at h
  simp only [weigh, renew, weigh_lost]
  omega

theorem Sound.renew (h : t.Sound hand) (hx : t.fibers.get? f = some x) (hstack : x.stack ≠ none)
    (hterm : x.state = .term) : (t.renew f x serial callback).Sound hand where
  handles g := by
    have hc := h.handles g
    have hw := weigh_renew (fun k => k.code.handles.count g) serial callback hx
    change _ = _ + 0 at hw
    rw [get?_renew]
    show _ = t.slots.total _ + t.root.toList.count g + (t.renew f x serial callback).weigh _ + _
    rw [hw]
    split
    · next hg =>
      subst hg
      rwa [hx] at hc
    · exact hc
  positive g y hy := by
    obtain ⟨rfl, rfl⟩ | ⟨-, hy⟩ := Table.set_cases hy
    · exact h.positive g x hx
    · exact h.positive g y hy
  root_iff g y hy := by
    obtain ⟨rfl, rfl⟩ | ⟨-, hy⟩ := Table.set_cases hy
    · exact h.root_iff g x hx
    · exact h.root_iff g y hy
  running g y hy hs := by
    obtain ⟨rfl, rfl⟩ | ⟨-, hy⟩ := Table.set_cases hy
    · exact (hstack hs).elim
    · exact h.running g y hy hs
  away g y hy hs := by
    obtain ⟨rfl, rfl⟩ | ⟨-, hy⟩ := Table.set_cases hy
    · exact (hstack hs).elim
    · exact h.away g y hy hs
  unrooted hr := by
    have := (h.unrooted hr).2 f x hx
    simp [hterm] at this
  program_iff := h.program_iff
  ready g y hy hs := by
    obtain ⟨rfl, rfl⟩ | ⟨-, hy⟩ := Table.set_cases hy
    · exact ⟨_, rfl, Code.Clear.awake trivial⟩
    · exact h.ready g y hy hs
  program g y k hy hs hk := by
    obtain ⟨rfl, rfl⟩ | ⟨-, hy⟩ := Table.set_cases hy
    · exact (hstack hs).elim
    · exact h.program g y k hy hs hk
  callback g y k hy hs hk := by
    obtain ⟨rfl, rfl⟩ | ⟨-, hy⟩ := Table.set_cases hy
    · cases hk
      exact fun ho => by cases ho
    · exact h.callback g y k hy hs hk
  entry g y k e hy hk he := by
    obtain ⟨rfl, rfl⟩ | ⟨-, hy⟩ := Table.set_cases hy
    · cases hk
      cases he
      rfl
    · exact h.entry g y k e hy hk he
  unfinished g := by
    have hu := h.unfinished g
    have hw := weigh_renew (fun k => k.code.unfinished.count g) serial callback hx
    change (t.renew f x serial callback).unfinished g = t.unfinished g + [f].count g at hw
    rw [hw, hu, get?_renew]
    split
    · next hg =>
      subst hg
      rw [hx, Option.elim_some, Option.elim_some, Fiber.due, Fiber.due, if_pos (.inr hterm),
        if_neg (by simp [hstack]), List.count_singleton_self]
    · next hg => rw [List.count_singleton, if_neg (by simpa using Ne.symm hg), Nat.add_zero]

theorem Attended.renew (h : t.Attended) (hx : t.fibers.get? f = some x) (hterm : x.state = .term) :
    (t.renew f x serial callback).Attended where
  current r hr := by
    obtain ⟨c, y, hc, hy, hs⟩ := h.current r hr
    refine ⟨c, y, hc, ?_, hs⟩
    rw [get?_renew, if_neg, hy]
    rintro rfl
    rw [hx] at hy
    cases hy
    simp [hterm] at hs
  awaited c hc hr := by
    obtain ⟨k, hk, ha⟩ := h.awaited c hc hr
    refine ⟨k, ?_, ha⟩
    rcases hk with hl | ⟨g, y, hy, hs, hk⟩
    · exact .inl (List.mem_append_right _ hl)
    · by_cases hg : g = f
      · subst hg
        rw [hx] at hy
        cases hy
        exact .inl (List.mem_append_left _ (by rw [hk]; exact List.mem_cons_self ..))
      · exact .inr ⟨g, y, by rw [get?_renew, if_neg hg, hy], hs, hk⟩
  starting := h.starting

end Thread

namespace Act
open Process

variable {p : Process} {E : Halt → Process → Prop} {hand : List Nat} {f : Nat} {x : Fiber}

theorem releaseStack_leads (stack : Memory.Stack) :
    (releaseStack stack).Leads p (fun _ q => q.thread.fibers = p.thread.fibers) E := by
  unfold releaseStack
  dsimp only
  cases stack.allocator with
  | source source =>
    simp only [leads_bind, leads_pure, leads_modify, leads_log]
  | tally serial =>
    unfold modifyTally
    simp only [leads_bind, leads_pure, leads_modifyThread, leads_thread]
    split <;> simp only [leads_bind, leads_modify, leads_log]

/-- A terminated task fiber goes without an objection. -/
theorem destroy_leads (hstack : x.stack ≠ none) (hterm : x.state = .term) :
    (destroy f x).Leads p (fun _ q => q.thread.fibers.get? f = none) E := by
  obtain ⟨stack, hstack⟩ := Option.ne_none_iff_exists'.mp hstack
  unfold destroy bury lose
  rw [leads_bind, leads_log, leads_bind, leads_modify, hstack]
  refine leads_bind.mpr (leads_ensure.mpr ⟨fun _ => ?_, fun h => (h hterm).elim⟩)
  simp only [leads_bind, leads_modifyThread]
  refine (releaseStack_leads stack).mono (fun _ q hq => ?_) fun _ _ h => h
  rw [leads_log]
  show q.thread.fibers.get? f = none
  rw [hq]
  exact (Table.get?_erase ..).trans (if_pos rfl)

/-- The end of a callback destroys its fiber exactly if nobody else keeps a handle of it.
Otherwise the fiber has terminated and the root goes on. -/
theorem finish_leads {o : Outcome} (hp : p.thread.Sound hand)
    (hcode : p.thread.running.code = .returned (.callback f) o)
    (hx : p.thread.fibers.get? f = some x) :
    (finish f).Leads p
      (fun _ q => 1 < x.handles ∧ ∃ p₁ r, p.Onward p₁ ∧
        (p.thread.terminate f x).Like p₁.thread ∧ p₁.thread.hub = p.thread.hub ∧
        p₁.thread.root = some r ∧ p₁.Switch r f .term q)
      (fun halt q => x.handles = 1 ∧ halt = .aborted (.rootYielded f) ∧
        q.thread.fibers.get? f = none) := by
  obtain ⟨x', hx', hstack, hterm⟩ := hp.returned hcode
  rw [hx] at hx'
  cases hx'
  have hpos := hp.positive f x hx
  have hget {n : Nat} : ((p.thread.fibers.set f {x with state := .term}).set f
      {x with state := .term, handles := n}).get? f =
        some {x with state := .term, handles := n} := by
    rw [Table.get?_set, if_pos rfl]
  unfold finish release
  rw [leads_bind, leads_modifyFiber hx, leads_bind, leads_modifyThread, leads_bind, leads_bind,
    leads_fiber (x := {x with state := .term})
      ((Table.get?_set ..).trans (if_pos rfl))]
  dsimp only
  split
  · next hn =>
    refine (destroy_leads (x := {x with state := .term}) hstack rfl).mono (fun _ q hq => ?_)
      fun _ _ h => h
    rw [leads_bind, leads_thread, leads_bind, leads_ensure]
    refine ⟨fun halive => ?_, fun _ => ⟨by omega, rfl, hq⟩⟩
    simp [Thread.Alive, hq] at halive
  · next hn =>
    let p₁ : Process := {p with thread := {p.thread.become (.spent f) with
      fibers := (p.thread.fibers.set f {x with state := .term}).set f
        {x with state := .term, handles := x.handles - 1}}}
    have hlike : (p.thread.terminate f x).Like p₁.thread := by
      refine ⟨fun g => ?_, rfl, rfl, rfl, rfl, rfl⟩
      rw [Thread.get?_terminate, Table.get?_set, Table.get?_set]
      split <;> rfl
    have hp₁ : p₁.thread.Sound hand :=
      hlike.sound (hp.terminate hcode hx hstack hterm (by omega))
    rw [leads_setFiber, leads_bind, leads_thread, leads_bind, leads_ensure]
    have halive : p₁.thread.Alive f := Option.isSome_iff_exists.mpr ⟨_, hget⟩
    refine ⟨fun _ => ?_, fun hdead => (hdead halive).elim⟩
    refine (yieldFiber_leads hp₁ hget).mono (fun _ q hq => ?_) fun halt q hq => ?_
    · obtain ⟨-, -, -, r, hr, hswitch⟩ := hq
      exact ⟨by omega, p₁, r, onward_of_names rfl rfl rfl rfl, hlike, rfl, hr, hswitch⟩
    · rcases hq with ⟨hready, -⟩ | ⟨-, hroot, -⟩ | ⟨-, -, hprogram, -⟩
      · cases hready
      · exact (hstack hroot).elim
      · cases hprogram

/-- Only a task fiber that has terminated is reset. -/
theorem resetFiber_leads (callback : List Op) (hx : p.thread.fibers.get? f = some x) :
    (resetFiber f callback).Leads p
      (fun _ q => x.stack ≠ none ∧ x.state = .term ∧
        (p.thread.renew f x p.nextSerial callback).Like q.thread ∧
        q.nextSerial = p.nextSerial + 1 ∧ p.Onward q)
      (fun halt _ => halt.Ordinary) := by
  unfold resetFiber startContext freshSerial lose
  rw [leads_bind, leads_fiber hx, leads_bind, leads_ensure]
  refine ⟨fun hstack => ?_, fun _ => trivial⟩
  rw [leads_bind, leads_ensure]
  refine ⟨fun hterm => ?_, fun _ => trivial⟩
  have hstack : x.stack ≠ none := fun hn => by
    simp [Fiber.isRoot, hn] at hstack
  simp only [leads_bind, leads_modifyThread, leads_get, leads_modify, leads_pure, leads_setFiber,
    leads_log]
  exact ⟨hstack, hterm, .refl _, trivial, Nat.le_refl _, Nat.le_succ _, rfl, rfl⟩

end Act

end Fibers
