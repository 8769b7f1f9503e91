import Fibers.Proofs.Sound

/-! The changes a thread goes through between switches.

Fibers come and go, handles move between slots, code and the hand, and the executing code
goes on: `Sound` and `Attended` survive each of these. -/
namespace Fibers.Thread

variable {t : Thread} {hand rest : List Nat} {f g : Nat} {x y : Fiber}

/-! ### Handles kept elsewhere -/

/-- A fiber with another count of handles or another callback. -/
theorem akin_setFiber (hx : t.fibers.get? f = some x) (n : Nat) (b : Option (List Op)) :
    t.Akin (t.setFiber f {x with handles := n, callback := b}) where
  back g y hy := by
    obtain ⟨rfl, rfl⟩ | ⟨-, hy⟩ := Table.set_cases hy
    · exact ⟨x.handles, x.callback, hx⟩
    · exact ⟨y.handles, y.callback, hy⟩
  forth g y hy := by
    rw [get?_setFiber]
    split
    · next h =>
      rw [h, hx] at hy
      cases hy
      exact ⟨n, b, rfl⟩
    · exact ⟨y.handles, y.callback, hy⟩
  current := rfl
  root := rfl
  lost := rfl
  origin := rfl
  unfinished := rfl
  entry _ hg := hg

theorem handlesOf_setFiber (hx : t.fibers.get? f = some x) (hy : y.context = x.context) :
    (t.setFiber f y).handlesOf g = t.handlesOf g := by
  have h := t.weigh_setFiber (fun k => k.code.handles.count g) f y
  simp only [hx, Option.elim_some, Fiber.weigh, hy] at h
  show t.slots.total _ + t.root.toList.count g + (t.setFiber f _).weigh _ = _ + _ + t.weigh _
  omega

theorem Counted.setFiber (h : t.Counted hand) (hx : t.fibers.get? f = some x)
    (hy : y.context = x.context) (hpos : 0 < y.handles)
    (hn : y.handles + hand.count f = x.handles + rest.count f)
    (hrest : ∀ g, g ≠ f → rest.count g = hand.count g) : (t.setFiber f y).Counted rest where
  handles g := by
    rw [handlesOf_setFiber hx hy, get?_setFiber]
    have hc := h.handles g
    split
    · next hg =>
      subst hg
      rw [hx, Option.elim_some] at hc
      simp only [Option.elim_some]
      omega
    · next hg => rw [hc, hrest g hg]
  positive g y hy := by
    obtain ⟨rfl, rfl⟩ | ⟨-, hy⟩ := Table.set_cases hy
    · exact hpos
    · exact h.positive g y hy

theorem Counted.retain (h : t.Counted hand) (hx : t.fibers.get? f = some x) :
    (t.setFiber f {x with handles := x.handles + 1}).Counted (f :: hand) := by
  refine h.setFiber hx rfl (Nat.succ_pos _) ?_ fun g hg => List.count_cons_of_ne (Ne.symm hg)
  rw [List.count_cons_self]
  simp only
  omega

theorem Counted.release (h : t.Counted (f :: hand)) (hx : t.fibers.get? f = some x)
    (hn : 1 < x.handles) :
    (t.setFiber f {x with handles := x.handles - 1}).Counted hand := by
  refine h.setFiber hx rfl (Nat.sub_pos_of_lt hn) ?_
    fun g hg => (List.count_cons_of_ne (Ne.symm hg)).symm
  rw [List.count_cons_self]
  simp only
  omega

theorem Counted.setCallback (h : t.Counted hand) (hx : t.fibers.get? f = some x)
    (callback : Option (List Op)) : (t.setFiber f {x with callback}).Counted hand :=
  h.setFiber hx rfl (h.positive f x hx) rfl fun _ _ => rfl

theorem slots_akin (t : Thread) (slots : Table String Nat) : t.Akin {t with slots} where
  back _ y hy := ⟨y.handles, y.callback, hy⟩
  forth _ x hx := ⟨x.handles, x.callback, hx⟩
  current := rfl
  root := rfl
  lost := rfl
  origin := rfl
  unfinished := rfl
  entry _ hg := hg

theorem count_cons (f : Nat) (hand : List Nat) (g : Nat) :
    (f :: hand).count g = [f].count g + hand.count g := by
  rw [← List.count_append]
  rfl

theorem Counted.put (h : t.Counted (f :: hand)) (s : String) :
    ({t with slots := t.slots.set s f} : Thread).Counted
      ((t.slots.get? s).toList ++ hand) where
  handles g := by
    have hc := h.handles g
    have hset := t.slots.total_set (fun g' => [g'].count g) s f
    rw [count_cons] at hc
    simp only [handlesOf, weigh, List.count_append] at hc ⊢
    cases hs : t.slots.get? s <;>
      simp only [hs, Option.elim_none, Option.elim_some, Option.toList_none, Option.toList_some,
        List.count_nil] at hset ⊢ <;> omega
  positive := h.positive

theorem Counted.take (h : t.Counted hand) {s : String} (hs : t.slots.get? s = some f) :
    ({t with slots := t.slots.erase s} : Thread).Counted (f :: hand) where
  handles g := by
    have hc := h.handles g
    have herase := t.slots.total_erase (fun g' => [g'].count g) s
    rw [hs, Option.elim_some] at herase
    rw [count_cons]
    simp only [handlesOf, weigh] at hc ⊢
    omega
  positive := h.positive

/-! ### The executing code goes on -/

theorem become_akin {code : Code} (ho : code.origin = t.running.code.origin)
    (hu : code.unfinished = t.running.code.unfinished) (he : ∀ g, code ≠ .entry g) :
    t.Akin (t.become code) where
  back _ y hy := ⟨y.handles, y.callback, hy⟩
  forth _ x hx := ⟨x.handles, x.callback, hx⟩
  current := rfl
  root := rfl
  lost := rfl
  origin := ho
  unfinished := hu
  entry g hg := (he g hg).elim

theorem Counted.become (h : t.Counted hand) {code : Code}
    (hc : ∀ f, code.handles.count f + rest.count f =
      t.running.code.handles.count f + hand.count f) : (t.become code).Counted rest where
  handles f := by
    have ht := h.handles f
    have hc := hc f
    simp only [handlesOf, weigh, Thread.become] at ht ⊢
    omega
  positive := h.positive

/-! ### A terminated fiber goes -/

theorem handlesOf_bury (hx : t.fibers.get? f = some x) :
    (t.bury f x).handlesOf g = t.handlesOf g := by
  have h := weigh_bury (fun k => k.code.handles.count g) hx
  show t.slots.total _ + t.root.toList.count g + (t.bury f x).weigh _ = _ + _ + t.weigh _
  omega

theorem Counted.bury (h : t.Counted (f :: hand)) (hx : t.fibers.get? f = some x)
    (hn : x.handles ≤ 1) : (t.bury f x).Counted hand where
  handles g := by
    have hc := h.handles g
    rw [handlesOf_bury hx, get?_bury]
    rw [count_cons] at hc
    split
    · next hg =>
      subst hg
      rw [hx, Option.elim_some, List.count_singleton_self] at hc
      rw [Option.elim_none]
      omega
    · next hg =>
      rw [List.count_singleton, if_neg (by simpa using Ne.symm hg)] at hc
      omega
  positive g y hy := h.positive g y (Table.erase_cases hy).2

/-- With its last handle in the hand, nothing on the thread keeps a fiber. -/
theorem Counted.unkept (h : t.Counted (f :: hand)) (hx : t.fibers.get? f = some x)
    (hn : x.handles ≤ 1) : t.handlesOf f = 0 := by
  have hc := h.handles_eq hx
  rw [List.count_cons_self] at hc
  omega

/-- A thread that gives up its root has the handle it kept in hand. -/
theorem Counted.uproot (h : t.Counted hand) (hr : t.root = some f) (current : Option Nat) :
    ({t with root := none, current} : Thread).Counted (f :: hand) where
  handles g := by
    have hc := h.handles g
    rw [count_cons]
    simp only [handlesOf, weigh, hr, Option.toList_some, Option.toList_none, List.count_nil] at hc ⊢
    omega
  positive := h.positive

/-- The thread keeps a handle of its root, so what goes with its last handle is a task. -/
theorem Sound.last_task (h : t.Sound (f :: hand)) (hx : t.fibers.get? f = some x)
    (hn : x.handles ≤ 1) : x.stack ≠ none := by
  intro hnone
  have := Counted.root_handle ((h.root_iff f x hx).mp hnone)
  have := h.toCounted.unkept hx hn
  omega

theorem Rooted.bury (h : t.Rooted) : (t.bury f x).Rooted where
  root_iff g y hy := h.root_iff g y (Table.erase_cases hy).2
  running g y hy := h.running g y (Table.erase_cases hy).2
  away g y hy := h.away g y (Table.erase_cases hy).2
  unrooted hr := ⟨(h.unrooted hr).1, fun g y hy => (h.unrooted hr).2 g y (Table.erase_cases hy).2⟩
  program_iff := h.program_iff

theorem Stored.bury (h : t.Stored) : (t.bury f x).Stored where
  ready g y hy := h.ready g y (Table.erase_cases hy).2
  program g y k hy := h.program g y k (Table.erase_cases hy).2
  callback g y k hy := h.callback g y k (Table.erase_cases hy).2
  entry g y k e hy := h.entry g y k e (Table.erase_cases hy).2

theorem Begun.bury (h : t.Begun) (hx : t.fibers.get? f = some x) (hs : x.state = .term) :
    (t.bury f x).Begun where
  unfinished g := by
    have hu := h.unfinished g
    unfold Thread.unfinished at hu ⊢
    rw [weigh_bury _ hx, get?_bury, hu]
    split
    · next hg =>
      subst hg
      rw [hx, Option.elim_some, Fiber.due, if_pos (.inr hs)]
      rfl
    · rfl

theorem frozen_bury (hx : t.fibers.get? f = some x) {k : Context} (hk : t.Frozen k) :
    (t.bury f x).Frozen k := by
  rcases hk with hl | ⟨g, y, hy, hs, hc⟩
  · exact .inl (List.mem_append_right _ hl)
  · by_cases hg : g = f
    · subst hg
      rw [hx] at hy
      cases hy
      exact .inl (List.mem_append_left _ (by rw [hc]; exact List.mem_cons_self ..))
    · exact .inr ⟨g, y, by rw [get?_bury, if_neg hg, hy], hs, hc⟩

theorem awaited_handle {k : Context} (hk : k.code.awaited = some f) :
    0 < k.code.handles.count f := by
  unfold Code.awaited at hk
  split at hk
  · next held _ _ heq =>
    cases hk
    rw [heq, List.count_pos_iff]
    simp [Code.handles, Task.handles]
  · cases hk

/-- A fiber that a frozen `resume` waits for is kept. -/
theorem Frozen.kept {k : Context} (h : t.Frozen k) (hk : k.code.awaited = some f) :
    t.running.code.handles.count f < t.handlesOf f := by
  have := h.le_weigh fun k => k.code.handles.count f
  have := awaited_handle hk
  unfold handlesOf
  omega

theorem Attended.kept (h : t.Attended) (hc : t.current = some f) : 0 < t.handlesOf f := by
  by_cases hr : t.root = some f
  · exact Counted.root_handle hr
  · obtain ⟨k, hk, ha⟩ := h.awaited f hc hr
    have := hk.kept ha
    omega

theorem Attended.bury (h : t.Attended) (hx : t.fibers.get? f = some x)
    (hf : t.handlesOf f = 0) : (t.bury f x).Attended where
  current r hr := by
    obtain ⟨c, y, hc, hy, hs⟩ := h.current r hr
    have hne : c ≠ f := by
      rintro rfl
      have := h.kept hc
      omega
    exact ⟨c, y, hc, by rw [get?_bury, if_neg hne, hy], hs⟩
  awaited c hc hr := by
    obtain ⟨k, hk, ha⟩ := h.awaited c hc hr
    exact ⟨k, frozen_bury hx hk, ha⟩
  starting := h.starting

/-! ### A fiber comes -/

section Arrival

variable (stack : Memory.Stack) (serial : Nat) (callback : List Op) (scheduled : Bool)

theorem weigh_arrival (hf : t.fibers.get? f = none) (w : Context → Nat) :
    (t.setFiber f x).weigh w = t.weigh w + x.weigh w := by
  have h := t.weigh_setFiber w f x
  rw [hf, Option.elim_none] at h
  omega

/-- What is read of each fiber, with what is read of the new one. -/
theorem elim_arrival (hf : t.fibers.get? f = none) (w : Fiber → Nat) (g : Nat) :
    ((t.setFiber f x).fibers.get? g).elim 0 w =
      (t.fibers.get? g).elim 0 w + w x * [f].count g := by
  rw [get?_setFiber]
  by_cases hg : g = f
  · subst hg
    simp [hf]
  · simp [hg, Ne.symm hg]

theorem get?_arrival (hf : t.fibers.get? f = none) (hy : t.fibers.get? g = some y) :
    (t.setFiber f x).fibers.get? g = some y := by
  have hne : g ≠ f := by
    rintro rfl
    simp [hf] at hy
  rw [get?_setFiber, if_neg hne, hy]

theorem frozen_arrival (hf : t.fibers.get? f = none) {k : Context} (hk : t.Frozen k) :
    (t.setFiber f x).Frozen k := by
  rcases hk with hl | ⟨g, y, hy, hs, hc⟩
  · exact .inl hl
  · exact .inr ⟨g, y, get?_arrival hf hy, hs, hc⟩

theorem Counted.create (h : t.Counted hand) (hf : t.fibers.get? f = none) :
    (t.setFiber f (.task stack ⟨serial, .entry f⟩ callback scheduled)).Counted (f :: hand) where
  handles g := by
    have hc := h.handles g
    have hw : (t.setFiber f (.task stack ⟨serial, .entry f⟩ callback scheduled)).weigh
        (fun k => k.code.handles.count g) = t.weigh (fun k => k.code.handles.count g) + 0 :=
      weigh_arrival hf _
    rw [elim_arrival hf, hc, count_cons f hand]
    unfold handlesOf
    rw [hw]
    show _ + 1 * [f].count g = t.slots.total _ + t.root.toList.count g + _ + _
    omega
  positive g y hy := by
    obtain ⟨rfl, rfl⟩ | ⟨-, hy⟩ := Table.set_cases hy
    · exact Nat.one_pos
    · exact h.positive g y hy

theorem Rooted.create (h : t.Rooted) (hr : t.root ≠ some f) :
    (t.setFiber f (.task stack ⟨serial, .entry f⟩ callback scheduled)).Rooted where
  root_iff g y hy := by
    obtain ⟨rfl, rfl⟩ | ⟨-, hy⟩ := Table.set_cases hy
    · exact ⟨fun hs => (by cases hs), fun h => (hr h).elim⟩
    · exact h.root_iff g y hy
  running g y hy hs := by
    obtain ⟨rfl, rfl⟩ | ⟨-, hy⟩ := Table.set_cases hy
    · cases hs
    · exact h.running g y hy hs
  away g y hy hs := by
    obtain ⟨rfl, rfl⟩ | ⟨-, hy⟩ := Table.set_cases hy
    · cases hs
    · exact h.away g y hy hs
  unrooted hr := by
    refine ⟨(h.unrooted hr).1, fun g y hy => ?_⟩
    obtain ⟨rfl, rfl⟩ | ⟨-, hy⟩ := Table.set_cases hy
    · rfl
    · exact (h.unrooted hr).2 g y hy
  program_iff := h.program_iff

theorem Stored.create (h : t.Stored) :
    (t.setFiber f (.task stack ⟨serial, .entry f⟩ callback scheduled)).Stored where
  ready g y hy hs := by
    obtain ⟨rfl, rfl⟩ | ⟨-, hy⟩ := Table.set_cases hy
    · exact ⟨_, rfl, Code.Clear.awake trivial⟩
    · exact h.ready g y hy hs
  program g y k hy hs hk := by
    obtain ⟨rfl, rfl⟩ | ⟨-, hy⟩ := Table.set_cases hy
    · cases hs
    · exact h.program g y k hy hs hk
  callback g y k hy hs hk := by
    obtain ⟨rfl, rfl⟩ | ⟨-, hy⟩ := Table.set_cases hy
    · cases hk
      exact fun h => by cases h
    · exact h.callback g y k hy hs hk
  entry g y k e hy hk he := by
    obtain ⟨rfl, rfl⟩ | ⟨-, hy⟩ := Table.set_cases hy
    · cases hk
      cases he
      rfl
    · exact h.entry g y k e hy hk he

theorem Begun.create (h : t.Begun) (hf : t.fibers.get? f = none) :
    (t.setFiber f (.task stack ⟨serial, .entry f⟩ callback scheduled)).Begun where
  unfinished g := by
    have hu := h.unfinished g
    have hw : (t.setFiber f (.task stack ⟨serial, .entry f⟩ callback scheduled)).unfinished g =
        t.unfinished g + [f].count g :=
      weigh_arrival hf _
    rw [elim_arrival hf, hw, hu]
    show _ = _ + 1 * [f].count g
    omega

theorem Attended.create (h : t.Attended) (hf : t.fibers.get? f = none) :
    (t.setFiber f x).Attended where
  current r hr := by
    obtain ⟨c, y, hc, hy, hs⟩ := h.current r hr
    exact ⟨c, y, hc, get?_arrival hf hy, hs⟩
  awaited c hc hr := by
    obtain ⟨k, hk, ha⟩ := h.awaited c hc hr
    exact ⟨k, frozen_arrival hf hk, ha⟩
  starting := h.starting

end Arrival

/-! ### The root comes -/

theorem weigh_addRoot (hf : t.fibers.get? f = none) (w : Context → Nat) :
    (t.addRoot f).weigh w = t.weigh w :=
  weigh_arrival (x := .root) hf w

theorem Counted.addRoot (h : t.Counted hand) (hr : t.root = none) (hf : t.fibers.get? f = none) :
    (t.addRoot f).Counted hand where
  handles g := by
    have hc := h.handles g
    have he := elim_arrival (x := .root) hf Fiber.handles g
    change ((t.addRoot f).fibers.get? g).elim 0 _ = _ + 1 * [f].count g at he
    rw [he, hc]
    simp only [handlesOf, hr, Option.toList_none, List.count_nil]
    rw [weigh_addRoot hf]
    show _ = t.slots.total _ + [f].count g + _ + _
    omega
  positive g y hy := by
    obtain ⟨rfl, rfl⟩ | ⟨-, hy⟩ := Table.set_cases hy
    · exact Nat.one_pos
    · exact h.positive g y hy

theorem Rooted.addRoot (h : t.Rooted) (hr : t.root = none) : (t.addRoot f).Rooted where
  root_iff g y hy := by
    obtain ⟨rfl, rfl⟩ | ⟨hg, hy⟩ := Table.set_cases hy
    · exact ⟨fun _ => rfl, fun _ => rfl⟩
    · have hs : y.stack ≠ none := fun hs => by
        simp [h.root_iff g y hy, hr] at hs
      exact ⟨fun h => (hs h).elim, fun h => (hg (Option.some.inj h).symm).elim⟩
  running g y hy hs := by
    obtain ⟨rfl, rfl⟩ | ⟨-, hy⟩ := Table.set_cases hy
    · rfl
    · exact h.running g y hy hs
  away g y hy hs := by
    obtain ⟨rfl, rfl⟩ | ⟨-, hy⟩ := Table.set_cases hy
    · exact ⟨fun _ => rfl, fun _ => rfl⟩
    · simp [h.root_iff g y hy, hr] at hs
  unrooted hr := by cases hr
  program_iff := by
    have hp := h.program_iff
    rw [hr, (h.unrooted hr).1] at hp
    exact ⟨fun _ => rfl, fun _ => hp.mpr rfl⟩

theorem Stored.addRoot (h : t.Stored) : (t.addRoot f).Stored where
  ready g y hy hs := by
    obtain ⟨rfl, rfl⟩ | ⟨-, hy⟩ := Table.set_cases hy
    · cases hs
    · exact h.ready g y hy hs
  program g y k hy hs hk := by
    obtain ⟨rfl, rfl⟩ | ⟨-, hy⟩ := Table.set_cases hy
    · cases hk
    · exact h.program g y k hy hs hk
  callback g y k hy hs hk := by
    obtain ⟨rfl, rfl⟩ | ⟨-, hy⟩ := Table.set_cases hy
    · cases hk
    · exact h.callback g y k hy hs hk
  entry g y k e hy hk he := by
    obtain ⟨rfl, rfl⟩ | ⟨-, hy⟩ := Table.set_cases hy
    · cases hk
    · exact h.entry g y k e hy hk he

theorem Begun.addRoot (h : t.Begun) (hf : t.fibers.get? f = none) : (t.addRoot f).Begun where
  unfinished g := by
    have hu := h.unfinished g
    have he := elim_arrival (x := .root) hf Fiber.due g
    change ((t.addRoot f).fibers.get? g).elim 0 _ = _ + 0 * [f].count g at he
    unfold Thread.unfinished at hu ⊢
    rw [weigh_addRoot hf, hu, he]
    omega

theorem Attended.addRoot (h : t.Rooted) (hr : t.root = none) : (t.addRoot f).Attended where
  current r hr := ⟨f, .root, rfl, by rw [get?_addRoot, if_pos rfl], rfl⟩
  awaited c hc hne := (hne hc).elim
  starting g hg := by
    have hp := h.program_iff
    rw [hr, (h.unrooted hr).1, show t.running.code = .entry g from hg] at hp
    cases hp.mpr rfl

end Fibers.Thread
