import Fibers.Proofs.Move

/-! What stays with a thread between switches.

Moves leave more alone than `Calm` says. A thread keeps its root, code stays with whom it belongs,
a fiber's callback is taken only by the start that executes, and no context is lost but those of
terminated fibers. `Still` collects this for the operations that do not end a thread. -/
namespace Fibers
namespace Process

structure Still (p q : Process) : Prop extends Calm p q where
  root : ∀ r, p.thread.root = some r → q.thread.root = some r
  current : ∀ c, p.thread.current = some c → q.thread.current = some c
  origin : q.thread.running.code.origin = p.thread.running.code.origin
  entry : ∀ f, q.thread.running.code = .entry f → p.thread.running.code = .entry f
  /-- A start that has gone on has taken its callback. -/
  begun : ∀ f x y, p.thread.running.code = .entry f → p.thread.fibers.get? f = some x →
    q.thread.fibers.get? f = some y → q.thread.running.code = .entry f ∨ y.callback = none
  callback : ∀ f x y, p.thread.fibers.get? f = some x → q.thread.fibers.get? f = some y →
    y.callback = x.callback ∨ p.thread.running.code = .entry f ∧ y.callback = none ∧
      ∀ g, q.thread.running.code ≠ .entry g
  /-- Only what has terminated goes, besides roots. -/
  stays : ∀ f x, p.thread.fibers.get? f = some x → x.stack ≠ none → x.state ≠ .term →
    ∃ y, q.thread.fibers.get? f = some y
  /-- A new task has a callback. -/
  new : ∀ f y, p.thread.fibers.get? f = none → q.thread.fibers.get? f = some y →
    (y.callback = none ↔ y.stack = none)
  lost : ∀ k ∈ q.thread.lost, k ∈ p.thread.lost ∨ ∃ f x, p.thread.fibers.get? f = some x ∧
    x.stack ≠ none ∧ x.state = .term ∧ x.context = some k

variable {p q r : Process} {hand hand' : List Nat} {f : Nat} {x y : Fiber}

/-- A fiber that is there and is not new was there before. -/
theorem Calm.between (h : p.Calm q) (hlow : f < p.nextId) (hy : q.thread.fibers.get? f = some y) :
    Kept p.thread f y := by
  rcases h.fibers f y hy with hkept | hm
  · exact hkept
  · have := hm.low
    omega

/-- There is no fiber yet under an id that was not given. -/
theorem fresh_of_low (hp : p.thread.Steady p.nextId hand) (hlow : p.nextId ≤ f) :
    p.thread.fibers.get? f = none := by
  cases hx : p.thread.fibers.get? f with
  | none => rfl
  | some x => exact (Nat.not_lt.mpr hlow (hp.below f x hx)).elim

theorem Still.trans (hp : p.thread.Steady p.nextId hand) (h : p.Still q) (h' : q.Still r) :
    p.Still r where
  toCalm := h.toCalm.trans h'.toCalm
  root a ha := h'.root a (h.root a ha)
  current c hc := h'.current c (h.current c hc)
  origin := h'.origin.trans h.origin
  entry f hf := h.entry f (h'.entry f hf)
  begun f x z hf hx hz := by
    have hlow := Nat.lt_of_lt_of_le (hp.below f x hx) h.onward.nextId
    obtain ⟨y, hy, -⟩ := h'.between hlow hz
    rcases h.begun f x y hf hx hy with hf' | hnone
    · exact h'.begun f y z hf' hy hz
    · rcases h'.callback f y z hy hz with hsame | ⟨-, hnone', -⟩
      · exact .inr (hsame.trans hnone)
      · exact .inr hnone'
  callback f x z hx hz := by
    have hlow := Nat.lt_of_lt_of_le (hp.below f x hx) h.onward.nextId
    obtain ⟨y, hy, -⟩ := h'.between hlow hz
    rcases h'.callback f y z hy hz with hsame | ⟨hf, hnone⟩
    · rcases h.callback f x y hx hy with hsame' | ⟨hf, hnone, he⟩
      · exact .inl (hsame.trans hsame')
      · exact .inr ⟨hf, hsame.trans hnone, fun g hg => he g (h'.entry g hg)⟩
    · exact .inr ⟨h.entry f hf, hnone⟩
  stays f x hx hstack hterm := by
    obtain ⟨y, hy⟩ := h.stays f x hx hstack hterm
    obtain ⟨x', hx', hstate, hstack', -⟩ := h.between (hp.below f x hx) hy
    rw [hx] at hx'
    cases hx'
    exact h'.stays f y hy (hstack' ▸ hstack) (hstate ▸ hterm)
  new f z hf hz := by
    cases hy : q.thread.fibers.get? f with
    | none => exact h'.new f z hy hz
    | some y =>
      obtain ⟨y', hy', -, hstack, -⟩ := h'.between (h.toCalm.below hp.below f y hy) hz
      rw [hy] at hy'
      cases hy'
      rcases h'.callback f y z hy hz with hsame | ⟨hentry, -⟩
      · rw [hstack, hsame]
        exact h.new f y hf hy
      · -- A start executes only while its fiber is there.
        obtain ⟨-, x, hx, -⟩ := hp.current_running (hp.starting f (h.entry f hentry))
        simp [hf] at hx
  lost k hk := by
    rcases h'.lost k hk with hk | ⟨f, y, hy, hstack, hterm, hcontext⟩
    · exact h.lost k hk
    · rcases h.fibers f y hy with ⟨x, hx, hstate, hstack', hcontext'⟩ | hm
      · exact .inr ⟨f, x, hx, hstack' ▸ hstack, hstate ▸ hterm, hcontext' ▸ hcontext⟩
      · have hready := hm.state
        simp [hstack, hterm] at hready

/-- Where only handles, slots and belongings change, all of it stays. -/
theorem still_of_fibers (h : p.Calm q) (hroot : q.thread.root = p.thread.root)
    (hcurrent : q.thread.current = p.thread.current)
    (hrun : q.thread.running = p.thread.running) (hlost : q.thread.lost = p.thread.lost)
    (hfibers : ∀ f, (q.thread.fibers.get? f).map Fiber.callback =
      (p.thread.fibers.get? f).map Fiber.callback) : p.Still q where
  toCalm := h
  root _ hr := hroot.trans hr
  current _ hc := hcurrent.trans hc
  origin := by rw [hrun]
  entry _ hf := hrun ▸ hf
  begun _ _ _ hf _ _ := .inl (hrun ▸ hf)
  callback f x y hx hy := by
    have := hfibers f
    rw [hx, hy] at this
    exact .inl (Option.some.inj this)
  stays f x hx _ _ := by
    have := hfibers f
    rw [hx, Option.map_some] at this
    obtain ⟨y, hy, -⟩ := Option.map_eq_some_iff.mp this
    exact ⟨y, hy⟩
  new f y hf hy := by
    have := hfibers f
    simp [hf, hy] at this
  lost _ hk := .inl (hlost ▸ hk)

/-- The executing code goes on, and not from a start. -/
theorem still_of_become {code : Code} (h : p.Calm q) (ht : (p.thread.become code).Like q.thread)
    (ho : code.origin = p.thread.running.code.origin) (he : ∀ f, code ≠ .entry f)
    (hs : ∀ f, p.thread.running.code ≠ .entry f) : p.Still q where
  toCalm := h
  root _ hr := ht.root.trans hr
  current _ hc := ht.current.trans hc
  origin := by
    rw [ht.running]
    exact ho
  entry f hf := by
    rw [ht.running] at hf
    exact (he f hf).elim
  begun f _ _ hf _ _ := (hs f hf).elim
  callback f x y hx hy := by
    rw [ht.fibers] at hy
    rw [show p.thread.fibers.get? f = some y from hy] at hx
    cases hx
    exact .inl rfl
  stays f x hx _ _ := ⟨x, (ht.fibers f).trans hx⟩
  new f y hf hy := by
    rw [ht.fibers, show (p.thread.become code).fibers.get? f = none from hf] at hy
    cases hy
  lost _ hk := .inl (ht.lost ▸ hk)

/-- A fiber with another count of handles. -/
theorem still_of_handles {n : Nat} (h : p.Calm q) (hx : p.thread.fibers.get? f = some x)
    (ht : (p.thread.setFiber f {x with handles := n}).Like q.thread) : p.Still q := by
  refine still_of_fibers h ht.root ht.current ht.running ht.lost fun g => ?_
  rw [ht.fibers, Thread.get?_setFiber]
  by_cases hg : g = f
  · rw [if_pos hg, hg, hx]
    rfl
  · rw [if_neg hg]

theorem still_of_bury (h : p.Calm q) (hx : p.thread.fibers.get? f = some x)
    (hstack : x.stack ≠ none) (hterm : x.state = .term)
    (ht : (p.thread.bury f x).Like q.thread) : p.Still q where
  toCalm := h
  root _ hr := ht.root.trans hr
  current _ hc := ht.current.trans hc
  origin := by rw [ht.running]; rfl
  entry _ hf := by rwa [ht.running] at hf
  begun _ _ _ hf _ _ := .inl (by rwa [ht.running])
  callback g z y hz hy := by
    rw [ht.fibers] at hy
    rw [(Table.erase_cases hy).2] at hz
    cases hz
    exact .inl rfl
  stays g z hz _ hstate := by
    have hne : g ≠ f := by
      rintro rfl
      rw [hx] at hz
      cases hz
      exact hstate hterm
    exact ⟨z, (ht.fibers g).trans (Thread.get?_bury.trans ((if_neg hne).trans hz))⟩
  new g y hg hy := by
    rw [ht.fibers] at hy
    rw [(Table.erase_cases hy).2] at hg
    cases hg
  lost k hk := by
    rw [ht.lost] at hk
    rcases List.mem_append.mp hk with hk | hk
    · exact .inr ⟨f, x, hx, hstack, hterm, Option.mem_toList.mp hk⟩
    · exact .inl hk

/-- A fiber that was not there comes, as a task with its callback or as the root. -/
theorem still_of_arrival (h : p.Calm q) (hf : p.thread.fibers.get? f = none)
    (hx : x.callback = none ↔ x.stack = none)
    (hfibers : ∀ g, q.thread.fibers.get? g = (p.thread.setFiber f x).fibers.get? g)
    (hroot : ∀ r, p.thread.root = some r → q.thread.root = some r)
    (hcurrent : ∀ c, p.thread.current = some c → q.thread.current = some c)
    (hrun : q.thread.running = p.thread.running) (hlost : q.thread.lost = p.thread.lost) :
    p.Still q where
  toCalm := h
  root := hroot
  current := hcurrent
  origin := by rw [hrun]
  entry _ he := hrun ▸ he
  begun _ _ _ he _ _ := .inl (hrun ▸ he)
  callback g z y hz hy := by
    rw [hfibers, Thread.get?_arrival hf hz] at hy
    cases hy
    exact .inl rfl
  stays g z hz _ _ := ⟨z, (hfibers g).trans (Thread.get?_arrival hf hz)⟩
  new g y hg hy := by
    rw [hfibers] at hy
    obtain ⟨rfl, rfl⟩ | ⟨-, hy⟩ := Table.set_cases hy
    · exact hx
    · simp [hg] at hy
  lost _ hk := .inl (hlost ▸ hk)

theorem still_of_begin {callback : List Op} (h : p.Calm q)
    (hcode : p.thread.running.code = .entry f) (hx : p.thread.fibers.get? f = some x)
    (ht : (p.thread.begin f x callback).Like q.thread) : p.Still q where
  toCalm := h
  root _ hr := ht.root.trans hr
  current _ hc := ht.current.trans hc
  origin := by
    rw [ht.running, hcode]
    rfl
  entry g hg := by
    rw [ht.running] at hg
    cases hg
  begun g z y hg hz hy := by
    rw [hcode] at hg
    cases hg
    rw [ht.fibers] at hy
    obtain ⟨-, rfl⟩ | ⟨hne, -⟩ := Table.set_cases hy
    · exact .inr rfl
    · exact (hne rfl).elim
  callback g z y hz hy := by
    rw [ht.fibers] at hy
    obtain ⟨rfl, rfl⟩ | ⟨-, hy⟩ := Table.set_cases hy
    · refine .inr ⟨hcode, rfl, fun g hg => ?_⟩
      rw [ht.running] at hg
      cases hg
    · rw [hz] at hy
      cases hy
      exact .inl rfl
  stays g z hz _ _ := by
    rw [ht.fibers]
    show ∃ y, (p.thread.setFiber f _).fibers.get? g = some y
    rw [Thread.get?_setFiber]
    split
    · exact ⟨_, rfl⟩
    · exact ⟨z, hz⟩
  new g y hg hy := by
    rw [ht.fibers] at hy
    obtain ⟨rfl, -⟩ | ⟨-, hy⟩ := Table.set_cases hy
    · simp [hg] at hx
    · simp [hg] at hy
  lost _ hk := .inl (ht.lost ▸ hk)

/-- Moves change nothing else. -/
theorem Move.still (h : Move hand p hand' q) (hp : p.thread.Steady p.nextId hand) : p.Still q := by
  have hcalm := h.calm hp.below
  induction h with
  | quiet ht hq =>
    exact still_of_fibers hcalm ht.root ht.current ht.running ht.lost
      fun f => congrArg _ (ht.fibers f)
  | retain hx ht hq => exact still_of_handles hcalm hx ht
  | release hx hn ht hq => exact still_of_handles hcalm hx ht
  | @destroy hand p q f x hx hn hs ht hq =>
    have hstack := hp.toSound.last_task hx hn
    exact still_of_bury hcalm hx hstack (hs hstack) ht
  | begin hcode hx _ ht hq => exact still_of_begin hcalm hcode hx ht
  | put s ht hq =>
    exact still_of_fibers hcalm ht.root ht.current ht.running ht.lost
      fun f => congrArg _ (ht.fibers f)
  | take hs ht hq =>
    exact still_of_fibers hcalm ht.root ht.current ht.running ht.lost
      fun f => congrArg _ (ht.fibers f)
  | go h ht hq => exact still_of_become hcalm ht h.origin h.entry h.started
  | create stack callback scheduled hid hlow hhigh ht hq =>
    exact still_of_arrival hcalm (Thread.fresh_of_below hp.below) (by simp [Fiber.task]) ht.fibers
      (fun _ hr => ht.root.trans hr) (fun _ hc => ht.current.trans hc) ht.running ht.lost
  | root hc hid ht hq =>
    refine still_of_arrival hcalm (Thread.fresh_of_below hp.below) (by simp [Fiber.root]) ht.fibers
      (fun r hr => ?_) (fun c hc' => ?_) ht.running ht.lost
    · simp [hp.toAttended.root_none hc] at hr
    · simp [hc] at hc'
  | trans h h' ih ih' =>
    have hsteady := h.steady hp
    exact (ih hp (h.calm hp.below)).trans hp (ih' hsteady (h'.calm hsteady.below))

end Process
end Fibers
