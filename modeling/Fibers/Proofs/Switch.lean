import Fibers.Proofs.Change

/-! A switch of a thread.

The executing code comes to rest in the fiber `home`, and the code that rested in `source`
continues, with that fiber current. Switching into a fiber and out of one are the same
change; what they need in common is `Fits`, and a thread that fits stays in order. -/
namespace Fibers.Thread

/-- The thread after a switch that leaves `home` in a certain state. -/
def switch (t : Thread) (source : Nat) (x : Fiber) (target : Context) (home : Nat) (y : Fiber)
    (state : State) (serial : Nat) : Thread :=
  {t.handOver source {x with state := .running} target home {y with state} serial with
    current := some source}

/-- What a switch finds in the two fibers, and what it needs of them. -/
structure Fits (t : Thread) (source : Nat) (x : Fiber) (target : Context) (home : Nat) (y : Fiber)
    (state : State) : Prop where
  there : t.fibers.get? source = some x
  here : t.fibers.get? home = some y
  apart : home ≠ source
  rests : x.context = some target
  /-- A switch leaves the current fiber or goes to the root. -/
  leaves : t.root = some source ∨ t.current = some home
  rooted : t.root ≠ none
  alive : x.state ≠ .term
  /-- A root stays running, and what has terminated stays so. -/
  root : y.stack = none → state = .running
  term : y.stack ≠ none → (state = .term ↔ y.state = .term)
  /-- The program rests in the root and nowhere else. -/
  program : y.stack = none ↔ t.running.code.origin = .program
  entry : ∀ g, t.running.code ≠ .entry g
  awake : state = .ready ∨ y.stack = none → t.running.code.Awake

variable {t : Thread} {hand : List Nat} {source home serial f : Nat} {x y z : Fiber}
  {target : Context} {state : State}

theorem switch_cases
    (hz : (t.switch source x target home y state serial).fibers.get? f = some z) :
    (f = home ∧ z = {y with state, context := some ⟨serial, t.running.code⟩}) ∨
    (f = source ∧ z = {x with state := .running, context := none}) ∨
    (f ≠ home ∧ f ≠ source ∧ t.fibers.get? f = some z) := by
  simp only [switch, handOver, Table.get?_set] at hz
  split at hz
  · next h =>
    cases hz
    exact .inl ⟨h, rfl⟩
  · next hne =>
    split at hz
    · next h =>
      cases hz
      exact .inr (.inl ⟨h, rfl⟩)
    · next hne' => exact .inr (.inr ⟨hne, hne', hz⟩)

theorem weigh_switch (w : Context → Nat) (state : State) (serial : Nat)
    (hx : t.fibers.get? source = some x)
    (hy : t.fibers.get? home = some y) (hne : home ≠ source) (ht : x.context = some target) :
    (t.switch source x target home y state serial).weigh w + w t.running =
      t.weigh w + w ⟨serial, t.running.code⟩ :=
  weigh_handOver w hx hy hne ht rfl

/-- A weight that depends on the code only is the same after a switch. -/
theorem Fits.weigh_code (h : t.Fits source x target home y state) (serial : Nat)
    (w : Code → Nat) :
    (t.switch source x target home y state serial).weigh (fun k => w k.code) =
      t.weigh fun k => w k.code := by
  have hw := weigh_switch (fun k => w k.code) state serial h.there h.here h.apart h.rests
  exact Nat.add_right_cancel hw

/-- What is the same of the two fibers is the same of all. -/
theorem elim_switch (g : Fiber → Nat) (hx : t.fibers.get? source = some x)
    (hy : t.fibers.get? home = some y) (hgx : g {x with state := .running, context := none} = g x)
    (hgy : g {y with state, context := some ⟨serial, t.running.code⟩} = g y) (f : Nat) :
    ((t.switch source x target home y state serial).fibers.get? f).elim 0 g =
      (t.fibers.get? f).elim 0 g := by
  simp only [switch, handOver, Table.get?_set]
  split
  · next hf => rw [hf, hy, Option.elim_some, Option.elim_some, hgy]
  · split
    · next hf => rw [hf, hx, Option.elim_some, Option.elim_some, hgx]
    · rfl

theorem Counted.switch (ht : t.Counted hand) (h : t.Fits source x target home y state) :
    (t.switch source x target home y state serial).Counted hand where
  handles f := by
    have hc := ht.handles f
    have hw := h.weigh_code serial fun c => c.handles.count f
    have hsum : (t.switch source x target home y state serial).handlesOf f = t.handlesOf f :=
      congrArg (t.slots.total _ + t.root.toList.count f + ·) hw
    rw [hsum, ← hc]
    exact elim_switch Fiber.handles h.there h.here rfl rfl f
  positive f z hz := by
    obtain ⟨rfl, rfl⟩ | ⟨rfl, rfl⟩ | ⟨-, -, hz⟩ := switch_cases hz
    · exact ht.positive _ y h.here
    · exact ht.positive _ x h.there
    · exact ht.positive f z hz

theorem Rooted.switch (ht : t.Rooted) (h : t.Fits source x target home y state)
    (hs : t.Stored) : (t.switch source x target home y state serial).Rooted where
  root_iff f z hz := by
    obtain ⟨rfl, rfl⟩ | ⟨rfl, rfl⟩ | ⟨-, -, hz⟩ := switch_cases hz
    · exact ht.root_iff _ y h.here
    · exact ht.root_iff _ x h.there
    · exact ht.root_iff f z hz
  running f z hz hn := by
    obtain ⟨rfl, rfl⟩ | ⟨rfl, rfl⟩ | ⟨-, -, hz⟩ := switch_cases hz
    · exact h.root hn
    · rfl
    · exact ht.running f z hz hn
  away f z hz hn := by
    show z.context = none ↔ some source = some f
    obtain ⟨rfl, rfl⟩ | ⟨rfl, rfl⟩ | ⟨hne, hne', hz⟩ := switch_cases hz
    · exact ⟨fun hc => (nomatch hc), fun hc => (h.apart (Option.some.inj hc).symm).elim⟩
    · exact ⟨fun _ => rfl, fun _ => rfl⟩
    · -- Another root than these two is no root, or had its place filled before.
      refine ⟨fun hc => ?_, fun hc => (hne' (Option.some.inj hc).symm).elim⟩
      have hcurrent := (ht.away f z hz hn).mp hc
      have hroot := (ht.root_iff f z hz).mp hn
      rcases h.leaves with hl | hl
      · rw [hroot] at hl
        exact (hne' (Option.some.inj hl)).elim
      · rw [hcurrent] at hl
        exact (hne (Option.some.inj hl)).elim
  unrooted hr := (h.rooted hr).elim
  program_iff := by
    show target.code.origin = .program ↔ some source = t.root
    by_cases hn : x.stack = none
    · exact ⟨fun _ => ((ht.root_iff source x h.there).mp hn).symm,
        fun _ => (hs.program source x target h.there hn h.rests).1⟩
    · refine ⟨fun ho => (hs.callback source x target h.there hn h.rests ho).elim, fun hr => ?_⟩
      exact (hn ((ht.root_iff source x h.there).mpr hr.symm)).elim

theorem Stored.switch (ht : t.Stored) (h : t.Fits source x target home y state) :
    (t.switch source x target home y state serial).Stored where
  ready f z hz hstate := by
    obtain ⟨rfl, rfl⟩ | ⟨rfl, rfl⟩ | ⟨-, -, hz⟩ := switch_cases hz
    · exact ⟨_, rfl, h.awake (.inl hstate)⟩
    · cases hstate
    · exact ht.ready f z hz hstate
  program f z k hz hn hk := by
    obtain ⟨rfl, rfl⟩ | ⟨rfl, rfl⟩ | ⟨-, -, hz⟩ := switch_cases hz
    · cases hk
      exact ⟨h.program.mp hn, h.awake (.inr hn)⟩
    · cases hk
    · exact ht.program f z k hz hn hk
  callback f z k hz hn hk := by
    obtain ⟨rfl, rfl⟩ | ⟨rfl, rfl⟩ | ⟨-, -, hz⟩ := switch_cases hz
    · cases hk
      exact fun ho => hn (h.program.mpr ho)
    · cases hk
    · exact ht.callback f z k hz hn hk
  entry f z k g hz hk he := by
    obtain ⟨rfl, rfl⟩ | ⟨rfl, rfl⟩ | ⟨-, -, hz⟩ := switch_cases hz
    · cases hk
      exact (h.entry g he).elim
    · cases hk
    · exact ht.entry f z k g hz hk he

theorem Begun.switch (ht : t.Begun) (h : t.Fits source x target home y state) :
    (t.switch source x target home y state serial).Begun where
  unfinished f := by
    have hw := h.weigh_code serial fun c => c.unfinished.count f
    refine (hw.trans (ht.unfinished f)).trans (elim_switch Fiber.due h.there h.here ?_ ?_ f).symm
    · simp [Fiber.due, h.alive]
    · by_cases hn : y.stack = none
      · simp [Fiber.due, hn]
      · simp [Fiber.due, hn, h.term hn]

theorem Sound.switch (ht : t.Sound hand) (h : t.Fits source x target home y state) :
    (t.switch source x target home y state serial).Sound hand :=
  ⟨ht.toCounted.switch h, ht.toRooted.switch h ht.toStored, ht.toStored.switch h,
    ht.toBegun.switch h⟩

/-- The fiber switched to is attended to: it is the root, or the code that waits for it
comes to rest where it is not continued from. -/
theorem Fits.attended (h : t.Fits source x target home y state) (hs : t.Stored)
    (hw : t.root = some source ∨ state ≠ .ready ∧ t.running.code.awaited = some source) :
    (t.switch source x target home y state serial).Attended where
  current r hr := by
    refine ⟨source, {x with state := .running, context := none}, rfl, ?_, rfl⟩
    simp only [Thread.switch, handOver, Table.get?_set]
    rw [if_neg (Ne.symm h.apart), if_pos trivial]
  awaited c hc hr := by
    cases hc
    rcases hw with hroot | ⟨hstate, ha⟩
    · exact (hr hroot).elim
    · refine ⟨⟨serial, t.running.code⟩, .inr ⟨home,
        {y with state, context := some ⟨serial, t.running.code⟩}, ?_, hstate, rfl⟩, ha⟩
      simp only [Thread.switch, handOver, Table.get?_set]
      rw [if_pos trivial]
  starting g hg := by
    have := hs.entry source x target g h.there h.rests hg
    exact congrArg some this.symm

/-- A ready fiber can be switched to from the current one. -/
theorem fits_resume {c : Nat} (ht : t.Sound hand) (hc : t.current = some c)
    (hx : t.fibers.get? f = some x) (hready : x.state = .ready) (hy : t.fibers.get? c = some y)
    (hrunning : y.state = .running) (hne : c ≠ f) (hk : x.context = some target)
    (he : ∀ g, t.running.code ≠ .entry g)
    (ha : t.running.code.origin = .program → t.running.code.Awake) :
    t.Fits f x target c y .running := by
  have hprogram : y.stack = none ↔ t.running.code.origin = .program := by
    rw [ht.root_iff c y hy, ht.program_iff, hc, eq_comm]
  exact {
    there := hx
    here := hy
    apart := hne
    rests := hk
    leaves := .inr hc
    rooted := fun hr => by
      simp [(ht.unrooted hr).1] at hc
    alive := by simp [hready]
    root := fun _ => rfl
    term := fun _ => by simp [hrunning]
    program := hprogram
    entry := he
    awake := fun h => h.elim (fun h => nomatch h) fun hn => ha (hprogram.mp hn) }

/-- The root can be switched to from a task fiber, as long as it is away. -/
theorem fits_yield {r : Nat} (ht : t.Sound hand) (hr : t.root = some r)
    (hz : t.fibers.get? r = some z) (hx : t.fibers.get? f = some x) (hstack : x.stack ≠ none)
    (hne : f ≠ r) (hk : z.context = some target) (hterm : state = .term ↔ x.state = .term)
    (he : ∀ g, t.running.code ≠ .entry g) (ha : state = .ready → t.running.code.Awake) :
    t.Fits r z target f x state where
  there := hz
  here := hx
  apart := hne
  rests := hk
  leaves := .inl hr
  rooted := by simp [hr]
  alive := by
    rw [ht.running r z hz ((ht.root_iff r z hz).mpr hr)]
    exact fun h => nomatch h
  root hn := (hstack hn).elim
  term _ := hterm
  program := by
    refine ⟨fun hn => (hstack hn).elim, fun ho => ?_⟩
    have haway := (ht.away r z hz ((ht.root_iff r z hz).mpr hr)).mpr
      ((ht.program_iff.mp ho).trans hr)
    simp [haway] at hk
  entry := he
  awake h := h.elim ha fun hn => (hstack hn).elim

end Fibers.Thread
