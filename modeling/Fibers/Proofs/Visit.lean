import Fibers.Proofs.Alter
import Fibers.Proofs.Coroutine
import Fibers.Proofs.Root

/-! What one `resume` does.

The program resumes a fiber that awaits a part of a straight callback: the fiber becomes
current, the rest of the program comes to rest in the root, the part is performed, and the yield
or the end of the callback goes back to the root, where the `resume` answers. While the fiber
executes nothing but that fiber changes (`Process.Within`), so that in the end the process is as it
was but for the fiber. -/
namespace Fibers
namespace Process

/-- Besides the executing code and one fiber nothing has changed, on the executing thread, of
fibers, handles and registrations. -/
structure Within (f : Nat) (p q : Process) : Prop where
  fibers : ∀ g, g ≠ f → q.thread.fibers.get? g = p.thread.fibers.get? g
  current : q.thread.current = p.thread.current
  root : q.thread.root = p.thread.root
  slots : q.thread.slots = p.thread.slots
  hub : q.thread.hub = p.thread.hub

variable {p q r : Process} {f g c : Nat} {x y : Fiber} {op : Op} {frame : Frame} {rest : List Task}
  {s : String} {scenario : Scenario} {segment ops : List Op} {code : Code} {state : State}

theorem Within.trans (h : Within f p q) (h' : Within f q r) : Within f p r where
  fibers g hg := (h'.fibers g hg).trans (h.fibers g hg)
  current := h'.current.trans h.current
  root := h'.root.trans h.root
  slots := h'.slots.trans h.slots
  hub := h'.hub.trans h.hub

theorem Aside.within (h : p.Aside q) (f : Nat) : Within f p q :=
  ⟨fun g _ => h.like.fibers g, h.like.current, h.like.root, h.like.slots, h.hub⟩

theorem within_become (f : Nat) (p : Process) (code : Code) :
    Within f p {p with thread := p.thread.become code} :=
  ⟨fun _ _ => rfl, rfl, rfl, rfl, rfl⟩

/-- The code and one fiber are changed. -/
theorem within_setFiber (f : Nat) (p : Process) (x : Fiber) (code : Code) :
    Within f p {p with thread := (p.thread.setFiber f x).become code} :=
  ⟨fun _ hg => Thread.get?_setFiber.trans (if_neg hg), rfl, rfl, rfl, rfl⟩

theorem Aside.takeUp (h : p.Aside q) (frame : Frame) (rest : List Task) :
    (p.takeUp frame rest).Aside (q.takeUp frame rest) where
  like := {
    h.like with
    running := by
      show (⟨q.thread.running.serial, _⟩ : Context) = ⟨p.thread.running.serial, _⟩
      rw [h.like.running] }
  hub := h.hub
  onward := ⟨h.onward.nextId, h.onward.nextSerial, h.onward.joining, h.onward.ended⟩

/-- The process with other code to execute. -/
def become (p : Process) (code : Code) : Process := {p with thread := p.thread.become code}

/-! ### Local operations -/

/-- Code performs a segment of local operations, whoever's it is. -/
theorem plays_segment (hp : scenario.Reaches p) (hcode : p.thread.running.code = .active frame)
    (htodo : frame.todo = Task.ofOps segment ++ rest) (h : ∀ op ∈ segment, op.action.Local) :
    ∃ q, p.Plays (segment.map (frame.origin, ·)) q ∧ (p.takeUp frame rest).Aside q := by
  induction segment generalizing p frame with
  | nil =>
    refine ⟨p, .refl p, ⟨fun _ => rfl, rfl, rfl, rfl, ?_, rfl⟩, rfl,
      onward_of_names rfl rfl rfl rfl⟩
    show p.thread.running = ⟨p.thread.running.serial, .active {frame with todo := rest}⟩
    rw [← show frame.todo = rest from htodo, ← hcode]
  | cons op segment ih =>
    have hordered := hp.lawful.ordered
    have hop : p.thread.Performs op frame (Task.ofOps segment ++ rest) := ⟨hcode, htodo⟩
    have htake := (hordered.takeUp hop.code hop.todo).steady hordered.thread.toSteady
    obtain ⟨_, p₁, hstep, hp₁⟩ := ((Act.leads_step hop).mpr
      (Act.asides_perform op htake (h op (List.mem_cons_self ..)))).answers
    have hcode₁ : p₁.thread.running.code =
        .active {frame with todo := Task.ofOps segment ++ rest} := by
      rw [hp₁.like.running]
      rfl
    obtain ⟨q, hplays, hq⟩ := ih (hp.step hstep) hcode₁ rfl
      fun op hmem => h op (List.mem_cons_of_mem _ hmem)
    have hfirst : p.Plays [(frame.origin, op)] p₁ :=
      plays_step hstep (by rw [performing_of hop, Option.toList_some])
    exact ⟨q, hfirst.trans hplays, (hp₁.takeUp frame rest).trans hq⟩

/-! ### Into the fiber and through its part -/

/-- The fiber executes and the program waits in the root, which is `r`. -/
structure Visits (p : Process) (op : Op) (frame : Frame) (rest : List Task) (f r : Nat)
    (q : Process) : Prop where
  slots : q.thread.slots = p.thread.slots
  hub : q.thread.hub = p.thread.hub
  root : q.thread.root = some r
  current : q.thread.current = some f
  apart : r ≠ f
  rests : ∃ y serial, q.thread.fibers.get? r = some y ∧ y.state = .running ∧
    y.context = some ⟨serial, .active {frame with todo := .resumed op.label f :: rest}⟩
  /-- A root that was there is as it was, but for what rests in it, which was nothing. -/
  kept : ∀ x, p.thread.fibers.get? r = some x → x.state = .running ∧ x.context = none ∧
    ∃ k, q.thread.fibers.get? r = some {x with context := k}
  others : ∀ g x, g ≠ f → g ≠ r → p.thread.fibers.get? g = some x →
    q.thread.fibers.get? g = some x

theorem Visits.within {r : Nat} {q' : Process} (h : p.Visits op frame rest f r q)
    (hq : Within f q q') : p.Visits op frame rest f r q' where
  slots := hq.slots.trans h.slots
  hub := hq.hub.trans h.hub
  root := hq.root.trans h.root
  current := hq.current.trans h.current
  apart := h.apart
  rests := by
    rw [hq.fibers r h.apart]
    exact h.rests
  kept x hx := by
    rw [hq.fibers r h.apart]
    exact h.kept x hx
  others g x hf hr hx := (hq.fibers g hf).trans (h.others g x hf hr hx)

/-- The program resumes a ready fiber, and what rested in it executes. -/
theorem resume_visits (hp : scenario.Reaches p) (hop : p.thread.Performs op frame rest)
    (ho : frame.origin = .program) (ha : op.action = .resume s)
    (hs : p.thread.slots.get? s = some f) (hx : p.thread.fibers.get? f = some x)
    (hready : x.state = .ready) (hhub : p.thread.hub ≠ some f) :
    ∃ q r, p.Plays [(.program, op)] q ∧ p.Visits op frame rest f r q ∧
      x.context = some q.thread.running ∧ q.thread.fibers.get? f =
        some {x with handles := x.handles + 1, state := .running, context := none} := by
  have hordered := hp.lawful.ordered
  obtain ⟨hinside, -, hx₁⟩ := hordered.inside (.resumed op.label f) hop hx rfl
  obtain ⟨_, q, hq, -, -, p₁, c, hground, hc, hswitch⟩ :=
    (Act.step_resume_switches hordered hop ha hs hx).answers_of fun _ _ he => by
      rcases he with ⟨hne, -⟩ | ⟨-, hanchor, -⟩
      · exact hne hready
      · exact hhub hanchor.2
  have hp₁ := (hground.move []).steady hinside
  have hx₂ := hground.fibers f _ hx₁
  -- The program executes, so that the fiber it leaves is the root.
  have hcode : p₁.thread.running.code =
      .active {frame with todo := .resumed op.label f :: rest} := by
    rw [hground.running]
    rfl
  have hroot : p₁.thread.root = some c := by
    rw [← hc, eq_comm, ← hp₁.program_iff, hcode]
    exact ho
  obtain ⟨y, hy⟩ := hp₁.toCounted.root_alive hroot
  have hrunning := hp₁.running c y hy ((hp₁.root_iff c y hy).mpr hroot)
  have hne : c ≠ f := by
    rintro rfl
    rw [hy] at hx₂
    cases hx₂
    simp [hready] at hrunning
  have hleft := hswitch.left hy
  have hfibers : ∀ g x, g ≠ f → p.thread.fibers.get? g = some x →
      p₁.thread.fibers.get? g = some x := fun g x hg hx =>
    hground.fibers g x (Thread.get?_setFiber.trans ((if_neg hg).trans hx))
  have hrests : x.context = some q.thread.running :=
    hswitch.running (x := {x with handles := x.handles + 1}) hx₂
  refine ⟨q, c, plays_step hq (by rw [performing_of hop, Option.toList_some, ho]), ?_, hrests,
    hswitch.entered hx₂⟩
  obtain ⟨-, -, -, -, like, -, -, hsamehub⟩ := id hswitch
  exact {
    slots := like.slots.trans hground.slots
    hub := hsamehub.trans hground.hub
    root := hswitch.root.trans hroot
    current := hswitch.current
    apart := hne
    rests := ⟨_, _, hleft, rfl, by rw [hcode]⟩
    kept := fun x hx => by
      have hx' := hfibers c x hne hx
      cases hy.symm.trans hx'
      exact ⟨hrunning, (hp₁.away c y hy ((hp₁.root_iff c y hy).mpr hroot)).mpr hc, _,
        hleft.trans (by rw [hrunning])⟩
    others := fun g x hf hr hx => (hswitch.others hf hr).trans (hfibers g x hf hx) }

/-- The fiber that executes takes up what it awaits. -/
theorem awaits_begins (hp : scenario.Reaches p) (hx : p.thread.fibers.get? f = some x)
    (hy : y.callback = x.callback) (hk : y.context = some p.thread.running)
    (hawaits : y.Awaits f ops) :
    ∃ q z frame, p.Plays [] q ∧ Within f p q ∧ q.thread.running.code = .active frame ∧
      frame = ⟨.callback f, [], Task.ofOps ops⟩ ∧ q.thread.fibers.get? f = some z ∧
      z.stack = x.stack := by
  have hordered := hp.lawful.ordered
  cases hawaits with
  | @start k hcallback hk' hcode =>
    cases hk.symm.trans hk'
    obtain ⟨_, q, hq, x', callback, hx', hcallback', haside⟩ :=
      (Act.step_begin_leads hordered hp.primed.thread hcode).answers
    cases hx.symm.trans hx'
    cases (hcallback'.symm.trans hy.symm).trans hcallback
    refine ⟨q, _, _, plays_step hq ?_, (within_setFiber f p _ _).trans (haside.within f), ?_, rfl,
      (haside.like.fibers f).trans (Thread.get?_setFiber.trans (if_pos rfl)), rfl⟩
    · simp [performing?, Thread.performs?, hcode]
    · rw [haside.like.running]
      rfl
  | @yield k label hk' hcode =>
    cases hk.symm.trans hk'
    let frame : Frame := ⟨.callback f, [], .yielded label none :: Task.ofOps ops⟩
    have hcode : p.thread.running.code = .active frame := hcode
    have htake := (hordered.takeUp hcode rfl).steady hordered.thread.toSteady
    obtain ⟨_, q, hq, haside⟩ := ((Act.leads_task hcode rfl).mpr
      (Act.asides_answer htake label .nothing)).answers
    refine ⟨q, x, _, plays_step hq ?_, (within_become f p _).trans (haside.within f), ?_, rfl,
      (haside.like.fibers f).trans hx, rfl⟩
    · simp [performing?, Thread.performs?, hcode]
    · rw [haside.like.running]
      rfl

/-! ### Back to the program -/

/-- A slot and the executing code keep a handle each. -/
theorem Ordered.handles_two (h : p.Ordered) (hs : p.thread.slots.get? s = some f)
    (hrun : 0 < p.thread.running.code.handles.count f) (hx : p.thread.fibers.get? f = some x) :
    1 < x.handles := by
  have hslot := Table.le_total (fun g => [g].count f) hs
  have hcount := h.thread.handles_eq hx
  rw [List.count_singleton_self] at hslot
  simp only [Thread.handlesOf, Thread.weigh, List.count_nil] at hcount
  omega

/-- The fiber was left for the root, and the program has this to do. All other fibers are as they
were. -/
structure Back (p : Process) (frame : Frame) (todo : List Task) (f : Nat) (q : Process) :
    Prop where
  slots : q.thread.slots = p.thread.slots
  hub : q.thread.hub = p.thread.hub
  code : q.thread.running.code = .active {frame with todo}
  current : ∃ r, q.thread.root = some r ∧ q.thread.current = some r
  others : ∀ g x, g ≠ f → p.thread.fibers.get? g = some x → q.thread.fibers.get? g = some x

theorem Visits.back {r : Nat} {p₁ p₂ : Process} (h : p.Visits op frame rest f r p₁)
    (hwithin : Within f p₁ p₂) (hswitch : p₂.Switch r f state q) :
    p.Back frame (.resumed op.label f :: rest) f q := by
  have h₂ := h.within hwithin
  obtain ⟨y, serial, hy, -, hk⟩ := h₂.rests
  obtain ⟨-, -, -, -, like, -, -, hhub⟩ := id hswitch
  exact {
    slots := like.slots.trans h₂.slots
    hub := hhub.trans h₂.hub
    code := by
      have hrun := hk.symm.trans (hswitch.running hy)
      rw [← Option.some.inj hrun]
    current := ⟨r, hswitch.root.trans h₂.root, hswitch.current⟩
    others := fun g x hg hx => by
      by_cases hr : g = r
      · subst hr
        obtain ⟨hrunning, hempty, k, hkept⟩ := h₂.kept x hx
        rw [hswitch.entered hkept, ← hrunning, ← hempty]
      · exact (hswitch.others hr hg).trans (h₂.others g x hg hr hx) }

/-- The program returns from its `resume`, which answers with the state of the fiber. -/
theorem Back.returns (h : p.Back frame (.resumed op.label f :: rest) f q)
    (hq : scenario.Reaches q) (hs : q.thread.slots.get? s = some f)
    (hx : q.thread.fibers.get? f = some x) :
    ∃ r, q.Plays [] r ∧ p.Back frame rest f r ∧
      r.thread.fibers.get? f = some {x with handles := x.handles - 1} ∧
      r.answers = (op.label, .state x.state) :: q.answers := by
  have hordered := hq.lawful.ordered
  let frame' : Frame := {frame with todo := .resumed op.label f :: rest}
  have hcode : q.thread.running.code = .active frame' := h.code
  have hn : 1 < x.handles := hordered.handles_two hs (by
    rw [hcode, List.count_pos_iff]
    simp [Code.handles, frame', Task.handles]) hx
  let y : Fiber := {x with handles := x.handles - 1}
  let q₁ : Process := {q with thread := (q.takeUp frame' rest).thread.setFiber f y}
  have htake : Move [] q [f] (q.takeUp frame' rest) := hordered.takeUp hcode rfl
  have hrelease : Move [f] (q.takeUp frame' rest) [] q₁ :=
    .release hx hn (.refl _) (onward_of_names rfl rfl rfl rfl)
  have hsteady := (htake.trans hrelease).steady hordered.thread.toSteady
  have hanswer := (Act.answer_leads op.label (.state x.state) (p := q₁)).and
    (Act.asides_answer hsteady op.label (.state x.state))
  have hstep : Act.step.Leads q (fun _ r => r = q₁.report (.done op.label · (.state x.state)) ∧
      q₁.Aside r) fun _ _ => False := by
    have hx' : (q.takeUp frame' rest).thread.fibers.get? f = some x := hx
    refine (Act.leads_task hcode rfl).mpr (Act.leads_bind.mpr ((Act.leads_fiber hx').mpr ?_))
    refine Act.leads_bind.mpr (Act.leads_bind.mpr ((Act.leads_fiber hx').mpr ?_))
    rw [if_neg (Nat.not_le_of_lt hn)]
    exact Act.leads_setFiber.mpr (hanswer.mono (fun _ _ h => h) fun _ _ h => h.2)
  obtain ⟨_, r, hr, rfl, haside⟩ := hstep.answers
  refine ⟨_, plays_step hr (by simp [performing?, Thread.performs?, hcode, frame']), ?_,
    (haside.like.fibers f).trans (Thread.get?_setFiber.trans (if_pos rfl)), rfl⟩
  exact {
    slots := haside.like.slots.trans h.slots
    hub := haside.hub.trans h.hub
    code := by
      rw [haside.like.running]
      rfl
    current := by
      obtain ⟨r, hroot, hcurrent⟩ := h.current
      exact ⟨r, haside.like.root.trans hroot, haside.like.current.trans hcurrent⟩
    others := fun g z hg hz => (haside.like.fibers g).trans
      (Thread.get?_setFiber.trans ((if_neg hg).trans (h.others g z hg hz))) }

/-! ### Out of the fiber -/

/-- The fiber that executes yields itself. -/
theorem yields_out (hp : scenario.Reaches p) (hop : p.thread.Performs op frame rest)
    (ha : op.action = .yield) (hc : p.thread.current = some f)
    (hx : p.thread.fibers.get? f = some x) (hstack : x.stack ≠ none) :
    ∃ p₁ r q y k, p.Plays [(frame.origin, op)] q ∧ Within f p p₁ ∧ p₁.thread.root = some r ∧
      p₁.Switch r f .ready q ∧ q.thread.fibers.get? f = some y ∧ y.stack = x.stack ∧
      y.state = .ready ∧ y.context = some k ∧
      k.code = .active {frame with todo := .yielded op.label none :: rest} := by
  obtain ⟨_, q, hq, p₁, r, haside, hr, hswitch⟩ :=
    (Act.step_yield_switches hp.lawful.ordered hop ha hc hx hstack).answers
  have hleft := hswitch.left ((haside.like.fibers f).trans hx)
  refine ⟨p₁, r, q, _, _, plays_step hq (by rw [performing_of hop, Option.toList_some]),
    (within_become f p _).trans (haside.within f), hr, hswitch, hleft, rfl, rfl, rfl, ?_⟩
  rw [haside.like.running]
  rfl

/-- A callback with nothing left to do and no handles to give back is over in two steps. -/
theorem ends_script (hp : scenario.Reaches p)
    (hcode : p.thread.running.code = .active ⟨.callback f, [], []⟩) :
    ∃ q, p.Plays [] q ∧ (p.become (.returned (.callback f) .finished)).Aside q := by
  let p₁ := p.become (.leaving (.callback f) [] .finished)
  have hfirst : Act.step p = .ok () p₁ := by
    have h : Act.step.Leads p (fun _ q => q = p₁) fun _ _ => False := by
      unfold Act.step
      rw [Act.leads_bind, Act.leads_thread, hcode]
      exact Act.leads_modifyThread.mpr rfl
    obtain ⟨_, _, hq, rfl⟩ := h.answers
    exact hq
  have hp₁ := hp.step hfirst
  have hsecond : Act.step.Leads p₁ (fun _ q =>
      (p.become (.returned (.callback f) .finished)).Aside q) fun _ _ => False := by
    unfold Act.step
    rw [Act.leads_bind, Act.leads_thread]
    show (Act.leave (.callback f) [] .finished).Leads p₁ _ _
    unfold Act.leave
    rw [if_pos rfl]
    refine Act.leads_bind.mpr ((Act.status_answers hp₁.lawful.ordered.thread.toSteady).mono
      (fun a q ⟨_, h⟩ => ?_) fun _ _ h => h)
    subst h
    exact Act.leads_bind.mpr (Act.leads_emit.mpr (Act.leads_bind.mpr
      (Act.leads_modifyThread.mpr (Act.leads_bind.mpr (Act.leads_pure.mpr (Act.leads_pure.mpr
        ⟨⟨fun _ => rfl, rfl, rfl, rfl, rfl, rfl⟩, rfl, onward_of_names rfl rfl rfl rfl⟩))))))
  obtain ⟨_, q, hq, haside⟩ := hsecond.answers
  have hplays {m : Process} (hm : p.Plays [] m) (hq : m.Plays [] q) : p.Plays [] q := hm.trans hq
  refine ⟨q, hplays (plays_step hfirst ?_) (plays_step hq ?_), haside⟩
  · simp [performing?, Thread.performs?, hcode]
  · rfl

/-- The callback of the fiber, with nothing left to do, completes and leaves the fiber for good. -/
theorem ends_out (hp : scenario.Reaches p)
    (hcode : p.thread.running.code = .active ⟨.callback f, [], []⟩)
    (hs : p.thread.slots.get? s = some f) (hx : p.thread.fibers.get? f = some x) :
    ∃ p₁ r q y, p.Plays [] q ∧ Within f p p₁ ∧ p₁.thread.root = some r ∧ p₁.Switch r f .term q ∧
      q.thread.fibers.get? f = some y ∧ y.stack = x.stack ∧ y.state = .term := by
  obtain ⟨p₁, hplays, haside⟩ := ends_script hp hcode
  have hp₁ := hp.plays hplays
  have hordered := hp₁.lawful.ordered
  have hcode₁ : p₁.thread.running.code = .returned (.callback f) .finished := by
    rw [haside.like.running]
    rfl
  have hx₁ : p₁.thread.fibers.get? f = some x := (haside.like.fibers f).trans hx
  have hn := hordered.handles_two (haside.like.slots ▸ hs) (by
    rw [hcode₁]
    simp [Code.handles, Origin.handles]) hx₁
  have hfinish := (Act.leads_finish hcode₁).mpr
    (Act.finish_leads hordered.thread.toSound hcode₁ hx₁)
  obtain ⟨_, q, hq, -, p₂, r, -, like, hhub, hroot, hswitch⟩ :=
    hfinish.answers_of fun _ _ he => by omega
  have hx₂ := (like.fibers f).trans (Thread.get?_terminate.trans (if_pos rfl))
  have hwithin : Within f p₁ p₂ :=
    ⟨fun g hg => (like.fibers g).trans (Thread.get?_terminate.trans (if_neg hg)), like.current,
      like.root, like.slots, hhub⟩
  have hlast : p₁.Plays [] q := plays_step hq (by simp [performing?, Thread.performs?, hcode₁])
  exact ⟨p₂, r, q, _, hplays.trans hlast,
    ((within_become f p _).trans (haside.within f)).trans hwithin, hroot, hswitch,
    hswitch.left hx₂, rfl, rfl⟩

/-- A fiber that executes a straight callback performs the next part of it and is left, with the
other parts to go. -/
theorem part_out {part : List Op} {left : List (List Op)} (hp : scenario.Reaches p)
    (hcode : p.thread.running.code =
      .active ⟨.callback f, [], Task.ofOps (part :: left).flatten⟩)
    (hstraight : Straight (part :: left)) (hc : p.thread.current = some f)
    (hs : p.thread.slots.get? s = some f) (hx : p.thread.fibers.get? f = some x)
    (hstack : x.stack ≠ none) :
    ∃ p₁ r q y state, p.Plays (part.map (.callback f, ·)) q ∧ Within f p p₁ ∧
      p₁.thread.root = some r ∧ p₁.Switch r f state q ∧ q.thread.fibers.get? f = some y ∧
      y.Stands f left := by
  cases hstraight with
  | last h =>
    rw [List.flatten_cons, List.flatten_nil, List.append_nil] at hcode
    obtain ⟨q, hplays, haside⟩ := plays_segment hp hcode (List.append_nil _).symm h
    obtain ⟨p₁, r, q', y, hplays', hwithin, hr, hswitch, hy, hystack, hterm⟩ :=
      ends_out (hp.plays hplays) (by rw [haside.like.running]; rfl) (haside.like.slots ▸ hs)
        ((haside.like.fibers f).trans hx)
    refine ⟨p₁, r, q', y, _, by simpa using hplays.trans hplays',
      ((within_become f p _).trans (haside.within f)).trans hwithin, hr, hswitch, hy,
      hystack ▸ hstack, hterm, fun h => (h rfl).elim⟩
  | @next segment label _ h hrest =>
    have hne := hrest.ne_nil
    have htodo : Task.ofOps (segment ++ .mk label .yield :: left.flatten) =
        Task.ofOps segment ++ Task.ofOps (.mk label .yield :: left.flatten) := by
      simp [Task.ofOps]
    rw [List.flatten_cons, List.append_assoc, List.singleton_append] at hcode
    obtain ⟨q, hplays, haside⟩ := plays_segment hp hcode htodo h
    have hop : q.thread.Performs (.mk label .yield)
        ⟨.callback f, [], Task.ofOps (.mk label .yield :: left.flatten)⟩
        (Task.ofOps left.flatten) := ⟨by rw [haside.like.running]; rfl, rfl⟩
    obtain ⟨p₁, r, q', y, k, hplays', hwithin, hr, hswitch, hy, hystack, hready, hk, hkcode⟩ :=
      yields_out (hp.plays hplays) hop rfl (haside.like.current.trans hc)
        ((haside.like.fibers f).trans hx) hstack
    refine ⟨p₁, r, q', y, _, by simpa using hplays.trans hplays',
      ((within_become f p _).trans (haside.within f)).trans hwithin, hr, hswitch, hy,
      hystack ▸ hstack, by rw [hready, if_neg hne], fun _ => .yield hk hkcode⟩

/-! ### A whole `resume` -/

/-- The program resumes a fiber with parts of a straight callback left: the fiber performs the
next part and nothing else happens until the `resume` returns. -/
theorem resume_plays {part : List Op} {left : List (List Op)} (hp : scenario.Reaches p)
    (hop : p.thread.Performs op frame rest) (ho : frame.origin = .program)
    (ha : op.action = .resume s) (hs : p.thread.slots.get? s = some f)
    (hhub : p.thread.hub ≠ some f) (hstands : p.thread.Stands f (part :: left))
    (hstraight : Straight (part :: left)) :
    ∃ q log, p.Plays ((.program, op) :: part.map (.callback f, ·)) q ∧ p.Back frame rest f q ∧
      q.thread.Stands f left ∧
      q.answers = (op.label, .state (if left = [] then .term else .ready)) :: log := by
  obtain ⟨x, hx, hstack, hready, hawaits⟩ := hstands
  have hne : part :: left ≠ [] := List.cons_ne_nil part left
  rw [if_neg hne] at hready
  obtain ⟨p₁, r, hplays₁, hvisits, hk, hx₁⟩ := resume_visits hp hop ho ha hs hx hready hhub
  have hp₁ := hp.plays hplays₁
  obtain ⟨p₂, z, _, hplays₂, hwithin₂, hcode, rfl, hz, hzstack⟩ :=
    awaits_begins (y := x) hp₁ hx₁ rfl hk (hawaits hne)
  have hp₂ := hp₁.plays hplays₂
  have hvisits₂ := hvisits.within hwithin₂
  obtain ⟨p₃, r', q, y, state, hplays₃, hwithin₃, hr', hswitch, hy, hleft⟩ :=
    part_out hp₂ hcode hstraight hvisits₂.current (hvisits₂.slots ▸ hs) hz
      (by rw [hzstack]; exact hstack)
  cases ((hvisits₂.within hwithin₃).root.symm.trans hr')
  have hback := hvisits₂.back hwithin₃ hswitch
  obtain ⟨q', hplays₄, hback', hy', hanswer⟩ :=
    hback.returns (hp₂.plays hplays₃) (hback.slots ▸ hs) hy
  refine ⟨q', q.answers, ?_, hback', ⟨_, hy', hleft.task, hleft.state, fun h => ?_⟩,
    by rw [hanswer, hleft.state]⟩
  · simpa using hplays₁.trans (hplays₂.trans (hplays₃.trans hplays₄))
  · exact match hleft.awaits h with
      | .start hcallback hk hcode => .start hcallback hk hcode
      | .yield hk hcode => .yield hk hcode

end Process
end Fibers
