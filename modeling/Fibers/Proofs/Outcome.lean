import Fibers.Proofs.Keep
import Fibers.Proofs.Tandem

/-! How scripts end.

A script comes to its outcome in one place only: its own code executes then, and has nothing left to
do or performs a panic. From there the code is on its way out in every step until the script has
returned, and no other code is: what rests in a fiber or waits for a thread has not ended. So code
that has returned closed two steps before, with the outcome it has returned with, and on the same
thread (`run_returned`). -/
namespace Fibers

/-- The script is not over. -/
def Code.Open : Code → Prop
  | .leaving .. | .returned .. => False
  | _ => True

/-- What rests in the fibers of the thread has not ended. -/
def Thread.Unended (t : Thread) : Prop :=
  ∀ f x k, t.fibers.get? f = some x → x.context = some k → k.code.Open

theorem Code.open_before {code : Code} (tasks : List Task) (h : code.Open) :
    (code.before tasks).Open := by
  cases code <;> exact h

theorem Code.open_hold {code : Code} (f : Nat) (h : code.Open) : (code.hold f).Open := by
  cases code <;> exact h

namespace Process

/-- The executing code comes to the end of its script, with handles that it held until then. -/
inductive Closes (p : Process) : Origin → List Nat → Outcome → Prop
  | finish {frame : Frame} (hcode : p.thread.running.code = .active frame)
    (htodo : frame.todo = []) : p.Closes frame.origin frame.held .finished
  | panic {op : Op} {frame : Frame} {rest : List Task} {payload : Payload}
    (hop : p.thread.Performs op frame rest) (ha : op.action = .panic payload) :
    p.Closes frame.origin frame.held (.panicked payload)

/-- Only the code that executes may be at its end. -/
structure Unended (p : Process) : Prop where
  resting : ∀ t ∈ p.threads, t.Unended
  joining : ∀ joiner ∈ p.joining, joiner.thread.running.code.Open

/-- The program runs on a thread of its own, and the one that starts it waits. -/
def launched (p : Process) (label : Label) (program : List Op) : Process :=
  {p with
    nextSerial := p.nextSerial + 1
    thread := .start p.nextSerial program
    joining := ⟨p.thread, label⟩ :: p.joining}

/-- How far the scripts have come after a step. -/
inductive Proceeds (p q : Process) : Prop
  | on (h : q.thread.running.code.Open) (hj : q.joining = p.joining)
  | starts {op : Op} {frame : Frame} {rest : List Task} {script : Script} {program : List Op}
    (hop : p.thread.Performs op frame rest) (ha : op.action = .runThread script)
    (hq : q = (p.takeUp frame rest).launched op.label program)
  | closes {origin : Origin} {held : List Nat} {outcome : Outcome}
    (h : p.Closes origin held outcome)
    (hq : q = {p with thread := p.thread.become (.leaving origin held outcome)})
  | leaves {origin : Origin} {held : List Nat} {outcome : Outcome}
    (hcode : p.thread.running.code = .leaving origin held outcome)
    (hcode' : q.thread.running.code = .returned origin outcome) (hj : q.joining = p.joining)
  /-- The program is over, and the thread that waited for it is told how it ended. -/
  | joins {joiner : Joiner} {outcome : Outcome}
    (hcode : p.thread.running.code = .returned .program outcome)
    (hj : p.joining = joiner :: q.joining) (ht : q.thread = joiner.thread)
    (htrace : ∃ status, q.trace.head? = some (.done joiner.label status (.joined outcome)))

variable {p q r : Process} {n : Nat} {origin : Origin} {held : List Nat} {outcome : Outcome}
  {source home : Nat} {state : State} {x : Fiber}

/-- What holds of the code that executes, whatever else it puts before the rest or holds, lasts on
the thread. -/
theorem lasting_code {C : Code → Prop} {joining : List Joiner}
    (hbefore : ∀ code tasks, C code → C (code.before tasks))
    (hhold : ∀ code f, C code → C (code.hold f)) :
    Lasting False True True fun q => C q.thread.running.code ∧ q.joining = joining where
  rest h _ _ _ hsame _ := by
    obtain ⟨hrunning, hj⟩ := hsame.resolve_right id
    rw [hrunning, hj]
    exact h
  before tasks h := ⟨hbefore _ tasks h.1, h.2⟩
  hold f h := ⟨hhold _ f h.1, h.2⟩
  logged _ _ h := h
  reported _ _ h := h

theorem lasting_open (joining : List Joiner) :
    Lasting False True True fun q => q.thread.running.code.Open ∧ q.joining = joining :=
  lasting_code (fun _ tasks h => Code.open_before tasks h) fun _ f h => Code.open_hold f h

theorem lasting_returned (origin : Origin) (outcome : Outcome) (joining : List Joiner) :
    Lasting False True True
      fun q => q.thread.running.code = .returned origin outcome ∧ q.joining = joining :=
  lasting_code (C := fun code => code = .returned origin outcome)
    (fun _ _ h => by rw [h]; rfl) fun _ _ h => by rw [h]; rfl

/-! ### What rests -/

theorem Calm.unended (h : p.Calm q) (hp : p.thread.Unended) : q.thread.Unended := by
  intro f y k hy hk
  rcases h.fibers f y hy with ⟨x, hx, -, -, hcontext⟩ | hmade
  · exact hp f x k hx (hcontext ▸ hk)
  · rw [(hmade.start k hk).2]
    exact trivial

/-- A switch between code that has not ended. -/
theorem Switch.unended (h : p.Switch source home state q) (hp : p.thread.Unended)
    (hcode : p.thread.running.code.Open) : q.thread.Unended ∧ q.thread.running.code.Open := by
  obtain ⟨hx, -, -, ht, like, -, -⟩ := h
  refine ⟨fun f y k hy hk => ?_, ?_⟩
  · rw [like.fibers] at hy
    obtain ⟨rfl, rfl⟩ | ⟨rfl, rfl⟩ | ⟨-, -, hy⟩ := Thread.switch_cases hy
    · cases hk
      exact hcode
    · cases hk
    · exact hp f y k hy hk
  · rw [like.running]
    exact hp _ _ _ hx ht

theorem Resumed.unended {op : Op} {frame : Frame} {rest : List Task} {f : Nat}
    (h : p.Resumed op frame rest f q) (hp : p.thread.Unended) :
    q.thread.Unended ∧ q.thread.running.code.Open := by
  obtain ⟨hmoved, hcode, -, -, -, -, -, -, h⟩ := h
  exact h.unended (hmoved.unended hp) (hcode ▸ trivial)

theorem Yielded.unended {op : Op} {frame : Frame} {rest : List Task} {named : Option Nat} {f : Nat}
    (h : p.Yielded op frame rest named f q) (hp : p.thread.Unended) :
    q.thread.Unended ∧ q.thread.running.code.Open := by
  obtain ⟨hmoved, hcode, -, -, -, -, -, -, -, h⟩ := h
  exact h.unended (hmoved.unended hp) (hcode ▸ trivial)

theorem Finished.unended {f : Nat} (h : p.Finished f q) (hp : p.thread.Unended) :
    q.thread.Unended ∧ q.thread.running.code.Open := by
  obtain ⟨hx, -, -, -, ht, -, -, -, h⟩ := h
  refine h.unended (fun g y k hy hk => ?_) ?_
  · rw [ht.fibers] at hy
    obtain ⟨rfl, rfl⟩ | ⟨-, hy⟩ := Table.set_cases hy
    · exact hp _ _ k hx hk
    · exact hp g y k hy hk
  · rw [ht.running]
    exact trivial

theorem Renewed.unended {f : Nat} (h : p.Renewed f q) (hp : p.thread.Unended) :
    q.thread.Unended := by
  obtain ⟨hmoved, -, -, -, ht, -, -, -, hsame⟩ := h
  intro g y k hy hk
  rw [hsame, ht.fibers] at hy
  obtain ⟨rfl, rfl⟩ | ⟨-, hy⟩ := Table.set_cases hy
  · cases hk
    exact trivial
  · exact hmoved.unended hp g y k hy hk

theorem Turn.unended (h : p.Turn q) (hp : ∀ t ∈ p.threads, t.Unended) :
    ∀ t ∈ q.threads, t.Unended :=
  have here := hp _ (List.mem_cons_self ..)
  h.threads hp (fun _ _ _ _ _ h => nomatch h) (fun _ _ hp₁ _ h => h.unended (hp _ hp₁))
    (fun _ _ _ _ _ _ _ _ h => (h.unended here).1) (fun _ _ _ _ _ _ _ h => (h.unended here).1)
    (fun _ _ _ h => (h.unended here).1) fun _ _ _ _ _ _ _ _ _ h => h.unended here

end Process

namespace Act
open Process

variable {p : Process} {op : Op} {frame : Frame} {rest : List Task} {origin : Origin}
  {held : List Nat} {outcome : Outcome}

/-- The step of code that comes to its end does nothing but set out. -/
theorem step_closes (h : p.Closes origin held outcome) :
    step p = .ok () {p with thread := p.thread.become (.leaving origin held outcome)} := by
  cases h with
  | finish hcode htodo =>
    rw [step_eq, hcode]
    dsimp only
    rw [htodo]
    rfl
  | panic hop ha =>
    rw [step_of_performs hop]
    unfold perform
    rw [ha]
    rfl

/-! ### The way out -/

/-- A fiber that is alive may not go yet, but nothing else is amiss. -/
theorem release_aborts (hx : p.thread.fibers.get? f = some x) :
    (release f).Leads p (fun _ _ => True) fun halt _ => ∃ violation, halt = .aborted violation := by
  refine leads_bind.mpr ((leads_fiber hx).mpr ?_)
  split
  · refine leads_bind.mpr (leads_log.mpr (leads_bind.mpr (leads_modify.mpr ?_)))
    split
    · next stack _ =>
      refine leads_bind.mpr (leads_ensure.mpr ⟨fun _ => ?_, fun _ => ⟨_, rfl⟩⟩)
      unfold bury lose
      simp only [leads_bind, leads_modifyThread]
      exact (asides_releaseStack stack).mono (fun _ _ _ => leads_log.mpr trivial)
        fun _ _ h => h.elim
    · refine leads_bind.mpr (leads_ensure.mpr ⟨fun _ => ?_, fun _ => ⟨_, rfl⟩⟩)
      refine leads_bind.mpr (leads_ensure.mpr ⟨fun _ => ?_, fun _ => ⟨_, rfl⟩⟩)
      unfold bury lose
      simp only [leads_bind, leads_modifyThread]
  · exact leads_setFiber.mpr trivial

theorem releaseAll_aborts (hp : p.thread.Steady p.nextId (held ++ hand)) :
    (releaseAll held).Leads p (fun _ _ => True)
      fun halt _ => ∃ violation, halt = .aborted violation := by
  induction held generalizing p with
  | nil => exact trivial
  | cons f rest ih =>
    obtain ⟨x, hx⟩ := hp.toCounted.alive (f := f) (by simp)
    have hmoves : (release f).Moves (f :: (rest ++ hand)) (fun _ => rest ++ hand) p :=
      moves_release f
    refine leads_bind.mpr ((hmoves.and (release_aborts hx)).mono (fun _ q hq => ?_)
      fun _ _ h => h.2)
    exact ih (hq.1.steady hp)

/-- The rest of the way out of a script. -/
theorem step_leaving {origin : Origin} {outcome : Outcome}
    (hcode : p.thread.running.code = .leaving origin held outcome) :
    step p = leave origin held outcome p := by
  rw [step_eq, hcode]

/-- The script has returned, and the handles that it held are yet to go. -/
theorem steady_returned (hp : p.Ordered)
    (hcode : p.thread.running.code = .leaving origin held outcome) :
    (p.thread.become (.returned origin outcome)).Steady p.nextId (held ++ []) := by
  have hmove : Move [] p (held ++ [])
      {p with thread := p.thread.become (.returned origin outcome)} := by
    refine .go ?_ (.refl _) (onward_of_names rfl rfl rfl rfl)
    rw [hcode]
    exact Code.follows_returned
  exact hmove.steady hp.thread.toSteady

/-- The handles go once the script has returned, and nothing else happens to the code. -/
theorem returnFrom_leads {q : Process} (hp : p.Ordered)
    (hcode : p.thread.running.code = .leaving origin held outcome) (ht : q.thread = p.thread)
    (hid : q.nextId = p.nextId) : (returnFrom origin held outcome).Leads q
      (fun _ r => r.thread.running.code = .returned origin outcome ∧ r.joining = q.joining)
      fun halt _ => ∃ violation, halt = .aborted violation := by
  have hP := lasting_returned origin outcome q.joining
  let q₁ : Process := {q with thread := q.thread.become (.returned origin outcome)}
  have hsteady : q₁.thread.Steady q₁.nextId (held ++ []) := by
    have h := steady_returned hp hcode
    rwa [← ht, ← hid] at h
  have hreleased := (keeps_releaseAll hP held q₁ ⟨rfl, rfl⟩).and (releaseAll_aborts hsteady)
  refine leads_bind.mpr (leads_modifyThread.mpr ?_)
  refine Leads.bind (hreleased.mono (fun _ _ h => h.1) fun _ _ h => h.2) fun _ r hr => ?_
  split
  · exact leads_log.mpr hr
  · exact hr

/-- The way out goes to the end of the script, unless one of the handles may not go. -/
theorem step_leaves (hp : p.Ordered)
    (hcode : p.thread.running.code = .leaving origin held outcome) :
    step.Leads p (fun _ q => q.thread.running.code = .returned origin outcome ∧
      q.joining = p.joining) fun halt _ => ∃ violation, halt = .aborted violation := by
  rw [Leads, step_leaving hcode]
  refine (show (leave origin held outcome).Leads p _ _ from ?_)
  rw [leave_eq]
  split
  · rw [leads_bind_ok (status_eq hp.thread.toSteady)]
    exact leads_bind.mpr (leads_emit.mpr (returnFrom_leads hp hcode rfl rfl))
  · exact returnFrom_leads hp hcode rfl rfl

/-! ### Any step -/

/-- Most code goes on as it is. -/
theorem proceeds_of_keeps {q : Process} {act : Act Unit}
    (h : act.Keeps fun q => q.thread.running.code.Open ∧ q.joining = p.joining)
    (hq : q.thread.running.code.Open ∧ q.joining = p.joining) :
    act.Leads q (fun _ r => p.Proceeds r) fun _ _ => True :=
  (h q hq).mono (fun _ _ h => .on h.1 h.2) fun _ _ _ => trivial

/-- So does code that a switch continues. -/
theorem proceeds_of_switch {q : Process} (hq : p.Onward q)
    (h : q.thread.Unended ∧ q.thread.running.code.Open) : p.Proceeds q :=
  .on h.2 hq.joining

theorem perform_proceeds (hp : p.Ordered) (hu : p.Unended) (hop : p.thread.Performs op frame rest) :
    step.Leads p (fun _ q => p.Proceeds q) fun _ _ => True := by
  have hP := lasting_open p.joining
  have htook : (p.takeUp frame rest).thread.running.code.Open ∧
      (p.takeUp frame rest).joining = p.joining := ⟨trivial, rfl⟩
  have hresting := hu.resting _ (List.mem_cons_self ..)
  by_cases hturns : op.action.Turns
  · cases ha : op.action with
    | resume s =>
      cases hs : p.thread.slots.get? s with
      | none =>
        rw [leads_step hop, perform_resume ha]
        exact (leads_throughSlot_none (p := p.takeUp frame rest) hs).mpr
          (proceeds_of_keeps (keeps_answer hP _ _) htook)
      | some f =>
        obtain ⟨x, hx⟩ := hp.slot_alive hs
        refine (step_resume_leads hp hop ha hs hx).mono (fun _ q hq => ?_) fun _ _ _ => trivial
        obtain ⟨-, -, hq, -⟩ := hq
        exact proceeds_of_switch hq.onward (hq.unended hresting)
    | yield =>
      refine (step_yield_leads hp hop ha).mono (fun _ q hq => ?_) fun _ _ _ => trivial
      obtain ⟨-, ⟨c, -, hq⟩, -⟩ := hq
      exact proceeds_of_switch hq.onward (hq.unended hresting)
    | yieldOf s =>
      cases hs : p.thread.slots.get? s with
      | none =>
        rw [leads_step hop, perform_yieldOf ha]
        exact (leads_throughSlot_none (p := p.takeUp frame rest) hs).mpr
          (proceeds_of_keeps (keeps_answer hP _ _) htook)
      | some f =>
        obtain ⟨x, hx⟩ := hp.slot_alive hs
        refine (step_yieldOf_leads hp hop ha hs hx).mono (fun _ q hq => ?_) fun _ _ _ => trivial
        obtain ⟨-, -, -, hq, -⟩ := hq
        exact proceeds_of_switch hq.onward (hq.unended hresting)
    | runThread program =>
      refine (leads_step hop).mpr ?_
      obtain ⟨ops, hops⟩ := resolve_read (p := p.takeUp frame rest) program
      unfold perform
      rw [ha]
      refine (leads_bind_ok hops).mpr ?_
      cases ops with
      | none => exact proceeds_of_keeps (keeps_answer hP _ _) htook
      | some ops =>
        exact .starts hop ha rfl
    | panic payload =>
      have hcloses : p.Closes frame.origin frame.held (.panicked payload) := .panic hop ha
      rw [Leads, step_closes hcloses]
      exact .closes hcloses rfl
    | _ => simp [ha, Action.Turns] at hturns
  · refine (leads_step hop).mpr (proceeds_of_keeps ?_ htook)
    exact keeps_perform hP op (fun h => (hturns h).elim) (fun _ => trivial) fun _ => trivial

/-- Where a program ends, the thread goes on that waited, and is told how. -/
theorem step_joins {joiner : Joiner} {waiting : List Joiner}
    (hcode : p.thread.running.code = .returned .program outcome)
    (hj : p.joining = joiner :: waiting) :
    step.Leads p (fun _ q => q.thread = joiner.thread ∧ q.joining = waiting ∧
        ∃ status, q.trace.head? = some (.done joiner.label status (.joined outcome)))
      fun _ _ => True := by
  rw [Leads, step_eq, hcode]
  refine (show (endThread outcome).Leads p _ _ from ?_)
  unfold endThread
  rw [leads_bind, leads_get, hj]
  have hP : Lasting False True True fun q => True ∧ q.joining = p.joining :=
    lasting_code (C := fun _ => True) (fun _ _ h => h) fun _ _ h => h
  refine Leads.bind ((keeps_releaseRoot hP p ⟨trivial, rfl⟩).mono (fun _ _ h => h)
    fun _ _ _ => trivial) fun _ _ _ => leads_bind.mpr (leads_modify.mpr ?_)
  refine (answer_leads ..).mono (fun _ q h => ?_) fun _ _ _ => trivial
  subst h
  exact ⟨rfl, rfl, _, rfl⟩

/-- The end of the first thread is that of the process. -/
theorem step_ends (hp : p.Ordered) (hcode : p.thread.running.code = .returned .program outcome)
    (hj : p.joining = []) :
    ∃ halt, step p = .error halt p ∧ (halt = .panicked ↔ outcome ≠ .finished) := by
  rw [step_eq, hcode]
  show ∃ halt, endThread outcome p = .error halt p ∧ _
  unfold endThread
  rw [bind_ok (rfl : (get : Act Process) p = .ok p p), hj]
  cases outcome with
  | finished =>
    refine ⟨_, bind_ok (status_eq hp.thread.toSteady), ?_⟩
    simp
  | panicked payload => exact ⟨.panicked, rfl, by simp⟩

/-- **Steps**: only code that is at its end comes closer to the end of its script. -/
theorem step_proceeds (hp : p.Ordered) (hu : p.Unended) :
    step.Leads p (fun _ q => p.Proceeds q) fun _ _ => True := by
  have hP := lasting_open p.joining
  have hopens {frame : Frame} : (modifyThread (·.become (.active frame))).Keeps
      fun q => q.thread.running.code.Open ∧ q.joining = p.joining :=
    keeps_modify fun _ hq => ⟨trivial, hq.2⟩
  cases hcode : p.thread.running.code with
  | opening program =>
    rw [Leads, step_eq, hcode]
    refine proceeds_of_keeps ?_ ⟨hcode ▸ trivial, rfl⟩
    exact hopens.bind fun _ => keeps_status.bind fun _ => keeps_emit hP rfl
  | entry f =>
    rw [Leads, step_eq, hcode]
    refine proceeds_of_keeps ?_ ⟨hcode ▸ trivial, rfl⟩
    refine (keeps_currentFiber hP).bind fun f => (keeps_fiber f).bind fun x => ?_
    cases x.callback with
    | none => exact keeps_violate hP _
    | some callback =>
      exact (keeps_setFiber hP f _).bind fun _ => hopens.bind fun _ =>
        keeps_status.bind fun _ => keeps_emit hP rfl
  | active frame =>
    cases htodo : frame.todo with
    | nil =>
      have hcloses : p.Closes frame.origin frame.held .finished := .finish hcode htodo
      rw [Leads, step_closes hcloses]
      exact .closes hcloses rfl
    | cons task rest =>
      cases task with
      | perform op => exact perform_proceeds hp hu ⟨hcode, htodo⟩
      | _ =>
        refine (leads_task hcode htodo).mpr (proceeds_of_keeps (keeps_carryOut hP _ ?_) ?_)
        · exact fun _ h => nomatch h
        · exact ⟨trivial, rfl⟩
  | leaving origin held outcome =>
    refine (step_leaves hp hcode).mono (fun _ q hq => ?_) fun _ _ _ => trivial
    exact .leaves hcode hq.1 hq.2
  | returned origin outcome =>
    cases origin with
    | callback f =>
      obtain ⟨x, hx, -⟩ := hp.thread.toSound.returned hcode
      refine (step_finish_leads hp hcode hx).mono (fun _ q hq => ?_) fun _ _ _ => trivial
      obtain ⟨-, hq, -⟩ := hq
      exact proceeds_of_switch hq.onward (hq.unended (hu.resting _ (List.mem_cons_self ..)))
    | program =>
      cases hj : p.joining with
      | nil =>
        obtain ⟨_, hs, -⟩ := step_ends hp hcode hj
        rw [Leads, hs]
        exact trivial
      | cons joiner waiting =>
        refine (step_joins hcode hj).mono (fun _ q ⟨ht, hq, htrace⟩ => ?_) fun _ _ _ => trivial
        exact .joins hcode (hq ▸ hj) ht htrace
  | spent f => exact (hp.thread.awake.spent f hcode).elim

end Act

namespace Process

variable {p q : Process} {n : Nat} {origin : Origin} {held : List Nat} {outcome : Outcome}

/-- What waits has not ended. -/
theorem Proceeds.joining (h : p.Proceeds q)
    (hp : ∀ joiner ∈ p.joining, joiner.thread.running.code.Open) :
    ∀ joiner ∈ q.joining, joiner.thread.running.code.Open := by
  intro joiner hjoiner
  cases h with
  | on _ hj => exact hp joiner (hj ▸ hjoiner)
  | starts _ _ hq =>
    subst hq
    rcases List.mem_cons.mp hjoiner with rfl | hjoiner
    · exact trivial
    · exact hp joiner hjoiner
  | closes _ hq =>
    subst hq
    exact hp joiner hjoiner
  | leaves _ _ hj => exact hp joiner (hj ▸ hjoiner)
  | joins _ hj _ _ => exact hp joiner (hj ▸ List.mem_cons_of_mem _ hjoiner)

theorem Lawful.proceeds (h : p.Lawful) (hu : p.Unended) (hq : Act.step p = .ok () q) :
    p.Proceeds q ∧ q.Unended :=
  have hs := (Act.step_proceeds h.ordered hu).ok hq
  ⟨hs, (h.step hq).1.unended hu.resting, hs.joining hu.joining⟩

/-- Code is at its end after a step only if the code that executed was, or came to it. -/
theorem Proceeds.ending (h : p.Proceeds q) (hp : p.Unended) : q.thread.running.code.Open ∨
    (∃ origin held outcome, p.Closes origin held outcome ∧
      q = {p with thread := p.thread.become (.leaving origin held outcome)}) ∨
    ∃ origin held outcome, p.thread.running.code = .leaving origin held outcome ∧
      q.thread.running.code = .returned origin outcome ∧ q.joining = p.joining := by
  cases h with
  | on h _ => exact .inl h
  | starts _ _ hq =>
    subst hq
    exact .inl trivial
  | closes h hq => exact .inr (.inl ⟨_, _, _, h, hq⟩)
  | leaves hcode hcode' hj => exact .inr (.inr ⟨_, _, _, hcode, hcode', hj⟩)
  | @joins joiner _ _ hj ht _ =>
    rw [ht]
    exact .inl (hp.joining joiner (hj ▸ List.mem_cons_self ..))

/-- A run that does not halt ends with a step. -/
theorem run_unsnoc (h : p.run (n + 1) = (none, q)) :
    ∃ r, p.run n = (none, r) ∧ Act.step r = .ok () q := by
  induction n generalizing p with
  | zero =>
    obtain ⟨r, hs, hr⟩ := run_uncons h
    cases hr
    exact ⟨p, rfl, hs⟩
  | succ n ih =>
    obtain ⟨r, hs, hr⟩ := run_uncons h
    obtain ⟨r', hr', hs'⟩ := ih hr
    exact ⟨r', (run_succ hs).trans hr', hs'⟩

end Process

namespace Scenario

variable {s : Scenario} {p q : Process} {n : Nat} {origin : Origin} {held : List Nat}
  {outcome : Outcome}

theorem unended (s : Scenario) : s.process.Unended where
  resting t ht := by
    obtain rfl := List.mem_singleton.mp ht
    exact fun _ _ _ h => nomatch h
  joining _ h := nomatch h

theorem Reaches.unended (h : s.Reaches p) : p.Unended := by
  obtain ⟨n, hrun⟩ := h
  exact (Process.run_induction (P := fun p => p.Lawful ∧ p.Unended)
    (fun _ _ hp hs => ⟨(hp.1.step hs).2, (hp.1.proceeds hp.2 hs).2⟩) ⟨s.lawful, s.unended⟩ hrun).2

theorem Reaches.proceeds (h : s.Reaches p) (hq : Act.step p = .ok () q) : p.Proceeds q :=
  (h.lawful.proceeds h.unended hq).1

/-- Code on its way out came to its end one step before. -/
theorem run_leaving (hrun : s.process.run n = (none, q))
    (hcode : q.thread.running.code = .leaving origin held outcome) :
    ∃ m p, n = m + 1 ∧ s.process.run m = (none, p) ∧ p.Closes origin held outcome ∧
      q.joining = p.joining := by
  cases n with
  | zero =>
    cases hrun
    cases hcode
  | succ m =>
    obtain ⟨p, hp, hs⟩ := Process.run_unsnoc hrun
    have hreaches : s.Reaches p := ⟨m, hp⟩
    rcases (hreaches.proceeds hs).ending hreaches.unended with h | ⟨_, _, _, h, rfl⟩ |
      ⟨_, _, _, -, hreturned, -⟩
    · rw [hcode] at h
      exact h.elim
    · cases hcode
      exact ⟨m, p, rfl, hp, h, rfl⟩
    · rw [hcode] at hreturned
      cases hreturned

/-- **History of an outcome**: code that has returned came to its end two steps before, with the
same outcome and on the same thread. -/
theorem run_returned (hrun : s.process.run n = (none, q))
    (hcode : q.thread.running.code = .returned origin outcome) :
    ∃ m p held, n = m + 2 ∧ s.process.run m = (none, p) ∧ p.Closes origin held outcome ∧
      q.joining = p.joining := by
  cases n with
  | zero =>
    cases hrun
    cases hcode
  | succ m =>
    obtain ⟨r, hr, hs⟩ := Process.run_unsnoc hrun
    have hreaches : s.Reaches r := ⟨m, hr⟩
    rcases (hreaches.proceeds hs).ending hreaches.unended with h | ⟨_, _, _, -, rfl⟩ |
      ⟨_, held, _, hleaving, hreturned, hj⟩
    · rw [hcode] at h
      exact h.elim
    · cases hcode
    · rw [hcode] at hreturned
      cases hreturned
      obtain ⟨k, p, rfl, hp, hcloses, hj'⟩ := run_leaving hr hleaving
      exact ⟨k, p, held, rfl, hp, hcloses, hj.trans hj'⟩

end Scenario
end Fibers
